import DeskCalc.Proofs.Number.Texts
import DeskCalc.Proofs.Text.Storable
import DeskCalc.Session.Substitution

/-!
# Signs and the replacement of variables

What is put in the places of variables and constants is the text of a number, and names have no
mark.  The marks of an expression therefore still stand where signs begin after all replacements.
-/

namespace DeskCalc

open Text (mark Aligned)

/-! ## Replacing a word -/

namespace Text

variable {p : Char → Bool} {name value s : Text} {before : Option Char}

theorem take_of_standsAt (h : NameSearch.standsAt ⟨name, false, true⟩ before s = true) :
    s.take name.length = name := by
  rw [NameSearch.standsAt] at h
  simp only [Bool.false_eq_true, if_false, Bool.and_eq_true, beq_iff_eq] at h
  exact h.1

theorem standsAt_of_not {c : Char} (hne : name ≠ []) (hname : ∀ c ∈ name, p c = true)
    (hc : p c = false) : NameSearch.standsAt ⟨name, false, true⟩ before (c :: s) = false := by
  rw [Bool.eq_false_iff]
  intro hstands
  have htake := take_of_standsAt hstands
  obtain ⟨d, t, rfl⟩ := List.exists_cons_of_ne_nil hne
  rw [List.length_cons, List.take_succ_cons] at htake
  have hd := hname d List.mem_cons_self
  rw [← (List.cons.inj htake).1, hc] at hd
  cases hd

/-- The characters of a name that is being skipped are all of a low class. -/
theorem aligned_replaceFrom (hp : Low p) (hne : name ≠ []) (hname : ∀ c ∈ name, p c = true)
    (hvalue : mark ∉ value) (hs : Aligned s) (before : Option Char) (skip : Nat)
    (hskip : ∀ c ∈ s.take skip, p c = true) :
    Aligned (NameSearch.replaceFrom ⟨name, false, true⟩ value before skip s) := by
  induction hs generalizing before skip with
  | nil => exact .nil
  | @char c s hc hs ih =>
    rw [NameSearch.replaceFrom]
    split
    next hpos =>
      obtain ⟨n, rfl⟩ : ∃ n, skip = n + 1 := ⟨skip - 1, by omega⟩
      exact ih _ _ fun d hd => hskip d (List.mem_cons_of_mem c hd)
    · split
      next hstands =>
        have htake := take_of_standsAt hstands
        obtain ⟨d, t, rfl⟩ := List.exists_cons_of_ne_nil hne
        rw [List.length_cons, List.take_succ_cons] at htake
        refine Aligned.append hvalue (ih _ _ fun e he => hname e ?_)
        exact List.mem_cons_of_mem d ((List.cons.inj htake).2 ▸ he)
      · exact .char hc (ih _ _ (by simp))
  | @sign d s hd hs ih =>
    have hzero : skip = 0 := by
      by_contra hpos
      obtain ⟨n, rfl⟩ : ∃ n, skip = n + 1 := ⟨skip - 1, by omega⟩
      have hmark := hskip mark List.mem_cons_self
      rw [hp.mark] at hmark
      cases hmark
    subst hzero
    rw [NameSearch.replaceFrom, if_neg (lt_irrefl 0), standsAt_of_not hne hname hp.mark,
      if_neg Bool.false_ne_true, NameSearch.replaceFrom, if_neg (lt_irrefl 0),
      standsAt_of_not hne hname (hp.sign hd), if_neg Bool.false_ne_true]
    exact .sign hd (ih _ _ (by simp))

theorem aligned_replaceWord (hp : Low p) (hne : name ≠ []) (hname : ∀ c ∈ name, p c = true)
    (hvalue : mark ∉ value) (hs : Aligned s) : Aligned (replaceWord name value s) :=
  aligned_replaceFrom hp hne hname hvalue hs none 0 (by simp)

end Text

namespace Session

/-! ## Names -/

theorem low_isNameChar : Text.Low isNameChar := by
  intro c hc
  rw [isNameChar, Bool.or_eq_true, beq_iff_eq] at hc
  rcases hc with hletter | rfl
  · exact Text.low_isAlphanum c hletter
  · decide

theorem isNameChar_of_isNameStart {c : Char} (h : isNameStart c = true) :
    isNameChar c = true := by
  rw [isNameStart, Bool.or_eq_true] at h
  rw [isNameChar, Bool.or_eq_true]
  rcases h with hletter | hline
  · exact .inl (by simp [Char.isAlphanum, hletter])
  · exact .inr hline

theorem namesFrom_spec {taken s name : Text} (htaken : ∀ c ∈ taken, isNameChar c = true)
    (h : name ∈ namesFrom taken s) : name ≠ [] ∧ ∀ c ∈ name, isNameChar c = true := by
  have hwhole {taken : Text} (htaken : ∀ c ∈ taken, isNameChar c = true)
      (hne : ¬taken.isEmpty = true) :
      taken.reverse ≠ [] ∧ ∀ c ∈ taken.reverse, isNameChar c = true := by
    refine ⟨?_, fun c hc => htaken c (List.mem_reverse.mp hc)⟩
    rw [Ne, List.reverse_eq_nil_iff, ← List.isEmpty_iff]
    exact hne
  induction s generalizing taken with
  | nil =>
    rw [namesFrom] at h
    split at h
    · cases h
    next hne =>
      rw [List.mem_singleton.mp h]
      exact hwhole htaken hne
  | cons c s ih =>
    rw [namesFrom] at h
    split at h
    · refine ih ?_ h
      split
      next hstart => exact List.forall_mem_singleton.mpr (isNameChar_of_isNameStart hstart)
      · exact List.forall_mem_nil _
    next hne =>
      split at h
      next hc => exact ih (List.forall_mem_cons.mpr ⟨hc, htaken⟩) h
      · rcases List.mem_cons.mp h with rfl | h
        · exact hwhole htaken hne
        · exact ih (List.forall_mem_nil _) h

theorem mentionedNames_spec {s : Text} {name : String} (h : name ∈ mentionedNames s) :
    name.toList ≠ [] ∧ ∀ c ∈ name.toList, isNameChar c = true := by
  rw [mentionedNames, List.mem_eraseDups] at h
  obtain ⟨n, hn, rfl⟩ := List.mem_map.mp h
  rw [String.toList_ofList]
  exact namesFrom_spec (List.forall_mem_nil _) hn

/-! ## Replacing everything -/

theorem mark_not_mem_lastText {bindings : List (String × Json)} {t : Text}
    (h : lastText bindings = .ok t) : mark ∉ t := by
  have hzero : mark ∉ ['0'] := by decide
  rw [lastText] at h
  split at h
  · cases h
    split
    · exact (Number.isNumberText_numberText _).mark_not_mem
    · exact hzero
  · cases h
    exact hzero
  · cases h

theorem aligned_flatMap {s last : Text} (hlast : mark ∉ last) (hs : Aligned s) :
    Aligned (s.flatMap fun c => if c == '@' then last else [c]) := by
  have hlow : Text.Low (· == '@') := by
    intro c hc
    rw [beq_iff_eq.mp hc]
    decide
  induction hs with
  | nil => exact .nil
  | @char c s hc hs ih =>
    rw [List.flatMap_cons]
    split
    · exact Aligned.append hlast ih
    · exact .char hc ih
  | @sign d s hd hs ih =>
    rw [List.flatMap_cons, List.flatMap_cons, hlow.mark, hlow.sign hd]
    exact .sign hd ih

theorem aligned_replaceVariables {bindings : List (String × Json)} {s t : Text}
    {names : List String}
    (hnames : ∀ name ∈ names, name.toList ≠ [] ∧ ∀ c ∈ name.toList, isNameChar c = true)
    (hs : Aligned s) (h : replaceVariables bindings s names = .ok t) : Aligned t := by
  induction names generalizing s with
  | nil =>
    cases h
    exact hs
  | cons name names ih =>
    have hrest := fun n hn => hnames n (List.mem_cons_of_mem name hn)
    obtain ⟨hne, hname⟩ := hnames name List.mem_cons_self
    rw [replaceVariables] at h
    cases hvalue : bindings.lookup name with
    | none =>
      rw [hvalue] at h
      exact ih hrest hs h
    | some j =>
      cases hnumber : j.wholeNumber with
      | error f =>
        simp only [hvalue, hnumber] at h
        cases h
      | ok x =>
        simp only [hvalue, hnumber] at h
        have htext := (Number.isNumberText_numberText x).mark_not_mem
        exact ih hrest (Text.aligned_replaceWord low_isNameChar hne hname htext hs) h

theorem aligned_substitute {bindings : List (String × Json)} {s t : Text} (hs : Aligned s)
    (h : substitute bindings s = .ok t) : Aligned t := by
  have hconstant {name u : Text} (x : Float) (hne : name ≠ []) (hname : ∀ c ∈ name, isNameChar c = true)
      (hu : Aligned u) : Aligned (Text.replaceWord name (Number.numberText x) u) :=
    Text.aligned_replaceWord low_isNameChar hne hname
      (Number.isNumberText_numberText x).mark_not_mem hu
  rw [substitute] at h
  cases hlast : lastText bindings with
  | error f =>
    rw [hlast] at h
    cases h
  | ok last =>
    rw [hlast] at h
    have hflat := aligned_flatMap (mark_not_mem_lastText hlast) hs
    simp only [bind, Except.bind] at h
    split at h
    · cases h
    next u hvariables =>
      cases h
      have hu : Aligned u := by
        refine aligned_replaceVariables ?_ hflat hvariables
        intro name hmem
        exact mentionedNames_spec (List.mem_mergeSort.mp hmem)
      refine hconstant _ (List.cons_ne_nil _ _) (List.all_eq_true.mp (by decide)) ?_
      exact hconstant _ (List.cons_ne_nil _ _) (List.all_eq_true.mp (by decide)) hu

end Session
end DeskCalc
