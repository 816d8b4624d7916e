import DeskCalc.Proofs.Text.Shapes
import DeskCalc.Text.Replace

/-!
# Replacing words

A name that consists of word characters is replaced word by word: characters that belong to no word
divide a text into parts that are treated on their own, and a word is replaced exactly if it is the
name, in either case if the search is for either.  Words that begin with a digit are no names, so
numbers are left alone.
-/

namespace DeskCalc.Text

variable {name value s t : Text} {before : Option Char} {skip : Nat} {anyCase : Bool}

/-! ## Which texts are a name -/

/-- A text is the name that is looked for, perhaps in another case. -/
def IsNamed (anyCase : Bool) (here name : Text) : Prop :=
  (if anyCase then sameLetters here name else here == name) = true

instance : Decidable (IsNamed anyCase s name) :=
  inferInstanceAs (Decidable (_ = true))

theorem isNamed_false : IsNamed false s name ↔ s = name :=
  beq_iff_eq

theorem isNamed_true : IsNamed true s name ↔ sameLetters s name = true :=
  .rfl

theorem IsNamed.length_eq (h : IsNamed anyCase s name) : s.length = name.length := by
  cases anyCase with
  | false => exact congrArg List.length (isNamed_false.mp h)
  | true => exact Shape.length_of_sameLetters h

/-- Both cases of a word character are word characters. -/
theorem isWord_of_sameLetter {c d : Char} (h : sameLetter c d = true) (hd : isWord d = true) :
    isWord c = true := by
  rw [sameLetter, beq_iff_eq] at h
  have hkey (e : Char) : isWord (letterKey e) = isWord e := by
    by_cases hsmall : e.toNat < 128
    · have hall : ∀ n : Fin 128, isWord (letterKey (Char.ofNat n)) = isWord (Char.ofNat n) := by
        decide
      have he := hall ⟨e.toNat, hsmall⟩
      rwa [Char.ofNat_toNat] at he
    · have hof {n : Nat} {d : Char} (hn : e.toNat = n) (h : isWord d = isWord (Char.ofNat n)) :
          isWord d = isWord e := by
        rw [h, ← hn, Char.ofNat_toNat]
      rw [letterKey, if_neg hsmall]
      split
      next hn => exact hof hn (by decide +kernel)
      next hn => exact hof hn (by decide +kernel)
      next hn => exact hof hn (by decide +kernel)
      next hn => exact hof hn (by decide +kernel)
      next hn => exact hof hn (by decide +kernel)
      next hn => exact hof hn (by decide +kernel)
      · rfl
  rw [← hkey, h, hkey, hd]

theorem IsNamed.areWord (h : IsNamed anyCase s name) (hname : ∀ c ∈ name, isWord c = true) :
    ∀ c ∈ s, isWord c = true := by
  cases anyCase with
  | false => rwa [isNamed_false.mp h]
  | true =>
    replace h := isNamed_true.mp h
    induction s generalizing name with
    | nil => exact List.forall_mem_nil _
    | cons c s ih =>
      cases name with
      | nil => cases h
      | cons d name =>
        rw [sameLetters, Bool.and_eq_true] at h
        obtain ⟨hd, hrest⟩ := List.forall_mem_cons.mp hname
        exact List.forall_mem_cons.mpr ⟨isWord_of_sameLetter h.1 hd, ih hrest h.2⟩

/-! ## Where a name stands -/

theorem standsAt_iff : NameSearch.standsAt ⟨name, anyCase, true⟩ before s = true ↔
    IsNamed anyCase (s.take name.length) name ∧ isBoundary before s.head? = true ∧
      isBoundary (s.take name.length).getLast? (s.drop name.length).head? = true := by
  simp only [NameSearch.standsAt, Bool.not_true, Bool.false_or, Bool.and_eq_true, IsNamed]

/-- Of the character in front it only matters whether it is a word character. -/
theorem replaceFrom_congr_before {other : Option Char} (h : before.any isWord = other.any isWord) :
    NameSearch.replaceFrom ⟨name, anyCase, true⟩ value before skip s =
      NameSearch.replaceFrom ⟨name, anyCase, true⟩ value other skip s := by
  cases s with
  | nil => rfl
  | cons c s => simp only [NameSearch.replaceFrom, NameSearch.standsAt, isBoundary, h]

section Names

variable (hne : name ≠ []) (hname : ∀ c ∈ name, isWord c = true)

include hne hname

theorem IsNamed.any_getLast? (h : IsNamed anyCase s name) :
    s.getLast?.any isWord = true := by
  have hs : s ≠ [] := by
    rw [← List.length_pos_iff, h.length_eq]
    exact List.length_pos_iff.mpr hne
  rw [List.getLast?_eq_some_getLast hs]
  exact h.areWord hname _ (List.getLast_mem hs)

/-- A name does not stand where no word character stands. -/
theorem standsAt_of_not_isWord {c : Char} (hc : isWord c = false) :
    NameSearch.standsAt ⟨name, anyCase, true⟩ before (c :: s) = false := by
  rw [Bool.eq_false_iff, Ne, standsAt_iff]
  rintro ⟨htake, -⟩
  obtain ⟨d, rest, rfl⟩ := List.exists_cons_of_ne_nil hne
  rw [List.length_cons, List.take_succ_cons] at htake
  have hword := htake.areWord hname c List.mem_cons_self
  rw [hc] at hword
  cases hword

omit hne in
/-- A character that belongs to no word ends a text just as well as nothing at all. -/
theorem standsAt_append {c : Char} (hc : isWord c = false) (ht : t ≠ []) :
    NameSearch.standsAt ⟨name, anyCase, true⟩ before (t ++ c :: s) =
      NameSearch.standsAt ⟨name, anyCase, true⟩ before t := by
  have hhead : (t ++ c :: s).head? = t.head? := by
    obtain ⟨d, rest, rfl⟩ := List.exists_cons_of_ne_nil ht
    rfl
  rw [Bool.eq_iff_iff, standsAt_iff, standsAt_iff, hhead]
  by_cases hlength : name.length ≤ t.length
  · have htake : (t ++ c :: s).take name.length = t.take name.length :=
      List.take_append_of_le_length hlength
    have hdrop : isBoundary (t.take name.length).getLast? ((t ++ c :: s).drop name.length).head? =
        isBoundary (t.take name.length).getLast? (t.drop name.length).head? := by
      rw [List.drop_append_of_le_length hlength, isBoundary, isBoundary]
      cases t.drop name.length with
      | nil => simp [hc]
      | cons d rest => rfl
    rw [htake, hdrop]
  · have hlong : ¬IsNamed anyCase ((t ++ c :: s).take name.length) name := by
      intro htake
      have hmem : c ∈ (t ++ c :: s).take name.length := by
        rw [List.take_append, List.mem_append]
        right
        obtain ⟨k, hk⟩ : ∃ k, name.length - t.length = k + 1 :=
          ⟨name.length - t.length - 1, by omega⟩
        rw [hk, List.take_succ_cons]
        exact List.mem_cons_self
      rw [htake.areWord hname c hmem] at hc
      cases hc
    have hshort : ¬IsNamed anyCase (t.take name.length) name := by
      intro htake
      have hle := htake.length_eq
      rw [List.length_take] at hle
      omega
    simp only [hlong, hshort, false_and]

theorem replaceFrom_append {c : Char} (hc : isWord c = false) (hskip : skip ≤ t.length) :
    NameSearch.replaceFrom ⟨name, anyCase, true⟩ value before skip (t ++ c :: s) =
      NameSearch.replaceFrom ⟨name, anyCase, true⟩ value before skip t ++
        c :: NameSearch.replaceFrom ⟨name, anyCase, true⟩ value none 0 s := by
  induction t generalizing before skip with
  | nil =>
    obtain rfl : skip = 0 := Nat.le_zero.mp hskip
    have hstands : NameSearch.standsAt ⟨name, anyCase, true⟩ before (c :: s) = false :=
      standsAt_of_not_isWord hne hname hc
    rw [List.nil_append, NameSearch.replaceFrom.eq_2, if_neg (Nat.lt_irrefl 0), hstands,
      if_neg Bool.false_ne_true, NameSearch.replaceFrom, List.nil_append]
    exact congrArg (c :: ·) (replaceFrom_congr_before (by simp [hc]))
  | cons d t ih =>
    have hstands : NameSearch.standsAt ⟨name, anyCase, true⟩ before (d :: t ++ c :: s) =
        NameSearch.standsAt ⟨name, anyCase, true⟩ before (d :: t) :=
      standsAt_append hname hc (List.cons_ne_nil d t)
    rw [List.cons_append] at hstands ⊢
    rw [NameSearch.replaceFrom, NameSearch.replaceFrom, hstands]
    split
    · rw [List.length_cons] at hskip
      exact ih (by omega)
    · split
      next h =>
        have htake := (standsAt_iff.mp h).1.length_eq
        rw [List.length_take, List.length_cons] at htake
        rw [ih (by simp only; omega), List.append_assoc]
      · rw [ih (Nat.zero_le _), List.cons_append]

/-- The parts of a text around a character that belongs to no word are treated on their own. -/
theorem replace_append {c : Char} (hc : isWord c = false) (t s : Text) :
    NameSearch.replace ⟨name, anyCase, true⟩ value (t ++ c :: s) =
      NameSearch.replace ⟨name, anyCase, true⟩ value t ++
        c :: NameSearch.replace ⟨name, anyCase, true⟩ value s :=
  replaceFrom_append hne hname hc (Nat.zero_le _)

theorem replaceWord_append {c : Char} (hc : isWord c = false) (t s : Text) :
    replaceWord name value (t ++ c :: s) =
      replaceWord name value t ++ c :: replaceWord name value s :=
  replace_append hne hname hc t s

theorem replaceWordAnyCase_append {c : Char} (hc : isWord c = false) (t s : Text) :
    replaceWordAnyCase name value (t ++ c :: s) =
      replaceWordAnyCase name value t ++ c :: replaceWordAnyCase name value s :=
  replace_append hne hname hc t s

omit hne hname in
/-- Inside of a word no name begins. -/
theorem replaceFrom_inside {c : Char} (hc : isWord c = true) (hs : ∀ d ∈ s, isWord d = true) :
    NameSearch.replaceFrom ⟨name, anyCase, true⟩ value (some c) 0 s = s := by
  induction s generalizing c with
  | nil => rfl
  | cons d s ih =>
    have hd := hs d List.mem_cons_self
    have hstands : NameSearch.standsAt ⟨name, anyCase, true⟩ (some c) (d :: s) = false := by
      rw [Bool.eq_false_iff, Ne, standsAt_iff]
      rintro ⟨-, hboundary, -⟩
      simp [isBoundary, hc, hd] at hboundary
    rw [NameSearch.replaceFrom, if_neg (Nat.lt_irrefl 0), hstands, if_neg Bool.false_ne_true,
      ih hd fun e he => hs e (List.mem_cons_of_mem d he)]

omit hne hname in
theorem replaceFrom_skip (before : Option Char) :
    NameSearch.replaceFrom ⟨name, anyCase, true⟩ value before s.length s = [] := by
  induction s generalizing before with
  | nil => rfl
  | cons c s ih =>
    rw [List.length_cons, NameSearch.replaceFrom, if_pos (Nat.succ_pos _), Nat.add_sub_cancel]
    exact ih _

/-- A single word is replaced exactly if it is the name. -/
theorem replace_word (hs : ∀ c ∈ s, isWord c = true) :
    NameSearch.replace ⟨name, anyCase, true⟩ value s =
      if IsNamed anyCase s name then value else s := by
  cases s with
  | nil =>
    have hempty : ¬IsNamed anyCase [] name := by
      intro h
      exact hne (List.length_eq_zero_iff.mp h.length_eq.symm)
    rw [if_neg hempty]
    rfl
  | cons c s =>
    have hc := hs c List.mem_cons_self
    have hrest := fun d hd => hs d (List.mem_cons_of_mem c hd)
    have hstands : NameSearch.standsAt ⟨name, anyCase, true⟩ none (c :: s) = true ↔
        IsNamed anyCase (c :: s) name := by
      rw [standsAt_iff]
      constructor
      · rintro ⟨htake, -, hafter⟩
        -- A character behind the name would be a word character and no boundary.
        cases hdrop : (c :: s).drop name.length with
        | nil => rwa [List.take_of_length_le (List.drop_eq_nil_iff.mp hdrop)] at htake
        | cons d rest =>
          have hd : isWord d = true :=
            hs d (List.mem_of_mem_drop (by rw [hdrop]; exact List.mem_cons_self))
          rw [hdrop, isBoundary, htake.any_getLast? hne hname] at hafter
          simp [hd] at hafter
      · intro hnamed
        rw [← hnamed.length_eq, List.take_length, List.drop_length]
        refine ⟨hnamed, by simp [isBoundary, hc], ?_⟩
        rw [isBoundary, hnamed.any_getLast? hne hname]
        rfl
    rw [NameSearch.replace, NameSearch.replaceFrom, if_neg (Nat.lt_irrefl 0)]
    by_cases hnamed : IsNamed anyCase (c :: s) name
    · have hlength : name.length - 1 = s.length := by
        rw [← hnamed.length_eq, List.length_cons, Nat.add_sub_cancel]
      rw [if_pos (hstands.mpr hnamed), if_pos hnamed, hlength, replaceFrom_skip, List.append_nil]
    · rw [if_neg (mt hstands.mp hnamed), if_neg hnamed, replaceFrom_inside hc hrest]

theorem replaceWord_word (hs : ∀ c ∈ s, isWord c = true) :
    replaceWord name value s = if s = name then value else s := by
  rw [replaceWord, replace_word hne hname hs]
  exact if_congr isNamed_false rfl rfl

theorem replaceWordAnyCase_word (hs : ∀ c ∈ s, isWord c = true) :
    replaceWordAnyCase name value s = if sameLetters s name = true then value else s := by
  rw [replaceWordAnyCase, replace_word hne hname hs]
  exact if_congr isNamed_true rfl rfl

end Names

/-! ## Names that are not there -/

theorem exists_of_sameLetters {d : Char} (h : sameLetters s name = true) (hd : d ∈ name) :
    ∃ c ∈ s, sameLetter c d = true := by
  induction s generalizing name with
  | nil =>
    cases name with
    | nil => cases hd
    | cons e name => cases h
  | cons c s ih =>
    cases name with
    | nil => cases h
    | cons e name =>
      rw [sameLetters, Bool.and_eq_true] at h
      rcases List.mem_cons.mp hd with rfl | hd
      · exact ⟨c, List.mem_cons_self, h.1⟩
      · obtain ⟨b, hb, hsame⟩ := ih h.2 hd
        exact ⟨b, List.mem_cons_of_mem c hb, hsame⟩

/-- A text without one of the letters of a name is left as it is. -/
theorem replaceWordAnyCase_of_not_mem {d : Char} (hd : d ∈ name)
    (hs : ∀ c ∈ s, sameLetter c d = false) : replaceWordAnyCase name value s = s := by
  have hfrom (before : Option Char) :
      NameSearch.replaceFrom ⟨name, true, true⟩ value before 0 s = s := by
    induction s generalizing before with
    | nil => rfl
    | cons c s ih =>
      have hstands : NameSearch.standsAt ⟨name, true, true⟩ before (c :: s) = false := by
        rw [Bool.eq_false_iff, Ne, standsAt_iff]
        rintro ⟨hnamed, -⟩
        obtain ⟨b, hb, hsame⟩ := exists_of_sameLetters hnamed hd
        rw [hs b (List.mem_of_mem_take hb)] at hsame
        cases hsame
      rw [NameSearch.replaceFrom, if_neg (Nat.lt_irrefl 0), hstands, if_neg Bool.false_ne_true,
        ih fun b hb => hs b (List.mem_cons_of_mem c hb)]
  exact hfrom none

/-- Where a name may stand inside of words, nothing is replaced in front of its first letter. -/
theorem replaceAnywhere_append {d : Char} {run : Text} (hrun : ∀ c ∈ run, sameLetter c d = false)
    (s : Text) : replaceAnywhere (d :: name) value (run ++ s) =
      run ++ replaceAnywhere (d :: name) value s := by
  have hbefore (before : Option Char) (s : Text) :
      NameSearch.replaceFrom ⟨d :: name, true, false⟩ value before 0 s =
        NameSearch.replaceFrom ⟨d :: name, true, false⟩ value none 0 s := by
    cases s <;> rfl
  have hfrom (before : Option Char) :
      NameSearch.replaceFrom ⟨d :: name, true, false⟩ value before 0 (run ++ s) =
        run ++ NameSearch.replaceFrom ⟨d :: name, true, false⟩ value none 0 s := by
    induction run generalizing before with
    | nil => exact hbefore before s
    | cons c run ih =>
      have hstands : NameSearch.standsAt ⟨d :: name, true, false⟩ before (c :: (run ++ s)) =
          false := by
        simp [NameSearch.standsAt, sameLetters, hrun c List.mem_cons_self]
      rw [List.cons_append, NameSearch.replaceFrom, if_neg (Nat.lt_irrefl 0), hstands,
        if_neg Bool.false_ne_true, ih fun b hb => hrun b (List.mem_cons_of_mem c hb)]
      rfl
  exact hfrom none

/-! ## Texts without names -/

/-- Every word of the text begins with a digit. -/
inductive Nameless : Text → Prop
  | word {w : Text} : (∀ c ∈ w, isWord c = true) → (∀ c ∈ w.head?, c.isDigit = true) → Nameless w
  | divided {s t : Text} {c : Char} : Nameless s → isWord c = false → Nameless t →
    Nameless (s ++ c :: t)

theorem nameless_nil : Nameless [] :=
  .word (List.forall_mem_nil _) nofun

theorem Nameless.cons {c : Char} (hc : isWord c = false) (hs : Nameless s) : Nameless (c :: s) :=
  .divided nameless_nil hc hs

/-- A name that does not begin with a digit is not found in such a text. -/
theorem Nameless.replaceWord_eq (hs : Nameless s) (hname : ∀ c ∈ name, isWord c = true)
    (hhead : ∃ c rest, name = c :: rest ∧ c.isDigit = false) : replaceWord name value s = s := by
  obtain ⟨c, rest, rfl, hc⟩ := hhead
  have hne := List.cons_ne_nil c rest
  induction hs with
  | @word w hword hdigit =>
    rw [replaceWord_word hne hname hword, if_neg]
    rintro rfl
    rw [hdigit c rfl] at hc
    cases hc
  | divided _ hd _ ihs iht => rw [replaceWord_append hne hname hd, ihs, iht]

/-! ## Texts with blanks between their parts -/

/-- The parts with one blank between any two. -/
def spaced : List Text → Text
  | [] => []
  | [s] => s
  | s :: t :: parts => s ++ ' ' :: spaced (t :: parts)

theorem isWord_blank : isWord ' ' = false := by
  decide

theorem flatMap_spaced {f : Char → Text} (hf : f ' ' = [' ']) (parts : List Text) :
    (spaced parts).flatMap f = spaced (parts.map (·.flatMap f)) := by
  induction parts with
  | nil => rfl
  | cons s parts ih =>
    cases parts with
    | nil => rfl
    | cons t parts =>
      rw [spaced, List.flatMap_append, List.flatMap_cons, hf, ih]
      rfl

/-- Without the blanks only the parts are left. -/
theorem filter_spaced {p : Char → Bool} (hp : p ' ' = false) (parts : List Text) :
    (spaced parts).filter p = parts.flatMap (·.filter p) := by
  induction parts with
  | nil => rfl
  | cons s parts ih =>
    cases parts with
    | nil => simp [spaced]
    | cons t parts =>
      rw [spaced, List.filter_append, List.filter_cons_of_neg (by simp [hp]), ih]
      rfl

end DeskCalc.Text
