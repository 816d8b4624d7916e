import DeskCalc.Proofs.Text.Alphabet
import DeskCalc.Proofs.Text.Run
import DeskCalc.Text.Blank
import DeskCalc.Text.Digit
import DeskCalc.Text.Half
import Mathlib.Data.List.Chain

/-!
# Texts that documents can hold

A document writes a half of a pair by its number, and two halves that follow each other are read
as one character.  A text can therefore be stored if it is the writing of characters and halves,
and no first half stands right before a second one.  Any text without the mark of halves is of this
kind, and so is what is left of such a text when blanks are stripped off.

For the first sign of a text that is left over by reading, less is enough: its marks have to stand
where a sign begins.
-/

namespace DeskCalc.Text

/-! ## Storable texts -/

/-- No first half of a pair stands right before a second one. -/
def Unsplit (ns : List Nat) : Prop :=
  ns.IsChain fun m n => ¬(isHighHalf m = true ∧ isLowHalf n = true)

/-- A text that a document can hold. -/
def Storable (s : Text) : Prop :=
  ∃ ns, (∀ n ∈ ns, n < 0x110000) ∧ Unsplit ns ∧ s = ofCodes ns

variable {s t : Text}

theorem ofCodes_append (ms ns : List Nat) : ofCodes (ms ++ ns) = ofCodes ms ++ ofCodes ns := by
  rw [ofCodes, List.flatMap_append]
  rfl

theorem ofCodes_cons (n : Nat) (ns : List Nat) : ofCodes (n :: ns) = ofCode n ++ ofCodes ns :=
  rfl

theorem toNat_lt (c : Char) : c.toNat < 0x110000 := by
  have hvalid := c.valid
  rw [UInt32.isValidChar, Nat.isValidChar] at hvalid
  have heq : c.toNat = c.val.toNat := rfl
  omega

theorem isHalf_toNat (c : Char) : isHalf c.toNat = false := by
  have hvalid := c.valid
  rw [UInt32.isValidChar, Nat.isValidChar] at hvalid
  have heq : c.toNat = c.val.toNat := rfl
  rw [Bool.eq_false_iff, Ne, isHalf_iff]
  omega

theorem isHighHalf_toNat (c : Char) : isHighHalf c.toNat = false := by
  have hhalf := isHalf_toNat c
  rw [Bool.eq_false_iff, Ne, isHalf_iff] at hhalf
  rw [Bool.eq_false_iff, Ne, isHighHalf, Bool.and_eq_true, decide_eq_true_iff, decide_eq_true_iff]
  omega

theorem ofCode_toNat {c : Char} (h : c ≠ mark) : ofCode c.toNat = [c] := by
  have hcode : c.toNat ≠ markCode := by
    intro heq
    rw [← mark_toNat] at heq
    exact h (Char.toNat_inj.mp heq)
  rw [ofCode, isHalf_toNat, if_neg Bool.false_ne_true, if_neg hcode, Char.ofNat_toNat]

theorem ofCodes_map_toNat (h : mark ∉ s) : ofCodes (s.map Char.toNat) = s := by
  induction s with
  | nil => rfl
  | cons c s ih =>
    rw [List.mem_cons, not_or] at h
    rw [List.map_cons, ofCodes_cons, ofCode_toNat (Ne.symm h.1), ih h.2]
    rfl

theorem unsplit_map_toNat_append (s : Text) {ns : List Nat} (h : Unsplit ns) :
    Unsplit (s.map Char.toNat ++ ns) := by
  induction s with
  | nil => exact h
  | cons c s ih =>
    rw [List.map_cons, List.cons_append, Unsplit, List.isChain_cons]
    refine ⟨fun n _ hpair => ?_, ih⟩
    rw [isHighHalf_toNat] at hpair
    exact absurd hpair.1 Bool.false_ne_true

/-- Characters in front of a storable text make no difference. -/
theorem Storable.append (hs : mark ∉ s) (ht : Storable t) : Storable (s ++ t) := by
  obtain ⟨ns, hbound, hunsplit, rfl⟩ := ht
  refine ⟨s.map Char.toNat ++ ns, ?_, unsplit_map_toNat_append s hunsplit, ?_⟩
  · intro n hn
    rcases List.mem_append.mp hn with hn | hn
    · obtain ⟨c, -, rfl⟩ := List.mem_map.mp hn
      exact toNat_lt c
    · exact hbound n hn
  · rw [ofCodes_append, ofCodes_map_toNat hs]

theorem storable_nil : Storable [] :=
  ⟨[], nofun, List.isChain_nil, rfl⟩

theorem storable_of_mark_not_mem (h : mark ∉ s) : Storable s := by
  have happend := Storable.append h storable_nil
  rwa [List.append_nil] at happend

theorem storable_ofCode {n : Nat} (h : n < 0x110000) : Storable (ofCode n) := by
  refine ⟨[n], by simpa using h, List.isChain_singleton _, ?_⟩
  rw [ofCodes_cons]
  exact (List.append_nil _).symm

/-! ## Stripping -/

/-- Blanks, as all classes of characters that expressions are made of, have small numbers. -/
theorem toNat_lt_of_isBlank {c : Char} (h : isBlank c = true) : c.toNat < 0x10F000 := by
  simp only [isBlank, blankRanges, Ranges.contains, List.any_cons, List.any_nil, Bool.or_eq_true,
    Bool.and_eq_true, decide_eq_true_eq, Bool.or_false] at h
  omega

/-- A sign is a character other than the mark, or the mark and a character with a large number. -/
theorem ofCode_cases {n : Nat} (h : n < 0x110000) :
    (∃ c, ofCode n = [c] ∧ c.toNat = n ∧ c ≠ mark) ∨
      ∃ d, ofCode n = [mark, d] ∧ 0x10F000 ≤ d.toNat := by
  rw [ofCode]
  split
  next hhalf =>
    rw [isHalf_iff] at hhalf
    refine .inr ⟨_, rfl, ?_⟩
    rw [toNat_ofNat (by unfold halfShift; omega)
      (by rw [isHalf_iff]; unfold halfShift; omega)]
    unfold halfShift
    omega
  next hwhole =>
    split
    · exact .inr ⟨mark, rfl, by rw [mark_toNat]; decide⟩
    next hcode =>
      have hnumber := toNat_ofNat h hwhole
      exact .inl ⟨_, rfl, hnumber, ne_mark (by rwa [hnumber])⟩

theorem isBlank_of_le {d : Char} (h : 0x10F000 ≤ d.toNat) : isBlank d = false := by
  rw [Bool.eq_false_iff]
  intro hblank
  have hlt := toNat_lt_of_isBlank hblank
  omega

theorem isBlank_sign_mark : isBlank mark = false :=
  isBlank_of_le (by rw [mark_toNat]; decide)

theorem exists_ofCodes_dropWhile {ns : List Nat} (hbound : ∀ n ∈ ns, n < 0x110000) :
    ∃ ms, ms <:+ ns ∧ (ofCodes ns).dropWhile isBlank = ofCodes ms := by
  induction ns with
  | nil => exact ⟨[], List.suffix_refl _, rfl⟩
  | cons n ns ih =>
    rcases ofCode_cases (hbound n List.mem_cons_self) with ⟨c, hc, -⟩ | ⟨d, hd, -⟩
    · cases hblank : isBlank c with
      | true =>
        obtain ⟨ms, hsuffix, hdrop⟩ := ih fun m hm => hbound m (List.mem_cons_of_mem n hm)
        refine ⟨ms, hsuffix.trans (List.suffix_cons n ns), ?_⟩
        rw [ofCodes_cons, hc, List.singleton_append, List.dropWhile_cons_of_pos hblank, hdrop]
      | false =>
        refine ⟨n :: ns, List.suffix_refl _, ?_⟩
        rw [ofCodes_cons, hc, List.singleton_append,
          List.dropWhile_cons_of_neg (by rw [hblank]; exact Bool.false_ne_true)]
    · refine ⟨n :: ns, List.suffix_refl _, ?_⟩
      rw [ofCodes_cons, hd, List.cons_append,
        List.dropWhile_cons_of_neg (by rw [isBlank_sign_mark]; exact Bool.false_ne_true)]

theorem exists_ofCodes_rdropWhile {ns : List Nat} (hbound : ∀ n ∈ ns, n < 0x110000) :
    ∃ ms ks, ns = ms ++ ks ∧
      ((ofCodes ns).reverse.dropWhile isBlank).reverse = ofCodes ms := by
  induction ns using List.reverseRecOn with
  | nil => exact ⟨[], [], rfl, rfl⟩
  | append_singleton ns n ih =>
    have hlast : ofCodes (ns ++ [n]) = ofCodes ns ++ ofCode n := by
      rw [ofCodes_append, ofCodes_cons]
      exact congrArg _ (List.append_nil _)
    -- A text that ends in no blank is left as it is.
    have hkeep {d : Char} {u : Text} (hd : isBlank d = false) (hn : ofCode n = u ++ [d]) :
        ((ofCodes (ns ++ [n])).reverse.dropWhile isBlank).reverse = ofCodes (ns ++ [n]) := by
      rw [hlast, hn, ← List.append_assoc, List.reverse_append, List.reverse_singleton,
        List.singleton_append, List.dropWhile_cons_of_neg (by rw [hd]; exact Bool.false_ne_true),
        List.reverse_cons, List.reverse_reverse]
    rcases ofCode_cases (hbound n (by simp)) with ⟨c, hc, -⟩ | ⟨d, hd, hle⟩
    · cases hblank : isBlank c with
      | true =>
        obtain ⟨ms, ks, hns, hdrop⟩ := ih fun m hm => hbound m (by simp [hm])
        refine ⟨ms, ks ++ [n], by rw [hns, List.append_assoc], ?_⟩
        rw [hlast, hc, List.reverse_append, List.reverse_singleton, List.singleton_append,
          List.dropWhile_cons_of_pos hblank, hdrop]
      | false => exact ⟨ns ++ [n], [], (List.append_nil _).symm, hkeep (u := []) hblank hc⟩
    · exact ⟨ns ++ [n], [], (List.append_nil _).symm,
        hkeep (u := [mark]) (isBlank_of_le hle) hd⟩

theorem Storable.strip (h : Storable s) : Storable (strip s) := by
  obtain ⟨ns, hbound, hunsplit, rfl⟩ := h
  obtain ⟨ms, hsuffix, hleft⟩ := exists_ofCodes_dropWhile hbound
  have hbound' (n : Nat) (hn : n ∈ ms) : n < 0x110000 := hbound n (hsuffix.subset hn)
  obtain ⟨ks, ls, rfl, hright⟩ := exists_ofCodes_rdropWhile hbound'
  refine ⟨ks, ?_, ?_, ?_⟩
  · exact fun n hn => hbound' n (List.mem_append_left ls hn)
  · exact List.IsChain.left_of_append (hunsplit.suffix hsuffix)
  · rw [Text.strip, Text.trim, hleft, hright]

/-! ## Marks where signs begin -/

/-- A text whose marks stand where a sign begins. -/
inductive Aligned : Text → Prop
  | nil : Aligned []
  | char {c : Char} {s : Text} (hc : c ≠ mark) (hs : Aligned s) : Aligned (c :: s)
  | sign {d : Char} {s : Text} (hd : ∃ n < 0x110000, ofCode n = [mark, d]) (hs : Aligned s) :
    Aligned (mark :: d :: s)

theorem Storable.aligned (h : Storable s) : Aligned s := by
  obtain ⟨ns, hbound, -, rfl⟩ := h
  induction ns with
  | nil => exact .nil
  | cons n ns ih =>
    have hn := hbound n List.mem_cons_self
    have hrest := ih fun m hm => hbound m (List.mem_cons_of_mem n hm)
    rw [ofCodes_cons]
    rcases ofCode_cases hn with ⟨c, hc, -, hmark⟩ | ⟨d, hd, -⟩
    · rw [hc]
      exact .char hmark hrest
    · rw [hd]
      exact .sign ⟨n, hn, hd⟩ hrest

theorem Aligned.append (hs : mark ∉ s) (ht : Aligned t) : Aligned (s ++ t) := by
  induction s with
  | nil => exact ht
  | cons c s ih =>
    rw [List.mem_cons, not_or] at hs
    exact .char (Ne.symm hs.1) (ih hs.2)

theorem toNat_of_sign {d : Char} (hd : ∃ n < 0x110000, ofCode n = [mark, d]) :
    0x10F000 ≤ d.toNat := by
  obtain ⟨n, hn, hcode⟩ := hd
  rcases ofCode_cases hn with ⟨c, hc, -⟩ | ⟨e, he, hle⟩
  · rw [hcode] at hc
    cases hc
  · rw [hcode] at he
    cases he
    exact hle

theorem storable_firstSign (h : Aligned s) : Storable (firstSign s) := by
  cases h with
  | nil => exact storable_nil
  | @char c s hc hs =>
    have hsingle : Storable [c] := storable_of_mark_not_mem (by simpa using Ne.symm hc)
    cases s with
    | nil => exact hsingle
    | cons d s => rwa [firstSign, if_neg hc]
  | @sign d s hd hs =>
    obtain ⟨n, hn, hcode⟩ := hd
    rw [firstSign, if_pos rfl, ← hcode]
    exact storable_ofCode hn

/-- A class of characters to which no character of a written half belongs. -/
def Low (p : Char → Bool) : Prop :=
  ∀ c, p c = true → c.toNat < 0x10F000

theorem Low.mark {p : Char → Bool} (hp : Low p) : p mark = false := by
  rw [Bool.eq_false_iff]
  intro hmark
  have hlt := hp Text.mark hmark
  rw [mark_toNat, markCode] at hlt
  omega

theorem Low.sign {p : Char → Bool} (hp : Low p) {d : Char}
    (hd : ∃ n < 0x110000, ofCode n = [Text.mark, d]) : p d = false := by
  rw [Bool.eq_false_iff]
  intro htrue
  have hlt := hp d htrue
  have hle := toNat_of_sign hd
  omega

theorem Low.mark_not_mem {p : Char → Bool} (hp : Low p) (h : ∀ c ∈ s, p c = true) :
    Text.mark ∉ s := by
  intro hmem
  have htrue := h Text.mark hmem
  rw [hp.mark] at htrue
  cases htrue

theorem low_isBlank : Low isBlank := fun _ => toNat_lt_of_isBlank

theorem low_isAlphanum : Low Char.isAlphanum := by
  intro c hc
  have hranges := isAlphanum_iff.mp hc
  omega

theorem low_isDigit : Low isDigit := by
  intro c hc
  rw [isDigit, digitValue?] at hc
  split at hc
  · omega
  · rw [Option.isSome_map] at hc
    obtain ⟨z, hz⟩ := Option.isSome_iff_exists.mp hc
    have hall : ∀ z ∈ digitZeros, z < 0x20000 := by decide
    have hlt := hall z (List.mem_of_find?_eq_some hz)
    have hrange := List.find?_some hz
    simp only [Bool.and_eq_true, decide_eq_true_eq] at hrange
    omega

theorem Low.mono {p q : Char → Bool} (hq : Low q) (h : ∀ c, p c = true → q c = true) : Low p :=
  fun c hc => hq c (h c hc)

variable {p : Char → Bool}

theorem Aligned.dropWhile (hp : Low p) (h : Aligned s) : Aligned (s.dropWhile p) := by
  induction h with
  | nil => exact .nil
  | @char c s hc hs ih =>
    cases htrue : p c with
    | true => rwa [List.dropWhile_cons_of_pos htrue]
    | false =>
      rw [List.dropWhile_cons_of_neg (by rw [htrue]; exact Bool.false_ne_true)]
      exact .char hc hs
  | @sign d s hd hs ih =>
    rw [List.dropWhile_cons_of_neg (by rw [hp.mark]; exact Bool.false_ne_true)]
    exact .sign hd hs

theorem Aligned.takeWhile (hp : Low fun c => !p c) (h : Aligned s) :
    Aligned (s.takeWhile p) := by
  have hkeep {c : Char} (hc : (!p c) = false) : p c = true := by simpa using hc
  induction h with
  | nil => exact .nil
  | @char c s hc hs ih =>
    cases htrue : p c with
    | true =>
      rw [List.takeWhile_cons_of_pos htrue]
      exact .char hc ih
    | false =>
      rw [List.takeWhile_cons_of_neg (by rw [htrue]; exact Bool.false_ne_true)]
      exact .nil
  | @sign d s hd hs ih =>
    rw [List.takeWhile_cons_of_pos (hkeep hp.mark),
      List.takeWhile_cons_of_pos (hkeep (hp.sign hd))]
    exact .sign hd ih

/-- No sign ends in a character of a low class. -/
theorem Aligned.left_of_append (hp : Low p) (ht : ∀ c ∈ t, p c = true) (h : Aligned (s ++ t)) :
    Aligned s := by
  generalize hu : s ++ t = u at h
  induction h generalizing s with
  | nil =>
    rw [(List.append_eq_nil_iff.mp hu).1]
    exact .nil
  | @char c u hc hrest ih =>
    cases s with
    | nil => exact .nil
    | cons e s =>
      obtain ⟨rfl, hs⟩ := List.cons.inj hu
      exact .char hc (ih hs)
  | @sign d u hd hrest ih =>
    cases s with
    | nil => exact .nil
    | cons e s =>
      obtain ⟨rfl, hs⟩ := List.cons.inj hu
      cases s with
      | nil =>
        obtain rfl : t = d :: u := hs
        have htrue := ht d List.mem_cons_self
        rw [hp.sign hd] at htrue
        cases htrue
      | cons e s =>
        obtain ⟨rfl, htail⟩ := List.cons.inj hs
        exact .sign hd (ih htail)

theorem Aligned.strip (h : Aligned s) : Aligned (strip s) := by
  have hleft := h.dropWhile low_isBlank
  rw [Text.strip, Text.trim]
  generalize s.dropWhile isBlank = u at hleft ⊢
  refine Aligned.left_of_append (t := (u.reverse.takeWhile isBlank).reverse) low_isBlank ?_ ?_
  · intro c hc
    exact List.mem_takeWhile_imp (List.mem_reverse.mp hc)
  · rw [← List.reverse_append, List.takeWhile_append_dropWhile, List.reverse_reverse]
    exact hleft

/-- Leaving out characters of a low class keeps the signs. -/
theorem Aligned.filter (hp : Low p) (h : Aligned s) : Aligned (s.filter fun c => !p c) := by
  induction h with
  | nil => exact .nil
  | @char c s hc hs ih =>
    cases htrue : p c with
    | true => rwa [List.filter_cons_of_neg (by simp [htrue])]
    | false =>
      rw [List.filter_cons_of_pos (by simp [htrue])]
      exact .char hc ih
  | @sign d s hd hs ih =>
    rw [List.filter_cons_of_pos (by simp [hp.mark]), List.filter_cons_of_pos (by simp [hp.sign hd])]
    exact .sign hd ih

theorem Aligned.of_cons {c : Char} (hc : mark ≠ c) (h : Aligned (c :: s)) : Aligned s := by
  cases h with
  | char _ hs => exact hs
  | sign => exact absurd rfl hc

/-- What follows characters without a mark begins with a sign. -/
theorem Aligned.of_append (hs : mark ∉ s) (h : Aligned (s ++ t)) : Aligned t := by
  induction s with
  | nil => exact h
  | cons c s ih =>
    rw [List.mem_cons, not_or] at hs
    exact ih hs.2 (h.of_cons hs.1)

end DeskCalc.Text
