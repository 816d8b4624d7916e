import DeskCalc.Proofs.Json.Members
import DeskCalc.Proofs.Number.Nearest
import DeskCalc.Proofs.Number.Texts
import DeskCalc.Proofs.Text.Alphabet
import DeskCalc.Proofs.Text.Shapes
import DeskCalc.Proofs.Text.Storable
import DeskCalc.Query.Resolve

/-!
# Answers and their numbers

Every answer to a query can be searched for the number that it begins with.  An answer is the text
of a number, perhaps with a unit behind it, or a numeral of another base; and the number of such a
numeral is the integer part of a double, so there is a double for it.
-/

namespace DeskCalc

/-! ## What attempts find -/

namespace Attempt

variable {α β : Type} {P : α → Prop}

/-- Whatever the attempt finds has the property `P`. -/
def Gives (P : α → Prop) (x : Attempt α) : Prop :=
  ∀ a, x = found a → P a

theorem gives_found {a : α} (h : P a) : Gives P (found a) := by
  intro b hb
  cases hb
  exact h

theorem gives_nothing : Gives P nothing := by
  intro a ha
  cases ha

theorem gives_broken (e : Fault) : Gives P (broken e) := by
  intro a ha
  cases ha

theorem gives_bind {x : Attempt β} {f : β → Attempt α} (h : ∀ b, Gives P (f b)) :
    Gives P (x >>= f) := by
  cases x with
  | found b => exact h b
  | nothing => exact gives_nothing
  | broken e => exact gives_broken e

theorem gives_orElse {x y : Attempt α} (hx : Gives P x) (hy : Gives P y) : Gives P (x <|> y) := by
  cases x with
  | found a => exact hx
  | nothing => exact hy
  | broken e => exact gives_broken e

theorem bind_eq_found {x : Attempt β} {f : β → Attempt α} {a : α} :
    (x >>= f) = found a ↔ ∃ b, x = found b ∧ f b = found a := by
  cases x with
  | found b => simp
  | nothing => simp
  | broken e => simp

theorem orElse_eq_found {x y : Attempt α} {a : α} :
    (x <|> y) = found a ↔ x = found a ∨ x = nothing ∧ y = found a := by
  cases x with
  | found b => simp [HOrElse.hOrElse, OrElse.orElse, orElse]
  | nothing => simp [HOrElse.hOrElse, OrElse.orElse, orElse]
  | broken e => simp [HOrElse.hOrElse, OrElse.orElse, orElse]

theorem ofOption_eq_found {o : Option α} {a : α} : ofOption o = found a ↔ o = some a := by
  cases o with
  | none => simp [ofOption]
  | some b => simp [ofOption]

theorem ofOption_ne_broken {o : Option α} {e : Fault} : ofOption o ≠ broken e := by
  cases o <;> exact nofun

theorem ofOption_some_bind {a : α} {f : α → Attempt β} : (ofOption (some a) >>= f) = f a :=
  rfl

theorem gives_ofOption {o : Option α} (h : ∀ a, o = some a → P a) : Gives P (ofOption o) := by
  cases o with
  | none => exact gives_nothing
  | some a => exact gives_found (h a rfl)

end Attempt

namespace Query

open Attempt (Gives)
open Number (IsNumberText)

/-! ## Answers that can be searched -/

/-- The search for the number of an answer does not break off. -/
def Searchable (answer : Text) : Prop :=
  ∀ f, Number.answerValue answer ≠ .broken f

theorem strip_cons {c : Char} {s : Text} (hc : Text.isBlank c = false) :
    ∃ t, Text.strip (c :: s) = c :: t ∧ t <+: s := by
  have hleft : (c :: s).dropWhile Text.isBlank = c :: s := by simp [hc]
  have hstart : Text.strip (c :: s) <+: c :: s := by
    rw [Text.strip, Text.trim, hleft, ← List.reverse_suffix, List.reverse_reverse]
    exact List.dropWhile_suffix _
  have hne : Text.strip (c :: s) ≠ [] := by
    rw [Text.strip, Text.trim, hleft, Ne, List.reverse_eq_nil_iff, List.dropWhile_eq_nil_iff]
    intro h
    have := h c (by simp)
    simp [hc] at this
  obtain ⟨d, t, ht⟩ := List.exists_cons_of_ne_nil hne
  rw [ht] at hstart
  obtain ⟨rfl, htail⟩ := List.cons_prefix_cons.mp hstart
  exact ⟨t, ht, htail⟩

@[simp] theorem strip_strip (s : Text) : Text.strip (Text.strip s) = Text.strip s := by
  have hagain (t : Text) : (t.dropWhile Text.isBlank).dropWhile Text.isBlank =
      t.dropWhile Text.isBlank :=
    Text.dropWhile_of_stops (Text.stopsBefore_dropWhile Text.isBlank t)
  have hleft : (Text.strip s).dropWhile Text.isBlank = Text.strip s := by
    have hsame : Text.strip s = Text.strip (s.dropWhile Text.isBlank) := by
      rw [Text.strip, Text.strip, Text.trim, Text.trim, hagain]
    have hstop := Text.stopsBefore_dropWhile Text.isBlank s
    rw [hsame]
    cases hrest : s.dropWhile Text.isBlank with
    | nil => rfl
    | cons c rest =>
      rw [hrest] at hstop
      have hc := Text.stopsBefore_cons.mp hstop
      obtain ⟨t, ht, -⟩ := strip_cons (s := rest) hc
      simp [ht, hc]
  have hright : (Text.strip s).reverse.dropWhile Text.isBlank = (Text.strip s).reverse := by
    rw [Text.strip, Text.trim, List.reverse_reverse, hagain]
  rw [Text.strip, Text.trim, hleft, hright, List.reverse_reverse]

theorem of_isTextChar {p : Char → Bool}
    (hall : "0123456789-+.eNaInfity".toList.all p = true) {c : Char}
    (h : Number.isTextChar c = true) : p c = true := by
  apply List.all_eq_true.mp hall
  simp only [Number.isTextChar, Bool.or_eq_true, List.contains_iff_mem] at h
  rcases h with hdigit | hmem
  · obtain ⟨hlow, hhigh⟩ := Text.basicDigit_iff.mp hdigit
    rw [← Char.ofNat_toNat c]
    interval_cases c.toNat <;> decide
  · exact List.mem_append_right "0123456789".toList hmem

theorem isBlank_of_isTextChar {c : Char} (h : Number.isTextChar c = true) :
    Text.isBlank c = false := by
  have hnot := of_isTextChar (p := fun c => !Text.isBlank c) (by decide) h
  simpa using hnot

theorem ofMark?_of_isTextChar {c : Char} (h : Number.isTextChar c = true) :
    Number.Radix.ofMark? c = none :=
  Option.isNone_iff_eq_none.mp
    (of_isTextChar (p := fun c => (Number.Radix.ofMark? c).isNone) (by decide) h)

/-- The text of a number with nothing or a unit behind it is no numeral of another base. -/
theorem answerValue_of_numberText {s u : Text} (hs : IsNumberText s)
    (hu : u = [] ∨ ∃ t, u = ' ' :: t) : Number.answerValue (s ++ u) =
      Attempt.ofOption (Number.leadingNumber? (Text.strip (s ++ u))) := by
  obtain ⟨c, t, rfl, -⟩ := hs.head
  obtain ⟨v, hstrip, hv⟩ := @strip_cons c (t ++ u) (isBlank_of_isTextChar (hs.chars c (by simp)))
  have hmark : ∀ d w, v = d :: w → Number.Radix.ofMark? d = none := by
    rintro d w rfl
    cases t with
    | nil =>
      rw [List.nil_append] at hv
      rcases hu with rfl | ⟨t, rfl⟩
      · exact absurd (List.prefix_nil.mp hv) (List.cons_ne_nil _ _)
      · rw [(List.cons_prefix_cons.mp hv).1]
        decide
    | cons e t =>
      rw [List.cons_append] at hv
      rw [(List.cons_prefix_cons.mp hv).1]
      exact ofMark?_of_isTextChar (hs.chars e (by simp))
  have hnone : Number.marked? (c :: v) = none := by
    unfold Number.marked?
    split
    next mark rest heq =>
      have hd := hmark mark rest (List.cons.inj heq).2
      simp [hd]
    · rfl
  rw [Number.answerValue, List.cons_append, hstrip]
  simp only [hnone]

theorem searchable_of_numberText {s u : Text} (hs : IsNumberText s)
    (hu : u = [] ∨ ∃ t, u = ' ' :: t) : Searchable (s ++ u) := by
  intro f
  rw [answerValue_of_numberText hs hu]
  exact Attempt.ofOption_ne_broken

theorem searchable_numberText {s : Text} (hs : IsNumberText s) : Searchable s := by
  have hsearch := searchable_of_numberText hs (.inl rfl)
  rwa [List.append_nil] at hsearch

theorem searchable_withUnit {s : Text} (hs : IsNumberText s) (unit : Text) :
    Searchable (Measure.withUnit s unit) :=
  searchable_of_numberText hs (.inr ⟨unit, rfl⟩)

/-! ## Numerals of other bases -/

section Radix

open Number (Radix digitOf? digitChar digitsIn signed wholePart)

theorem strip_eq_self {s : Text} (h : ∀ c ∈ s, Text.isBlank c = false) : Text.strip s = s := by
  have hkeep {s : Text} (h : ∀ c ∈ s, Text.isBlank c = false) : s.dropWhile Text.isBlank = s := by
    cases s with
    | nil => rfl
    | cons c s => simp [h c List.mem_cons_self]
  rw [Text.strip, Text.trim, hkeep h, hkeep (fun c hc => h c (List.mem_reverse.mp hc)),
    List.reverse_reverse]

/-- Digits behind a mark and perhaps a sign are a numeral of the base of the mark. -/
theorem marked?_signed {r : Radix} (hr : r ≠ .decimal) (negative : Bool) {digits : Text}
    (hhead : ∃ c t, digits = c :: t ∧ c ≠ '-') :
    Number.marked? ('0' :: r.mark :: signed negative digits) =
      if digits.all (fun c => (digitOf? c).isSome) then some (r, negative, digits) else none := by
  obtain ⟨c, t, rfl, hc⟩ := hhead
  have hmark : Radix.ofMark? r.mark = some r := by
    cases r
    · rfl
    · rfl
    · exact absurd rfl hr
    · rfl
  cases negative with
  | true => simp [Number.marked?, hmark, signed]
  | false => simp [Number.marked?, hmark, signed, hc]

/-- The characters of digits as a base writes them. -/
def writtenDigit (r : Radix) (c : Char) : Char :=
  if r = .hex then c.toUpper else c

theorem digitOf?_writtenDigit (r : Radix) {d : Nat} (hd : d < 16) :
    digitOf? (writtenDigit r (digitChar d)) = some d := by
  rw [writtenDigit]
  split
  · exact Number.digitOf?_toUpper hd
  · exact Number.digitOf?_digitChar hd

theorem base_bounds (r : Radix) : 2 ≤ r.base ∧ r.base ≤ 16 := by
  cases r <;> decide

theorem mapM_digitOf? (r : Radix) {digits : List Nat} (h : ∀ d ∈ digits, d < 16) :
    ((digits.map digitChar).map (writtenDigit r)).mapM digitOf? = some digits := by
  induction digits with
  | nil => rfl
  | cons d ds ih =>
    have hd := digitOf?_writtenDigit r (h d List.mem_cons_self)
    have hds := ih fun e he => h e (List.mem_cons_of_mem d he)
    rw [List.map_cons, List.map_cons, List.mapM_cons, hd, hds]
    rfl

/-- The digits that a base writes for a natural number are read as that number. -/
theorem readDigits?_digitsIn (r : Radix) (n : Nat) :
    Number.readDigits? r.base (r.dropMark
      (((digitsIn r.base n).map digitChar).map (writtenDigit r))) = some n := by
  obtain ⟨hlow, hhigh⟩ := base_bounds r
  have hlt {d : Nat} (hd : d ∈ digitsIn r.base n) : d < r.base :=
    Number.lt_of_mem_digitsIn hlow hd
  obtain ⟨d, ds, hdigits, hzero⟩ := Number.digitsIn_head hlow n
  -- Digits that begin with a zero are nothing but that zero.
  have hdrop : r.dropMark (((digitsIn r.base n).map digitChar).map (writtenDigit r)) =
      ((digitsIn r.base n).map digitChar).map (writtenDigit r) := by
    unfold Radix.dropMark
    split
    next mark rest heq =>
      rw [hdigits] at heq
      have hd : writtenDigit r (digitChar d) = '0' := (List.cons.inj heq).1
      have hread := digitOf?_writtenDigit r ((hlt (hdigits ▸ List.mem_cons_self)).trans_le hhigh)
      rw [hd] at hread
      have hd0 : d = 0 := (Option.some.inj hread).symm
      rw [(hzero hd0).2] at heq
      simp at heq
    · rfl
  have hmap : (((digitsIn r.base n).map digitChar).map (writtenDigit r)).mapM digitOf? =
      some (digitsIn r.base n) :=
    mapM_digitOf? r fun d hd => (hlt hd).trans_le hhigh
  have hall : (digitsIn r.base n).all (· < r.base) = true := by
    rw [List.all_eq_true]
    exact fun d hd => decide_eq_true (hlt hd)
  rw [hdrop, Number.readDigits?, hmap, hdigits]
  simp only
  rw [← hdigits, if_pos hall, Number.ofDigits_digitsIn hlow]

theorem isBlank_writtenDigit (r : Radix) {d : Nat} (hd : d < 16) :
    Text.isBlank (writtenDigit r (digitChar d)) = false := by
  cases r <;> interval_cases d <;> decide

theorem lt_of_mem_fractionDigits {base den : Nat} (hbase : 0 < base) (hden : 0 < den) :
    ∀ {fuel num : Nat}, num < den → ∀ d ∈ Number.fractionDigits base fuel num den, d < base := by
  intro fuel
  induction fuel with
  | zero =>
    intro num _ d hd
    simp [Number.fractionDigits] at hd
  | succ fuel ih =>
    intro num hnum d hd
    rw [Number.fractionDigits] at hd
    split at hd
    · simp at hd
    · rcases List.mem_cons.mp hd with rfl | hd
      · rw [Nat.div_lt_iff_lt_mul hden, Nat.mul_comm]
        exact Nat.mul_lt_mul_of_pos_left hnum hbase
      · exact ih (Nat.mod_lt _ hden) d hd

/-- The magnitude of a double in a base is its whole part, perhaps with a point and more digits
behind it. -/
theorem exists_radixMagnitude (r : Radix) (x : Float) :
    ∃ fraction : List Nat, (∀ d ∈ fraction, d < 16) ∧
      Number.radixMagnitude r.base x = (digitsIn r.base (wholePart x)).map digitChar ++
        if fraction = [] then [] else '.' :: fraction.map digitChar := by
  obtain ⟨hlow, hhigh⟩ := base_bounds r
  let b := Number.magnitude x
  have hden : 0 < b.den := Number.magnitude_den_pos x
  refine ⟨Number.fractionDigits r.base 1100 (b.num % b.den) b.den, ?_, ?_⟩
  · intro d hd
    have hbase := lt_of_mem_fractionDigits (by omega) hden (Nat.mod_lt _ hden) d hd
    exact hbase.trans_le hhigh
  · rw [Number.radixMagnitude, wholePart]
    split
    next h => simp [b, h]
    next hne =>
      rw [if_neg]
      exact hne

/-- What a base writes for a magnitude, letters in upper case if it does so. -/
theorem written_signed (r : Radix) (negative : Bool) (digits : Text) :
    (if r = .hex then (signed negative digits).map Char.toUpper else signed negative digits) =
      signed negative (digits.map (writtenDigit r)) := by
  have hsign : Char.toUpper '-' = '-' := by decide
  by_cases h : r = .hex
  · have hupper : writtenDigit r = Char.toUpper := by
      funext c
      exact if_pos h
    rw [if_pos h, hupper]
    cases negative <;> simp [signed, hsign]
  · have hkeep : writtenDigit r = id := by
      funext c
      exact if_neg h
    rw [if_neg h, hkeep, List.map_id]

theorem isBlank_mark (r : Radix) : Text.isBlank r.mark = false := by
  cases r <;> decide

theorem strip_marked (r : Radix) (negative : Bool) {digits : Text}
    (h : ∀ c ∈ digits, Text.isBlank c = false) :
    Text.strip ('0' :: r.mark :: signed negative digits) =
      '0' :: r.mark :: signed negative digits := by
  apply strip_eq_self
  have hzero : Text.isBlank '0' = false := by decide
  have hminus : Text.isBlank '-' = false := by decide
  cases negative with
  | true => simpa [signed, hzero, hminus, isBlank_mark] using h
  | false => simpa [signed, hzero, isBlank_mark] using h

theorem writtenDigit_ne_minus (r : Radix) {d : Nat} (hd : d < 16) :
    writtenDigit r (digitChar d) ≠ '-' := by
  intro hminus
  have hread := digitOf?_writtenDigit r hd
  rw [hminus] at hread
  cases hread

/-- The marked text of an integer within the doubles has that number. -/
theorem answerValue_wholeText {r : Radix} (hr : r ≠ .decimal) (negative : Bool) {n : Nat}
    (hn : n ≤ Number.largest) : Number.answerValue ('0' :: r.mark ::
      signed negative (((digitsIn r.base n).map digitChar).map (writtenDigit r))) =
        .found (Number.ofInt (if negative = true then -(n : Int) else n)) := by
  obtain ⟨hlow, hhigh⟩ := base_bounds r
  have hlt {d : Nat} (hd : d ∈ digitsIn r.base n) : d < 16 :=
    (Number.lt_of_mem_digitsIn hlow hd).trans_le hhigh
  obtain ⟨d, ds, hdigits, -⟩ := Number.digitsIn_head hlow n
  have hread := readDigits?_digitsIn r n
  have hmem {c : Char} (hc : c ∈ ((digitsIn r.base n).map digitChar).map (writtenDigit r)) :
      ∃ d < 16, c = writtenDigit r (digitChar d) := by
    simp only [List.map_map, List.mem_map, Function.comp] at hc
    obtain ⟨d, hd, rfl⟩ := hc
    exact ⟨d, hlt hd, rfl⟩
  have hhead : ∃ c t, ((digitsIn r.base n).map digitChar).map (writtenDigit r) = c :: t ∧
      c ≠ '-' := by
    rw [hdigits]
    exact ⟨_, _, rfl, writtenDigit_ne_minus r (hlt (hdigits ▸ List.mem_cons_self))⟩
  generalize ((digitsIn r.base n).map digitChar).map (writtenDigit r) = digits at *
  have hblank (c : Char) (hc : c ∈ digits) : Text.isBlank c = false := by
    obtain ⟨d, hd, rfl⟩ := hmem hc
    exact isBlank_writtenDigit r hd
  have hstrip := strip_marked r negative hblank
  have hall : digits.all (fun c => (digitOf? c).isSome) = true := by
    rw [List.all_eq_true]
    intro c hc
    obtain ⟨d, hd, rfl⟩ := hmem hc
    rw [digitOf?_writtenDigit r hd]
    rfl
  have hmarked := marked?_signed hr negative hhead
  rw [if_pos hall] at hmarked
  have hint : Number.ofInt? (if negative = true then -(n : Int) else n) =
      some (Number.ofInt (if negative = true then -(n : Int) else n)) := by
    apply Number.ofInt?_eq
    have hlimit := Number.largest_add_one_lt
    split <;> omega
  rw [Number.answerValue, hstrip]
  simp only [hmarked, hread]
  rw [Attempt.ofOption_some_bind, hint]
  rfl

/-- A marked text with a point is no integer of another base. -/
theorem answerValue_pointedText {r : Radix} (hr : r ≠ .decimal) (negative : Bool)
    {whole fraction : Text} (hwhole : ∃ c t, whole = c :: t ∧ c ≠ '-')
    (hblank : ∀ c ∈ whole ++ '.' :: fraction, Text.isBlank c = false) :
    Number.answerValue ('0' :: r.mark :: signed negative (whole ++ '.' :: fraction)) =
      Attempt.ofOption (Number.leadingNumber?
        ('0' :: r.mark :: signed negative (whole ++ '.' :: fraction))) := by
  obtain ⟨c, t, rfl, hc⟩ := hwhole
  have hstrip := strip_marked r negative hblank
  have hmarked := marked?_signed hr negative ⟨c, t ++ '.' :: fraction, rfl, hc⟩
  have hpoint : (c :: (t ++ '.' :: fraction)).all (fun c => (digitOf? c).isSome) = false := by
    rw [List.all_eq_false]
    exact ⟨'.', by simp, by decide⟩
  rw [if_neg (by rw [hpoint]; exact Bool.false_ne_true)] at hmarked
  rw [Number.answerValue, hstrip]
  simp only [List.cons_append, hmarked]

theorem searchable_radix (r : Radix) (x : Float) : Searchable (r.text x) := by
  rw [Radix.text]
  split
  · exact searchable_numberText (Number.isNumberText_numberText x)
  next h =>
    obtain ⟨hr, hx⟩ : r ≠ .decimal ∧ x.isFinite = true := by simpa using h
    obtain ⟨fraction, hfraction, hmagnitude⟩ := exists_radixMagnitude r x
    obtain ⟨hlow, hhigh⟩ := base_bounds r
    intro f
    simp only [written_signed, hmagnitude]
    split
    · rw [List.append_nil, answerValue_wholeText hr _ (Number.wholePart_le hx)]
      exact nofun
    · have hpoint : writtenDigit r '.' = '.' := by cases r <;> decide
      have hlt {d : Nat} (hd : d ∈ digitsIn r.base (wholePart x)) : d < 16 :=
        (Number.lt_of_mem_digitsIn hlow hd).trans_le hhigh
      obtain ⟨d, ds, hdigits, -⟩ := Number.digitsIn_head hlow (wholePart x)
      rw [List.map_append, List.map_cons, hpoint, answerValue_pointedText hr]
      · exact Attempt.ofOption_ne_broken
      · rw [hdigits]
        exact ⟨_, _, rfl, writtenDigit_ne_minus r (hlt (hdigits ▸ List.mem_cons_self))⟩
      · intro c hc
        simp only [List.map_map, List.mem_append, List.mem_cons, List.mem_map,
          Function.comp] at hc
        rcases hc with ⟨d, hd, rfl⟩ | rfl | ⟨d, hd, rfl⟩
        · exact isBlank_writtenDigit r (hlt hd)
        · decide
        · exact isBlank_writtenDigit r (hfraction d hd)

theorem mark_not_mem_marked (r : Radix) (negative : Bool) {digits : Text}
    (h : Text.mark ∉ digits) : Text.mark ∉ '0' :: r.mark :: signed negative digits := by
  have hzero : Text.mark ≠ '0' := by decide
  have hminus : Text.mark ≠ '-' := by decide
  have hmark : Text.mark ≠ r.mark := by cases r <;> decide
  cases negative with
  | true => simp [signed, hzero, hminus, hmark, h]
  | false => simp [signed, hzero, hmark, h]

theorem mark_not_mem_radix (r : Radix) (x : Float) : Text.mark ∉ r.text x := by
  have hdigit {d : Nat} (hd : d < 16) : Text.mark ≠ writtenDigit r (digitChar d) := by
    cases r <;> interval_cases d <;> decide
  have hpoint : Text.mark ≠ writtenDigit r '.' := by cases r <;> decide
  rw [Radix.text]
  split
  · exact (Number.isNumberText_numberText x).mark_not_mem
  · obtain ⟨fraction, hfraction, hmagnitude⟩ := exists_radixMagnitude r x
    obtain ⟨hlow, hhigh⟩ := base_bounds r
    have hwhole {d : Nat} (hd : d ∈ digitsIn r.base (wholePart x)) : d < 16 :=
      (Number.lt_of_mem_digitsIn hlow hd).trans_le hhigh
    simp only [written_signed, hmagnitude]
    apply mark_not_mem_marked
    intro hmem
    obtain ⟨c, hc, hmark⟩ := List.mem_map.mp hmem
    rcases List.mem_append.mp hc with hc | hc
    · obtain ⟨d, hd, rfl⟩ := List.mem_map.mp hc
      exact hdigit (hwhole hd) hmark.symm
    · split at hc
      · cases hc
      · rcases List.mem_cons.mp hc with rfl | hc
        · exact hpoint hmark.symm
        · obtain ⟨d, hd, rfl⟩ := List.mem_map.mp hc
          exact hdigit (hfraction d hd) hmark.symm

end Radix

/-! ## The forms of answers -/

open Text (mark)

/-- An answer is laid down, or it is the text of a number, perhaps with a unit behind it, or the
text of a number in some base. -/
inductive Answer : Text → Prop where
  | fixed {query answer : String} (h : (query, answer) ∈ fixedAnswers) : Answer answer.toList
  | number {s : Text} (hs : IsNumberText s) : Answer s
  | quantity {s unit : Text} (hs : IsNumberText s) (hunit : mark ∉ unit) :
    Answer (Measure.withUnit s unit)
  | numeral (r : Number.Radix) (x : Float) : Answer (r.text x)

theorem searchable_fixed {query answer : String} (h : (query, answer) ∈ fixedAnswers) :
    Searchable answer.toList := by
  have hall : ∀ a ∈ fixedAnswers, (Number.answerValue a.2.toList).toExcept.isOk = true := by
    decide
  intro f hf
  have hok := hall _ h
  rw [hf] at hok
  cases hok

theorem mark_not_mem_fixed {query answer : String} (h : (query, answer) ∈ fixedAnswers) :
    mark ∉ answer.toList := by
  have hall : ∀ a ∈ fixedAnswers, mark ∉ a.2.toList := by decide
  exact hall _ h

/-- Every answer can be searched for its number. -/
theorem Answer.searchable {answer : Text} (h : Answer answer) : Searchable answer := by
  cases h with
  | fixed h => exact searchable_fixed h
  | number hs => exact searchable_numberText hs
  | quantity hs _ => exact searchable_withUnit hs _
  | numeral r x => exact searchable_radix r x

/-- No answer holds a mark. -/
theorem Answer.mark_not_mem {answer : Text} (h : Answer answer) : mark ∉ answer := by
  cases h with
  | fixed h => exact mark_not_mem_fixed h
  | number hs => exact hs.mark_not_mem
  | quantity hs hunit =>
    have hblank : mark ≠ ' ' := by decide
    simp [Measure.withUnit, hs.mark_not_mem, hblank, hunit]
  | numeral r x => exact mark_not_mem_radix r x

/-! ## Names of units -/

theorem low_isMicroUnitChar : Text.Low Measure.isMicroUnitChar := by
  intro c hc
  simp only [Measure.isMicroUnitChar, Measure.isUnitChar, Text.isLetter, Bool.or_eq_true,
    beq_iff_eq] at hc
  rcases hc with (((hletter | rfl) | rfl) | rfl) | rfl
  · exact Text.low_isAlphanum c (by simp [Char.isAlphanum, hletter])
  · decide
  · decide
  · decide
  · decide

theorem mark_not_mem_knownName {name : String} (h : name ∈ Measure.allNames) :
    mark ∉ name.toList := by
  have hall : Measure.allNames.all (fun n => !n.toList.contains mark) = true := by
    decide +kernel
  have hname := List.all_eq_true.mp hall name h
  simpa using hname

theorem mem_allNames {d : Dimension} {e : String × Float} (h : e ∈ d.entries) :
    e.1 ∈ Measure.allNames := by
  have hd : d ∈ Dimension.all := by cases d <;> decide
  exact List.mem_append_left _ (List.mem_flatMap.mpr ⟨d, hd, List.mem_map_of_mem h⟩)

theorem mark_not_mem_entry {d : Dimension} {e : String × Float} (h : e ∈ d.entries) :
    mark ∉ e.1.toList :=
  mark_not_mem_knownName (mem_allNames h)

theorem mark_not_mem_find? {d : Dimension} {unit : Text} {e : String × Float}
    (h : d.find? unit = some e) : mark ∉ e.1.toList :=
  mark_not_mem_entry (List.mem_of_find?_eq_some h)

theorem mark_not_mem_found {unit : Text} {u : Measure.Found} (h : Measure.find? unit = some u) :
    mark ∉ u.name.toList := by
  obtain ⟨d, -, hd⟩ := List.exists_of_findSome?_eq_some h
  obtain ⟨e, he, rfl⟩ := Option.map_eq_some_iff.mp hd
  exact mark_not_mem_find? he

theorem mark_not_mem_base (d : Dimension) : mark ∉ d.base.toList := by
  cases d <;> decide

theorem mark_not_mem_unitToEnd {s unit rest : Text} (h : Measure.unitToEnd.Fits s unit rest) :
    mark ∉ unit := by
  obtain ⟨w, t, hrun, hend⟩ := Text.Shape.fits_bind.mp h
  obtain ⟨u, v, -, hpure⟩ := Text.Shape.fits_bind.mp hend
  obtain ⟨rfl, -⟩ := Text.Shape.fits_pure.mp hpure
  obtain ⟨-, rfl, -⟩ := Text.Shape.fits_run1.mp hrun
  exact low_isMicroUnitChar.mark_not_mem fun c hc => List.mem_takeWhile_imp hc

theorem mark_not_mem_mixedUnit {s whole unit : Text} {parts : Text × Text}
    (h : Measure.mixedFractionQuantity.read? s = some (whole, parts, unit)) : mark ∉ unit := by
  obtain ⟨rest, hfits⟩ := Text.Shape.fits_of_read? h
  simp only [Measure.mixedFractionQuantity, Text.Shape.fits_bind, Text.Shape.fits_pure] at hfits
  obtain ⟨_, _, -, _, _, -, _, _, -, _, _, -, u, t, hunit, heq, -⟩ := hfits
  cases heq
  exact mark_not_mem_unitToEnd hunit

/-! ## Conversions -/

theorem answer_convert? {x : Float} {source target answer : Text}
    (h : Measure.convert? x source target = some answer) : Answer answer := by
  obtain ⟨d, -, hd⟩ := List.exists_of_findSome?_eq_some h
  split at hd
  next name g _ htarget =>
    cases hd
    exact .quantity (Number.isNumberText_conversionText _) (mark_not_mem_find? htarget)
  · cases hd

theorem answer_convertDecimal? {quantity target answer : Text}
    (h : Measure.convertDecimal? quantity target = some answer) : Answer answer := by
  unfold Measure.convertDecimal? at h
  split at h
  · cases h
  · split at h
    next hfound =>
      cases h
      exact answer_convert? hfound
    · split at h
      · cases h
        exact .quantity (Number.isNumberText_numberText _) (by decide)
      · cases h

theorem gives_convertQuantity (quantity target : Text) :
    Gives Answer (Measure.convertQuantity quantity target) := by
  have hdecimal (quantity : Text) :
      Gives Answer (Attempt.ofOption (Measure.convertDecimal? quantity target)) :=
    Attempt.gives_ofOption fun _ h => answer_convertDecimal? h
  unfold Measure.convertQuantity
  split
  · exact Attempt.gives_bind fun _ => hdecimal _
  · split
    · exact Attempt.gives_bind fun _ => hdecimal _
    · exact hdecimal _

theorem answer_convertSpeed? {x : Float} {source target answer : Text}
    (h : Measure.convertSpeed? x source target = some answer) : Answer answer := by
  simp only [Measure.convertSpeed?] at h
  split at h
  next htarget =>
    cases h
    have hunit := mark_not_mem_entry (Json.mem_of_lookup htarget)
    rw [String.toList_ofList] at hunit
    exact .quantity (Number.isNumberText_fixed _ _) hunit
  · cases h

theorem answer_ofBase? {x : Float} {unit answer : Text}
    (h : Measure.ofBase? x unit = some answer) : Answer answer := by
  obtain ⟨u, hu, rfl⟩ := Option.map_eq_some_iff.mp h
  exact .quantity (Number.isNumberText_conversionText _) (mark_not_mem_found hu)

theorem answer_sumCompact? {s answer : Text} (h : Measure.sumCompact? s = some answer) :
    Answer answer := by
  simp only [Measure.sumCompact?, Option.bind_eq_bind, Option.bind_eq_some_iff] at h
  obtain ⟨_, -, _, -, _, -, h⟩ := h
  split at h
  · cases h
    exact .quantity (Number.isNumberText_fixed _ _) (mark_not_mem_base _)
  · cases h

theorem gives_sumPieces (pieces : List Measure.Piece) :
    Gives Answer (Measure.sumPieces pieces) := by
  unfold Measure.sumPieces
  split
  · refine Attempt.gives_bind fun _ => Attempt.gives_bind fun _ => Attempt.gives_bind fun _ => ?_
    split
    · exact Attempt.gives_found
        (.quantity (Number.isNumberText_fixed _ _) (mark_not_mem_base _))
    · exact Attempt.gives_broken _
  · exact Attempt.gives_nothing

theorem gives_mixedSum (s : Text) : Gives Answer (Measure.mixedSum s) := by
  unfold Measure.mixedSum
  split
  next hread =>
    exact Attempt.gives_bind fun _ => Attempt.gives_found
      (.quantity (Number.isNumberText_fixed _ _) (mark_not_mem_mixedUnit hread))
  · split
    next h => exact Attempt.gives_found (answer_sumCompact? h)
    · exact gives_sumPieces _

end Query
end DeskCalc
