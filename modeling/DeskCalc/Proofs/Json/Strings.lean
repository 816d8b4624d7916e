import DeskCalc.Json.Reader
import DeskCalc.Json.Writer
import DeskCalc.Proofs.Number.Digits
import DeskCalc.Proofs.Text.Joined

/-!
# Strings in documents

A string is read back from its writing.  Each character or half is read back by itself, unless the
escape of a first half is followed by the escape of a second one, which gives one character.
-/

namespace DeskCalc.Json

open Number (digitChar digitsIn ofDigits)
open Text (isHalf isHighHalf isLowHalf ofCode ofCodes joinPairs joinedString)

/-! ## Numeric escapes -/

theorem hexValue?_digitChar {d : Nat} (hd : d < 16) : hexValue? (digitChar d) = some d := by
  interval_cases d <;> rfl

theorem hexText_eq (width n : Nat) : hexText width n =
    (List.replicate (width - (digitsIn 16 n).length) 0 ++ digitsIn 16 n).map digitChar := by
  rw [hexText, List.length_map, List.map_append, List.map_replicate]
  rfl

theorem readHex?_hexText {n : Nat} (hn : n < 0x10000) (rest : Text) :
    readHex? (hexText 4 n ++ rest) = some (n, rest) := by
  have hlength : (digitsIn 16 n).length ≤ 4 :=
    Number.length_digitsIn_le (by norm_num) (by norm_num) hn
  set digits := List.replicate (4 - (digitsIn 16 n).length) 0 ++ digitsIn 16 n with hdigits
  have hfour : digits.length = 4 := by
    rw [hdigits, List.length_append, List.length_replicate]
    omega
  have hvalue : ofDigits 16 digits = n := by
    rw [hdigits, Number.ofDigits_append, Number.ofDigits_replicate_zero,
      Number.ofDigits_digitsIn (by norm_num)]
    omega
  have hlt (d : Nat) (hd : d ∈ digits) : d < 16 := by
    rcases List.mem_append.mp hd with hd | hd
    · rw [List.eq_of_mem_replicate hd]
      norm_num
    · exact Number.lt_of_mem_digitsIn (by norm_num) hd
  rw [hexText_eq, ← hdigits]
  match digits, hfour with
  | [a, b, c, d], _ =>
    simp only [List.mem_cons, List.not_mem_nil, or_false, forall_eq_or_imp, forall_eq] at hlt
    obtain ⟨ha, hb, hc, hd⟩ := hlt
    have hsum : (a * 16 + b) * 256 + c * 16 + d = n := by
      rw [← hvalue]
      simp only [ofDigits, List.foldl_cons, List.foldl_nil]
      omega
    simp only [List.map_cons, List.map_nil, List.cons_append, List.nil_append, readHex?,
      hexValue?_digitChar ha, hexValue?_digitChar hb, hexValue?_digitChar hc,
      hexValue?_digitChar hd]
    rw [← hsum]
    rfl

/-! ## Written codes -/

variable {n : Nat} {tail : Text}

/-- The characters of a string that are written as themselves. -/
def isBare (c : Char) : Bool :=
  c ≠ '"' && c ≠ '\\' && 32 ≤ c.toNat

/-- A code is written with a backslash, by its number, or as itself. -/
theorem writeCode_cases (hn : n < 0x110000) :
    (∃ c, writeCode n = ['\\', c] ∧ escape? c = some c ∧ ofCode n = [c] ∧ isHalf n = false) ∨
    (writeCode n = '\\' :: 'u' :: hexText 4 n ∧ n < 0x10000) ∨
    (writeCode n = ofCode n ∧ isHalf n = false ∧ (ofCode n).all isBare = true) := by
  rw [writeCode]
  split
  next h =>
    rw [h]
    exact .inl ⟨'"', rfl, rfl, by decide, by decide⟩
  next hquote =>
    split
    next h =>
      rw [h]
      exact .inl ⟨'\\', rfl, rfl, by decide, by decide⟩
    next hslash =>
      split
      next h =>
        refine .inr (.inl ⟨rfl, ?_⟩)
        rw [Bool.or_eq_true, decide_eq_true_iff, Text.isHalf_iff] at h
        omega
      next h =>
        rw [Bool.or_eq_true, decide_eq_true_iff, not_or] at h
        refine .inr (.inr ⟨rfl, Bool.eq_false_iff.mpr h.2, ?_⟩)
        rw [List.all_eq_true]
        intro c hc
        have hbare (hlow : 32 ≤ c.toNat) (h34 : c.toNat ≠ '"'.toNat)
            (h92 : c.toNat ≠ '\\'.toNat) : isBare c = true := by
          have hquote : c ≠ '"' := fun heq => h34 (congrArg Char.toNat heq)
          have hslash : c ≠ '\\' := fun heq => h92 (congrArg Char.toNat heq)
          simp [isBare, hquote, hslash, hlow]
        have hfar (hlow : 0x10F000 ≤ c.toNat) : isBare c = true := by
          have h34 : '"'.toNat = 34 := rfl
          have h92 : '\\'.toNat = 92 := rfl
          apply hbare <;> omega
        rcases Text.ofCode_cases hn with ⟨d, hd, hnumber, -⟩ | ⟨d, hd, hle⟩
        · rw [hd, List.mem_singleton] at hc
          rw [hc] at hbare ⊢
          apply hbare <;> omega
        · rw [hd, List.mem_cons, List.mem_singleton] at hc
          rcases hc with rfl | rfl
          · exact hfar (by rw [Text.mark_toNat]; decide)
          · exact hfar hle

/-! ## Reading strings back -/

theorem readStringBody_bare {c : Char} (hc : isBare c = true) (fuel : Nat) (tail : Text) :
    readStringBody (fuel + 1) (c :: tail) =
      (readStringBody fuel tail).map fun (s, r) => (c :: s, r) := by
  simp only [isBare, Bool.and_eq_true, decide_eq_true_eq] at hc
  obtain ⟨⟨hquote, hslash⟩, hlow⟩ := hc
  rw [readStringBody.eq_def]
  simp only [if_neg hquote, if_neg hslash, if_neg (Nat.not_lt.mpr hlow)]

theorem readStringBody_escape {c d : Char} (hc : escape? c = some d) (fuel : Nat) (tail : Text) :
    readStringBody (fuel + 1) ('\\' :: c :: tail) =
      (readStringBody fuel tail).map fun (s, r) => (d :: s, r) := by
  have hu : c ≠ 'u' := by
    rintro rfl
    cases hc
  rw [readStringBody, if_neg (by decide), if_pos rfl, hc]
  exact hu

theorem readStringBody_number (hn : n < 0x10000) (hpair : pairUp n tail = (ofCode n, tail))
    (fuel : Nat) : readStringBody (fuel + 1) ('\\' :: 'u' :: (hexText 4 n ++ tail)) =
      (readStringBody fuel tail).map fun (s, r) => (ofCode n ++ s, r) := by
  rw [readStringBody, if_neg (by decide), if_pos rfl]
  simp only [readHex?_hexText hn, hpair]

/-- Whatever a written code is followed by, it is read back as that code, unless the two halves of
a pair meet. -/
theorem readStringBody_writeCode (hn : n < 0x110000) (hpair : pairUp n tail = (ofCode n, tail))
    {k : Nat} {s r : Text} (htail : ∀ fuel ≥ k, readStringBody fuel tail = .ok (s, r)) :
    ∀ fuel ≥ k + (writeCode n).length,
      readStringBody fuel (writeCode n ++ tail) = .ok (ofCode n ++ s, r) := by
  intro fuel hfuel
  have hstep {fuel : Nat} (h : k ≤ fuel) (u : Text) :
      (readStringBody fuel tail).map (fun (s, r) => (u ++ s, r)) = .ok (u ++ s, r) := by
    rw [htail fuel h]
    rfl
  rcases writeCode_cases hn with ⟨c, hwrite, hc, hcode, -⟩ | ⟨hwrite, hsmall⟩ | ⟨hwrite, -, hall⟩
  · rw [hwrite] at hfuel ⊢
    obtain ⟨f, rfl⟩ : ∃ f, fuel = f + 1 := ⟨fuel - 1, by simp at hfuel; omega⟩
    rw [hcode]
    exact (readStringBody_escape hc f tail).trans (hstep (by simp at hfuel; omega) [c])
  · rw [hwrite] at hfuel ⊢
    obtain ⟨f, rfl⟩ : ∃ f, fuel = f + 1 := ⟨fuel - 1, by simp at hfuel; omega⟩
    exact (readStringBody_number hsmall hpair f).trans
      (hstep (by simp at hfuel; omega) (ofCode n))
  · rw [hwrite] at hfuel ⊢
    rcases Text.ofCode_cases hn with ⟨c, hc, -⟩ | ⟨d, hd, -⟩
    · rw [hc] at hfuel hall ⊢
      obtain ⟨f, rfl⟩ : ∃ f, fuel = f + 1 := ⟨fuel - 1, by simp at hfuel; omega⟩
      simp only [List.all_cons, List.all_nil, Bool.and_true] at hall
      exact (readStringBody_bare hall f tail).trans (hstep (by simp at hfuel; omega) [c])
    · rw [hd] at hfuel hall ⊢
      obtain ⟨f, rfl⟩ : ∃ f, fuel = f + 2 := ⟨fuel - 2, by simp at hfuel; omega⟩
      simp only [List.all_cons, List.all_nil, Bool.and_true, Bool.and_eq_true] at hall
      have hsecond := (readStringBody_bare hall.2 f tail).trans
        (hstep (by simp at hfuel; omega) [d])
      refine (readStringBody_bare hall.1 (f + 1) (d :: tail)).trans ?_
      rw [hsecond]
      rfl

/-- What follows a first half is not read as the second one, unless it is. -/
theorem readLowHalf?_writeCode (hn : n < 0x110000) (hlow : isLowHalf n = false) (tail : Text) :
    readLowHalf? (writeCode n ++ tail) = none := by
  rcases writeCode_cases hn with ⟨c, hwrite, hc, -⟩ | ⟨hwrite, hsmall⟩ | ⟨hwrite, -, hall⟩
  · have hu : c ≠ 'u' := by
      rintro rfl
      cases hc
    rw [hwrite]
    simp [readLowHalf?, hu]
  · rw [hwrite, List.cons_append, List.cons_append, readLowHalf?, readHex?_hexText hsmall]
    simp [hlow]
  · rw [hwrite]
    obtain ⟨c, t, ht⟩ : ∃ c t, ofCode n = c :: t := by
      rcases Text.ofCode_cases hn with ⟨c, hc, -⟩ | ⟨d, hd, -⟩
      · exact ⟨c, [], hc⟩
      · exact ⟨_, _, hd⟩
    have hslash : c ≠ '\\' := by
      rintro rfl
      rw [ht] at hall
      simp [isBare] at hall
    rw [ht]
    simp [readLowHalf?, hslash]

theorem pairUp_of_readLowHalf? (h : readLowHalf? tail = none) :
    pairUp n tail = (ofCode n, tail) := by
  rw [pairUp, h]
  split
  next heq =>
    split at heq <;> cases heq
  · rfl

theorem pairUp_of_not_highHalf (h : isHighHalf n = false) :
    pairUp n tail = (ofCode n, tail) := by
  rw [pairUp, h]
  rfl

theorem writeCode_half (h : isHalf n = true) : writeCode n = '\\' :: 'u' :: hexText 4 n := by
  have hbounds := Text.isHalf_iff.mp h
  have hquote : n ≠ '"'.toNat := by
    have h34 : '"'.toNat = 34 := rfl
    omega
  have hslash : n ≠ '\\'.toNat := by
    have h92 : '\\'.toNat = 92 := rfl
    omega
  rw [writeCode, if_neg hquote, if_neg hslash, h, Bool.or_true, if_pos rfl]

theorem lt_of_isHalf (h : isHalf n = true) : n < 0x10000 := by
  rw [Text.isHalf_iff] at h
  omega

/-- The escapes of two halves that meet are read as one character. -/
theorem readStringBody_pair {m : Nat} (hm : isHighHalf m = true) (hn : isLowHalf n = true)
    (fuel : Nat) : readStringBody (fuel + 1) (writeCode m ++ (writeCode n ++ tail)) =
      (readStringBody fuel tail).map fun (s, r) => (ofCode (Text.ofHalves m n) ++ s, r) := by
  have hmhalf := Text.isHalf_of_isHighHalf hm
  have hnhalf := Text.isHalf_of_isLowHalf hn
  have hlow : readLowHalf? ('\\' :: 'u' :: (hexText 4 n ++ tail)) = some (n, tail) := by
    rw [readLowHalf?, readHex?_hexText (lt_of_isHalf hnhalf), Option.filter_some]
    exact if_pos hn
  have hpair : pairUp m ('\\' :: 'u' :: (hexText 4 n ++ tail)) =
      (ofCode (Text.ofHalves m n), tail) := by
    rw [pairUp, if_pos hm, hlow]
  rw [writeCode_half hmhalf, writeCode_half hnhalf]
  simp only [List.cons_append]
  rw [readStringBody, if_neg (by decide), if_pos rfl]
  simp only [readHex?_hexText (lt_of_isHalf hmhalf), hpair]

/-- A code that does not meet the other half of a pair is read back as itself. -/
theorem pairUp_codes {m : Nat} {ns : List Nat} (hm : m < 0x110000)
    (hmeet : ¬(isHighHalf n && isLowHalf m) = true) (rest : Text) :
    pairUp n ((m :: ns).flatMap writeCode ++ rest) =
      (ofCode n, (m :: ns).flatMap writeCode ++ rest) := by
  cases hhigh : isHighHalf n with
  | false => exact pairUp_of_not_highHalf hhigh
  | true =>
    apply pairUp_of_readLowHalf?
    rw [hhigh, Bool.true_and] at hmeet
    rw [List.flatMap_cons, List.append_assoc]
    exact readLowHalf?_writeCode hm (Bool.eq_false_iff.mpr hmeet) _

theorem readStringBody_codes {ns : List Nat} (hbound : ∀ n ∈ ns, n < 0x110000) (rest : Text) :
    ∀ fuel ≥ (ns.flatMap writeCode).length + 1,
      readStringBody fuel (ns.flatMap writeCode ++ '"' :: rest) =
        .ok (ofCodes (joinPairs ns), rest) := by
  induction ns using DeskCalc.Text.joinPairs.induct with
  | case1 m n ns hpair ih =>
    intro fuel hfuel
    rw [joinPairs, if_pos hpair]
    rw [Bool.and_eq_true] at hpair
    obtain ⟨-, hbound⟩ := List.forall_mem_cons.mp hbound
    obtain ⟨-, hbound⟩ := List.forall_mem_cons.mp hbound
    have hlength : 1 ≤ (writeCode m).length := by
      rw [writeCode_half (Text.isHalf_of_isHighHalf hpair.1)]
      exact Nat.succ_pos _
    simp only [List.flatMap_cons, List.length_append] at hfuel
    obtain ⟨f, rfl⟩ : ∃ f, fuel = f + 1 := ⟨fuel - 1, by omega⟩
    rw [List.flatMap_cons, List.flatMap_cons, List.append_assoc, List.append_assoc,
      readStringBody_pair hpair.1 hpair.2, ih hbound f (by omega)]
    rfl
  | case2 m n ns hpair ih =>
    intro fuel hfuel
    rw [joinPairs, if_neg hpair]
    obtain ⟨hm, hbound⟩ := List.forall_mem_cons.mp hbound
    have htail := ih hbound
    rw [List.flatMap_cons, List.length_append] at hfuel
    rw [List.flatMap_cons, List.append_assoc]
    exact readStringBody_writeCode hm
      (pairUp_codes (List.forall_mem_cons.mp hbound).1 hpair _) htail fuel (by omega)
  | case3 n =>
    intro fuel hfuel
    have hend : ∀ fuel ≥ 1, readStringBody fuel ('"' :: rest) = .ok ([], rest) := by
      intro fuel hfuel
      obtain ⟨f, rfl⟩ : ∃ f, fuel = f + 1 := ⟨fuel - 1, by omega⟩
      rfl
    rw [List.flatMap_cons, List.length_append] at hfuel
    rw [List.flatMap_cons, List.append_assoc]
    exact readStringBody_writeCode (hbound n List.mem_cons_self)
      (pairUp_of_readLowHalf? rfl) hend fuel (by omega)
  | case4 =>
    intro fuel hfuel
    obtain ⟨f, rfl⟩ : ∃ f, fuel = f + 1 := ⟨fuel - 1, by simp at hfuel; omega⟩
    rfl

/-- A string is read back, with the halves joined that meet in it. -/
theorem readString_writeString (s : String) (rest : Text) :
    ∃ body, writeString s = '"' :: body ∧
      readString (body ++ rest) = .ok (joinedString s, rest) := by
  refine ⟨(Text.codes s.toList).flatMap writeCode ++ ['"'], rfl, ?_⟩
  rw [List.append_assoc, List.singleton_append, readString,
    readStringBody_codes (Text.codes_lt _) rest _ (by simp)]
  rfl

end DeskCalc.Json
