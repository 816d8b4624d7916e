import DeskCalc.Proofs.Text.Storable

/-!
# Halves that meet

Where a first half of a pair stands right before a second one, a document writes two escapes, and
whoever reads it takes them for one character.  `joined` is the text that is read.  It is storable,
and a storable text is left as it is.
-/

namespace DeskCalc.Text

/-- The numbers of a text in which the halves of a pair that follow each other are one
character. -/
def joinPairs : List Nat → List Nat
  | m :: n :: rest =>
    if isHighHalf m && isLowHalf n then ofHalves m n :: joinPairs rest
    else m :: joinPairs (n :: rest)
  | [n] => [n]
  | [] => []

/-- The text in which the halves of a pair that follow each other are one character. -/
def joined (s : Text) : Text :=
  ofCodes (joinPairs (codes s))

/-- The string in which the halves of a pair that follow each other are one character. -/
def joinedString (s : String) : String :=
  String.ofList (joined s.toList)

/-! ## Numbers -/

theorem isHighHalf_iff {n : Nat} : isHighHalf n = true ↔ 0xD800 ≤ n ∧ n < 0xDC00 := by
  simp [isHighHalf]

theorem isLowHalf_iff {n : Nat} : isLowHalf n = true ↔ 0xDC00 ≤ n ∧ n < 0xE000 := by
  simp [isLowHalf]

theorem isHalf_of_isHighHalf {n : Nat} (h : isHighHalf n = true) : isHalf n = true := by
  rw [isHighHalf_iff] at h
  rw [isHalf_iff]
  omega

theorem isHalf_of_isLowHalf {n : Nat} (h : isLowHalf n = true) : isHalf n = true := by
  rw [isLowHalf_iff] at h
  rw [isHalf_iff]
  omega

theorem ofHalves_lt {m n : Nat} (hm : isHighHalf m = true) (hn : isLowHalf n = true) :
    ofHalves m n < 0x110000 := by
  rw [isHighHalf_iff] at hm
  rw [isLowHalf_iff] at hn
  unfold ofHalves
  omega

theorem isLowHalf_ofHalves (m n : Nat) : isLowHalf (ofHalves m n) = false := by
  rw [Bool.eq_false_iff, Ne, isLowHalf_iff]
  unfold ofHalves
  omega

theorem codes_lt (s : Text) : ∀ n ∈ codes s, n < 0x110000 := by
  have hshift (d : Char) : d.toNat - halfShift < 0x110000 :=
    (Nat.sub_le _ _).trans_lt (toNat_lt d)
  have hmark : markCode < 0x110000 := by decide
  induction s using codes.induct with
  | case1 d rest ih =>
    rw [codes, if_pos rfl]
    refine List.forall_mem_cons.mpr ⟨?_, ih⟩
    split
    · exact hmark
    · exact hshift d
  | case2 c d rest hc ih =>
    rw [codes, if_neg hc]
    exact List.forall_mem_cons.mpr ⟨toNat_lt c, ih⟩
  | case3 c => exact List.forall_mem_singleton.mpr (toNat_lt c)
  | case4 => exact List.forall_mem_nil _

theorem joinPairs_lt {ns : List Nat} (h : ∀ n ∈ ns, n < 0x110000) :
    ∀ n ∈ joinPairs ns, n < 0x110000 := by
  induction ns using joinPairs.induct with
  | case1 m n rest hpair ih =>
    rw [joinPairs, if_pos hpair]
    rw [Bool.and_eq_true] at hpair
    obtain ⟨-, hrest⟩ := List.forall_mem_cons.mp (List.forall_mem_cons.mp h).2
    exact List.forall_mem_cons.mpr ⟨ofHalves_lt hpair.1 hpair.2, ih hrest⟩
  | case2 m n rest hpair ih =>
    rw [joinPairs, if_neg hpair]
    obtain ⟨hm, hrest⟩ := List.forall_mem_cons.mp h
    exact List.forall_mem_cons.mpr ⟨hm, ih hrest⟩
  | case3 n => exact h
  | case4 => exact h

theorem joinPairs_eq_self {ns : List Nat} (h : Unsplit ns) : joinPairs ns = ns := by
  induction ns using joinPairs.induct with
  | case1 m n rest hpair ih =>
    rw [Bool.and_eq_true] at hpair
    rw [Unsplit, List.isChain_cons_cons] at h
    exact absurd hpair h.1
  | case2 m n rest hpair ih =>
    rw [joinPairs, if_neg hpair]
    rw [Unsplit, List.isChain_cons_cons] at h
    rw [ih h.2]
  | case3 n => rfl
  | case4 => rfl

/-- What is left after joining begins with a second half only if a second half stood there. -/
theorem isLowHalf_of_mem_head? {n k : Nat} {rest : List Nat}
    (hk : k ∈ (joinPairs (n :: rest)).head?) (hlow : isLowHalf k = true) : isLowHalf n = true := by
  cases rest with
  | nil =>
    cases hk
    exact hlow
  | cons m rest =>
    rw [joinPairs] at hk
    split at hk
    · rw [List.head?_cons, Option.mem_some_iff] at hk
      rw [← hk, isLowHalf_ofHalves] at hlow
      cases hlow
    · cases hk
      exact hlow

theorem unsplit_joinPairs (ns : List Nat) : Unsplit (joinPairs ns) := by
  induction ns using joinPairs.induct with
  | case1 m n rest hpair ih =>
    rw [joinPairs, if_pos hpair, Unsplit, List.isChain_cons]
    refine ⟨fun k _ hmeet => ?_, ih⟩
    have hhigh := isHighHalf_iff.mp hmeet.1
    unfold ofHalves at hhigh
    omega
  | case2 m n rest hpair ih =>
    rw [joinPairs, if_neg hpair, Unsplit, List.isChain_cons]
    refine ⟨fun k hk hmeet => hpair ?_, ih⟩
    rw [Bool.and_eq_true]
    exact ⟨hmeet.1, isLowHalf_of_mem_head? hk hmeet.2⟩
  | case3 n => exact List.isChain_singleton n
  | case4 => exact List.isChain_nil

/-! ## Texts -/

variable {s : Text}

theorem storable_joined (s : Text) : Storable (joined s) :=
  ⟨_, joinPairs_lt (codes_lt s), unsplit_joinPairs _, rfl⟩

theorem Storable.joined_eq (h : Storable s) : joined s = s := by
  obtain ⟨ns, hbound, hunsplit, rfl⟩ := h
  rw [joined, codes_ofCodes hbound, joinPairs_eq_self hunsplit]

theorem joinedString_joinedString (s : String) :
    joinedString (joinedString s) = joinedString s := by
  rw [joinedString, joinedString, String.toList_ofList, (storable_joined _).joined_eq]

theorem Storable.joinedString_eq {s : String} (h : Storable s.toList) : joinedString s = s := by
  rw [joinedString, h.joined_eq, String.ofList_toList]

end DeskCalc.Text
