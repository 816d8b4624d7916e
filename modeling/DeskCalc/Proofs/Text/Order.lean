import DeskCalc.Proofs.Text.Storable
import Mathlib.Data.List.Lex
import Mathlib.Data.List.Perm.Basic

/-!
# The order of texts

Texts are sorted by the numbers of their characters and halves: at the first place where two of them
differ, the smaller number comes first.  Texts that documents can hold are told apart by their
numbers, so that sorted texts without duplicates ascend.  In such a row, whether a text is among the
first ones can be told from the number of texts behind it, without sorting.
-/

namespace DeskCalc.Text

variable {s t : Text}

theorem sortsBefore_iff : sortsBefore s t = true ↔ codes s ≤ codes t := by
  rw [sortsBefore, Bool.not_eq_true', Bool.eq_false_iff, Ne, List.lex_eq_true_iff_lt, not_lt]

theorem Storable.eq_of_codes (hs : Storable s) (ht : Storable t) (h : codes s = codes t) :
    s = t := by
  obtain ⟨ms, hms, -, rfl⟩ := hs
  obtain ⟨ns, hns, -, rfl⟩ := ht
  rw [codes_ofCodes hms, codes_ofCodes hns] at h
  rw [h]

/-! ## Sorted rows of names -/

/-- The names of a row, sorted by the numbers of their characters and halves. -/
def sorted (names : List String) : List String :=
  names.mergeSort fun a b => sortsBefore a.toList b.toList

/-- Whether a name comes before another one when they are sorted. -/
def Precedes (a b : String) : Prop :=
  codes a.toList < codes b.toList

instance (a b : String) : Decidable (Precedes a b) :=
  inferInstanceAs (Decidable (codes a.toList < codes b.toList))

theorem Precedes.asymm {a b : String} (h : Precedes a b) : ¬Precedes b a :=
  lt_asymm h

/-- How many of a row of names come behind a name when they are sorted. -/
def countBehind (name : String) (names : List String) : Nat :=
  names.countP fun other => Precedes name other

theorem countBehind_lt {name : String} {names : List String} (h : name ∈ names) :
    countBehind name names < names.length := by
  apply lt_of_le_of_ne List.countP_le_length
  intro hcount
  have hall := List.countP_eq_length.mp hcount
  have hself : Precedes name name := of_decide_eq_true (hall name h)
  exact hself.asymm hself

theorem sorted_perm (names : List String) : (sorted names).Perm names :=
  List.mergeSort_perm _ _

/-- Names that are all different ascend when they are sorted. -/
theorem pairwise_sorted {names : List String} (hdistinct : names.Nodup)
    (hstorable : ∀ name ∈ names, Storable name.toList) : (sorted names).Pairwise Precedes := by
  have hordered : (sorted names).Pairwise
      fun a b => sortsBefore a.toList b.toList = true := by
    apply List.pairwise_mergeSort
    · intro a b c hab hbc
      rw [sortsBefore_iff] at hab hbc ⊢
      exact hab.trans hbc
    · intro a b
      rw [Bool.or_eq_true, sortsBefore_iff, sortsBefore_iff]
      exact le_total _ _
  have hdifferent : (sorted names).Nodup := (sorted_perm names).nodup_iff.mpr hdistinct
  refine (hordered.and hdifferent).imp_of_mem ?_
  intro a b ha hb hab
  by_contra hnot
  have heq : codes a.toList = codes b.toList :=
    le_antisymm (sortsBefore_iff.mp hab.1) (not_lt.mp hnot)
  apply hab.2
  apply String.toList_inj.mp
  have hstored {name : String} (h : name ∈ sorted names) : Storable name.toList :=
    hstorable name ((sorted_perm names).mem_iff.mp h)
  exact (hstored ha).eq_of_codes (hstored hb) heq

/-- In a row that ascends, the elements before the last `n` are those behind which at least `n`
stand. -/
theorem mem_take_iff {α : Type} {R : α → α → Prop} [DecidableRel R]
    (hasymm : ∀ {a b}, R a b → ¬R b a) {xs : List α} (h : xs.Pairwise R) {x : α} (hx : x ∈ xs)
    (n : Nat) : x ∈ xs.take (xs.length - n) ↔ n ≤ xs.countP fun y => R x y := by
  have hsplit := List.take_append_drop (xs.length - n) xs
  have hcount : xs.countP (fun y => R x y) =
      (xs.take (xs.length - n)).countP (fun y => R x y) +
        (xs.drop (xs.length - n)).countP fun y => R x y := by
    rw [← List.countP_append, hsplit]
  have hacross : ∀ a ∈ xs.take (xs.length - n), ∀ b ∈ xs.drop (xs.length - n), R a b := by
    rw [← hsplit, List.pairwise_append] at h
    exact h.2.2
  have hlength : (xs.drop (xs.length - n)).length = min n xs.length := by
    rw [List.length_drop]
    omega
  constructor
  · intro hmem
    have hall : (xs.drop (xs.length - n)).countP (fun y => R x y) = min n xs.length := by
      rw [← hlength, List.countP_eq_length]
      intro b hb
      exact decide_eq_true (hacross x hmem b hb)
    have hpos : 0 < xs.length - n := by
      by_contra hzero
      rw [Nat.eq_zero_of_not_pos hzero, List.take_zero] at hmem
      cases hmem
    omega
  · intro hle
    by_contra hnot
    have hdrop : x ∈ xs.drop (xs.length - n) := by
      rw [← hsplit, List.mem_append] at hx
      exact hx.resolve_left hnot
    have hnone : (xs.take (xs.length - n)).countP (fun y => R x y) = 0 := by
      rw [List.countP_eq_zero]
      intro a ha
      rw [decide_eq_true_iff]
      exact hasymm (hacross a ha x hdrop)
    have hfewer : (xs.drop (xs.length - n)).countP (fun y => R x y) <
        (xs.drop (xs.length - n)).length := by
      apply lt_of_le_of_ne List.countP_le_length
      rw [Ne, List.countP_eq_length]
      intro hall
      have hself : R x x := of_decide_eq_true (hall x hdrop)
      exact hasymm hself hself
    omega

/-- Among sorted names, the ones before the last `n` are those behind which at least `n` come. -/
theorem mem_take_sorted {names : List String} (hdistinct : names.Nodup)
    (hstorable : ∀ name ∈ names, Storable name.toList) {name : String} (hname : name ∈ names)
    (n : Nat) :
    name ∈ (sorted names).take ((sorted names).length - n) ↔ n ≤ countBehind name names := by
  have hperm := sorted_perm names
  rw [countBehind, ← hperm.countP_eq]
  exact mem_take_iff Precedes.asymm (pairwise_sorted hdistinct hstorable)
    (hperm.mem_iff.mpr hname) n

end DeskCalc.Text
