import DeskCalc.Proofs.Json.Members
import DeskCalc.Proofs.Number.Digits
import DeskCalc.Store

/-!
# Rows of the store

Whatever is done with a row leaves all the other rows.  As long as the names of all rows have been
given out, the next name is free.
-/

namespace DeskCalc.Store

open Number (natText)

variable {s t : Store} {name : String}

/-! ## Single rows -/

theorem text?_put (s : Store) (name text n : String) :
    (s.put name text).text? n = if n = name then some text else s.text? n := by
  rw [text?, put, setRow, Json.lookup_cons_eq_ite]
  by_cases h : n = name
  · rw [if_pos h, if_pos h]
  · rw [if_neg h, if_neg h]
    exact Json.lookup_filter fun _ => decide_eq_true h

theorem canRead_of_canWrite (h : s.canWrite = true) : s.canRead = true := by
  rw [canWrite, Bool.and_eq_true] at h
  exact h.1

theorem save_eq (h : s.canWrite = true) (name : String) (j : Json) :
    s.save name j = (s.put name j.render, true) :=
  if_pos h

/-- The store without a row. -/
def drop (s : Store) (name : String) : Store :=
  { s with rows := s.rows.filter (·.1 ≠ name) }

theorem text?_drop (s : Store) (name n : String) :
    (s.drop name).text? n = if n = name then none else s.text? n := by
  rw [text?, drop]
  by_cases h : n = name
  · rw [if_pos h]
    exact Json.lookup_filter_eq_none fun _ => decide_eq_false (not_not_intro h)
  · rw [if_neg h]
    exact Json.lookup_filter fun _ => decide_eq_true h

/-- A row that is kept and dropped again leaves no trace among the others. -/
theorem rows_drop_put (s : Store) (name text : String) :
    ((s.put name text).drop name).rows = (s.drop name).rows := by
  simp [put, setRow, drop, List.filter_filter]

theorem rows_drop_of_none (htext : s.text? name = none) : (s.drop name).rows = s.rows := by
  rw [drop, List.filter_eq_self]
  intro row hrow
  have hne : name ≠ row.1 := bne_iff_ne.mp (List.lookup_eq_none_iff.mp htext row hrow)
  exact decide_eq_true hne.symm

theorem delete_of_some {text : String} (h : s.canWrite = true) (htext : s.text? name = some text) :
    s.delete name = (s.drop name, true) := by
  rw [delete, h, htext]
  rfl

theorem delete_of_none (htext : s.text? name = none) : s.delete name = (s, false) := by
  rw [delete, htext, Option.isSome_none, Bool.and_false]
  rfl

theorem load_of_none (htext : s.text? name = none) : s.load name = .ok none := by
  rw [load, htext, ite_self]

/-- A row is loaded as the object that its text gives. -/
theorem load_of_some {text : String} {members : List (String × Json)} (h : s.canWrite = true)
    (htext : s.text? name = some text)
    (hread : Json.parseOr (.object []) text = .ok (.object members)) :
    s.load name = .ok (some (.object members)) := by
  rw [load, if_pos (canRead_of_canWrite h), htext]
  simp only [readRow, hread]
  rfl

/-! ## Names -/

/-- The names of all rows have been given out. -/
def NamesIssued (s : Store) : Prop :=
  ∀ name, (s.text? name).isSome = true → ∃ n ≤ s.issued, name = sessionName n

theorem sessionName_injective {m n : Nat} (h : sessionName m = sessionName n) : m = n := by
  have htext := congrArg String.toList h
  simp only [sessionName, String.toList_append, String.toList_ofList] at htext
  have hvalue := congrArg Text.digitsValue (List.append_cancel_left htext)
  rwa [Number.digitsValue_natText, Number.digitsValue_natText] at hvalue

/-- The next name is free. -/
theorem NamesIssued.text?_next (h : s.NamesIssued) :
    s.text? (sessionName (s.issued + 1)) = none := by
  rw [← Option.not_isSome_iff_eq_none]
  intro hrow
  obtain ⟨n, hn, heq⟩ := h _ hrow
  have hsame := sessionName_injective heq
  omega

/-- The store after the next name has been given out. -/
def issue (s : Store) : Store :=
  { s with issued := s.issued + 1 }

theorem create_of_free (h : s.canWrite = true)
    (hfree : s.text? (sessionName (s.issued + 1)) = none) {j : Json} (hj : j.isEmpty = false) :
    s.create j = (s.issue.put (sessionName (s.issued + 1)) j.render,
      some (sessionName (s.issued + 1))) := by
  have hwrite : s.issue.canWrite = true := h
  have hnone : s.issue.text? (sessionName (s.issued + 1)) = none := hfree
  simp only [create]
  rw [issue] at hwrite hnone
  rw [hwrite, hnone, hj]
  rfl

theorem create_eq (h : s.canWrite = true) (hnames : s.NamesIssued) {j : Json}
    (hj : j.isEmpty = false) :
    s.create j = (s.issue.put (sessionName (s.issued + 1)) j.render,
      some (sessionName (s.issued + 1))) :=
  create_of_free h hnames.text?_next hj

/-! ## Operations on any store -/

theorem save_cases (s : Store) (name : String) (j : Json) :
    s.save name j = (s, false) ∨ s.save name j = (s.put name j.render, true) := by
  rw [save]
  split
  · exact .inr rfl
  · exact .inl rfl

theorem delete_cases (s : Store) (name : String) :
    s.delete name = (s, false) ∨ s.delete name = (s.drop name, true) := by
  rw [delete]
  split
  · exact .inr rfl
  · exact .inl rfl

/-- A document is created under a free name, or the name is given out in vain. -/
theorem create_cases (s : Store) (j : Json) :
    s.create j = (s.issue, none) ∨
      s.text? (sessionName (s.issued + 1)) = none ∧
        ∃ text, s.create j =
          (s.issue.put (sessionName (s.issued + 1)) text, some (sessionName (s.issued + 1))) := by
  simp only [create]
  split
  next hfree =>
    rw [Bool.and_eq_true, Option.isNone_iff_eq_none] at hfree
    exact .inr ⟨hfree.2, _, rfl⟩
  · exact .inl rfl

/-! ## Changes -/

/-- What may become of a store when something is done with the row of a name. -/
inductive Changes (name : String) (s : Store) : Store → Prop
  | left : Changes name s s
  | kept {old : String} (hrow : s.text? name = some old) (text : String) :
    Changes name s (s.put name text)
  | dropped : Changes name s (s.drop name)
  | created (hname : name = sessionName (s.issued + 1)) (text : String) :
    Changes name s (s.issue.put name text)

theorem Changes.canWrite (h : Changes name s t) : t.canWrite = s.canWrite := by
  cases h <;> rfl

theorem Changes.text?_of_ne (h : Changes name s t) {n : String} (hn : n ≠ name) :
    t.text? n = s.text? n := by
  cases h with
  | left => rfl
  | kept => rw [text?_put, if_neg hn]
  | dropped => rw [text?_drop, if_neg hn]
  | created =>
    rw [text?_put, if_neg hn]
    rfl

theorem Changes.issued_le (h : Changes name s t) : s.issued ≤ t.issued := by
  cases h with
  | created => exact Nat.le_succ _
  | _ => exact le_rfl

theorem Changes.namesIssued (h : Changes name s t) (hnames : s.NamesIssued) : t.NamesIssued := by
  intro n hrow
  by_cases hn : n = name
  · cases h with
    | left => exact hnames n hrow
    | kept hold =>
      refine hnames n ?_
      rw [hn, hold]
      rfl
    | dropped =>
      rw [text?_drop, if_pos hn] at hrow
      cases hrow
    | created hname => exact ⟨s.issued + 1, le_rfl, hn.trans hname⟩
  · rw [h.text?_of_ne hn] at hrow
    obtain ⟨k, hk, heq⟩ := hnames n hrow
    exact ⟨k, hk.trans h.issued_le, heq⟩

end DeskCalc.Store
