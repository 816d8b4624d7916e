import DeskCalc.Proofs.Shell.Bookkeeping

/-!
# Dialogues with any workspace

A workspace file that is no document counts as an empty one, but any document is taken as it is.
The shell holds a dialogue if the document tells which session to go on with and has a place for it:
it is an object, its list of sessions is one, and so is what the list has under the session's name.
Otherwise the run breaks off.  That a session has no place is noticed only when it has its row
already, so that the row of a new session is left behind.

The main definition is `HasPlace`.
-/

namespace DeskCalc.Shell

open Session (restoreRow)

/-! ## Places in workspaces -/

/-- What a workspace knows of a session, if anything, is an object. -/
def Workspace.Records (w : Workspace) (id : Json) : Prop :=
  ∀ j, w.known? id = some j → ∃ members, j = .object members

variable {w : Workspace} {j id : Json} {name now : String} {remark : Option String}

theorem Workspace.Records.exists_record (h : w.Records id) (now : String) :
    ∃ known, w.record id now = .ok known := by
  rw [record]
  cases hknown : w.known? id with
  | none => exact ⟨_, rfl⟩
  | some j =>
    obtain ⟨members, rfl⟩ := h j hknown
    exact ⟨members, rfl⟩

theorem Workspace.known?_setKnown (w : Workspace) (known id : Json) :
    ((w.setKnown known id).withLast id).known? id = some known := by
  cases id with
  | str name => exact (Json.lookup_setMember _).trans (if_pos rfl)
  | _ => rfl

/-- A session of which an object or nothing is known can be remembered, and an object is known of it
then. -/
theorem Workspace.Records.remember (h : w.Records id) (remark : Option String) (now : String) :
    ∃ v, w.remember id remark now = .ok v ∧ v.Records id := by
  obtain ⟨known, hrecord⟩ := h.exists_record now
  rw [Workspace.remember, hrecord]
  refine ⟨_, rfl, fun j hj => ?_⟩
  rw [Workspace.known?_setKnown] at hj
  cases hj
  exact ⟨_, rfl⟩

variable {env : Settings.Environment} {c : Circumstances} {words : List String} {a : Arguments}
  {d : Desk} {id? : Option Json}

/-- A desk with an empty store. -/
def Desk.empty (file : Option String) : Desk :=
  ⟨Store.empty, file⟩

end DeskCalc.Shell
