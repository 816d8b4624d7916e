import DeskCalc.Session.Snapshot
import DeskCalc.Session.Submit

/-!
# Runs of a session

A user submits lines and steps through the history.  A run is a sequence of such actions; it leads
from a session to another one and shows something for each action on its way.
-/

namespace DeskCalc

/-- What a user does with a session. -/
inductive Action where
  | submit (line : String)
  /-- goes back to the line before -/
  | older
  /-- goes on to the next line -/
  | newer
deriving Repr, DecidableEq

/-- What a session shows for an action. -/
inductive Shown where
  /-- the new entry of the log, if there is one, or the fault that broke the line off -/
  | entry (e : Except Fault (Option Entry))
  /-- a line of the history -/
  | recalled (line : String)

/-- Whether nothing broke off. -/
def Shown.isWhole : Shown → Prop
  | .entry e => ∃ new, e = .ok new
  | .recalled _ => True

namespace Session

/-- The session after an action, and what it shows. -/
def act (s : Session) : Action → Session × Shown
  | .submit line => ((s.submit line).1, .entry (s.submit line).2)
  | .older => ((s.navigate (-1)).1, .recalled (s.navigate (-1)).2)
  | .newer => ((s.navigate 1).1, .recalled (s.navigate 1).2)

/-- The session after a row of actions. -/
def after (s : Session) : List Action → Session
  | [] => s
  | a :: actions => (s.act a).1.after actions

/-- All that a session shows during a row of actions. -/
def shown (s : Session) : List Action → List Shown
  | [] => []
  | a :: actions => (s.act a).2 :: (s.act a).1.shown actions

/-- A session at the beginning of a run is fresh or restored from a document. -/
inductive Starts (limits : Limits) : Session → Prop
  | fresh : Starts limits (fresh limits)
  | restored {j : Json} {s : Session} (h : restore limits j = .ok s) : Starts limits s

variable {s : Session}

theorem after_append (actions later : List Action) :
    s.after (actions ++ later) = (s.after actions).after later := by
  induction actions generalizing s with
  | nil => rfl
  | cons a actions ih => exact ih

theorem shown_append (actions later : List Action) :
    s.shown (actions ++ later) = s.shown actions ++ (s.after actions).shown later := by
  induction actions generalizing s with
  | nil => rfl
  | cons a actions ih => exact congrArg (_ :: ·) ih

/-- What every action of a row keeps holds after the row. -/
theorem after_induction {P : Session → Prop} {actions : List Action}
    (hstep : ∀ s, ∀ a ∈ actions, P s → P (s.act a).1) (hs : P s) : P (s.after actions) := by
  induction actions generalizing s with
  | nil => exact hs
  | cons a actions ih =>
    have hrest := fun t b hb => hstep t b (List.mem_cons_of_mem a hb)
    exact ih hrest (hstep s a List.mem_cons_self hs)

/-- What every action shows in sessions with a property that the actions of a row keep. -/
theorem shown_induction {P : Session → Prop} {Q : Shown → Prop} {actions : List Action}
    (hstep : ∀ s, ∀ a ∈ actions, P s → P (s.act a).1 ∧ Q (s.act a).2) (hs : P s) :
    ∀ r ∈ s.shown actions, Q r := by
  induction actions generalizing s with
  | nil => exact nofun
  | cons a actions ih =>
    obtain ⟨hnext, hshown⟩ := hstep s a List.mem_cons_self hs
    have hrest := fun t b hb => hstep t b (List.mem_cons_of_mem a hb)
    intro r hr
    rcases List.mem_cons.mp hr with rfl | hr
    · exact hshown
    · exact ih hrest hnext r hr

end Session
end DeskCalc
