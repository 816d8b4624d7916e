import DeskCalc.Proofs.Session.Mirror
import DeskCalc.Proofs.Shell.Opening
import DeskCalc.Shell.Dialogue

/-!
# The session in use during a dialogue

No line that is typed takes the session out of use: what goes to the session is saved, and what the
shell does itself changes no row.  Whatever was typed before, closing the shell therefore leaves the
row of the session as it is reached, or else drops it.
-/

namespace DeskCalc.Shell

open Session (Safe restoreRow)

/-! ## What is typed -/

/-- The lines that are carried out, which are those before the first one that leaves. -/
def carriedOut : List Typed → List String
  | .line line :: rest => if Command.ofLine line = .leave then [] else line :: carriedOut rest
  | .interrupt :: _ => []
  | [] => []

/-- The lines of a command among those that are carried out. -/
def linesOf (command : Command) (typed : List Typed) : List String :=
  (carriedOut typed).filter fun line => Command.ofLine line = command

/-- What the session is given to do. -/
def submitted (typed : List Typed) : List Action :=
  (linesOf .calculate typed).map .submit

/-- Whether the session is to be kept in the end, because it was so from the beginning or because a
line says so. -/
def keeps (keep : Bool) (typed : List Typed) : Bool :=
  keep || !(linesOf .keep typed).isEmpty

section Typed

variable {line : String} {typed : List Typed}

theorem carriedOut_cons (h : Command.ofLine line ≠ .leave) :
    carriedOut (.line line :: typed) = line :: carriedOut typed :=
  if_neg h

theorem carriedOut_leave (h : Command.ofLine line = .leave) :
    carriedOut (.line line :: typed) = [] :=
  if_pos h

theorem submitted_cons (h : Command.ofLine line ≠ .leave) :
    submitted (.line line :: typed) =
      (if Command.ofLine line = .calculate then [.submit line] else []) ++ submitted typed := by
  rw [submitted, linesOf, carriedOut_cons h, List.filter_cons]
  by_cases hline : Command.ofLine line = .calculate
  · simp [hline, submitted, linesOf]
  · simp [hline, submitted, linesOf]

theorem keeps_cons (keep : Bool) (h : Command.ofLine line ≠ .leave) :
    keeps keep (.line line :: typed) =
      keeps (keep || decide (Command.ofLine line = .keep)) typed := by
  rw [keeps, linesOf, carriedOut_cons h, List.filter_cons]
  by_cases hline : Command.ofLine line = .keep
  · simp [hline, keeps]
  · simp [hline, keeps, linesOf]

end Typed

/-! ## Turns -/

variable {limits : Limits} {P : Place → Prop} {d : Desk} {name now : String} {sh : Shell}

/-- What holds of a place can be remarked on in the workspace, and still holds then. -/
def Notable (now : String) (P : Place → Prop) : Prop :=
  ∀ p, P p → ∃ w, p.workspace.remember p.id (some keptRemark) now = .ok w ∧
    P { p with workspace := w }

theorem notable_remembered (members : List (String × Json)) (name now : String) :
    Notable now (Remembered members name) := by
  rintro p ⟨hid, hp⟩
  obtain ⟨v, hremember, hv⟩ := hp.remember (some keptRemark) now
  exact ⟨v, hid ▸ hremember, hid, hv⟩

/-- A session in use may be replaced by another one that is saved. -/
theorem InUse.save (h : InUse limits P d name sh)
    (hlength : limits.history < 10 ^ Number.digitLimit) {s : Session} (hsafe : Safe limits s)
    (hs : s.Writable) :
    InUse limits P d name (Shell.save { sh with session := s }) ∧
      (Shell.save { sh with session := s }).session = s ∧
      (Shell.save { sh with session := s }).keep = sh.keep := by
  obtain ⟨p, hplace, rfl, hp⟩ := h.place
  have hsave : Shell.save { sh with session := s } =
      { sh with
        session := s
        desk := { sh.desk with store := sh.desk.store.put p.name s.snapshot.render } } := by
    simp only [Shell.save, hplace, Store.save_eq h.canWrite]
  have hrow := Session.restoreRow_snapshot hsafe hs (hsafe.history.trans_lt hlength)
  rw [hsave]
  refine ⟨?_, rfl, rfl⟩
  constructor
  · exact hsafe
  · exact hs
  · exact ⟨p, hplace, rfl, hp⟩
  · exact ⟨_, (Store.text?_put _ _ _ _).trans (if_pos rfl), hrow⟩
  · exact (Store.rows_drop_put _ _ _).trans h.others
  · exact h.canWrite

/-- What there is to print for an entry. -/
def entryLine : Option Entry → String
  | none => "Cleared."
  | some e => e.output

/-- A line that goes to the session is evaluated, and what comes of it is printed. -/
theorem InUse.calculate (h : InUse limits P d name sh)
    (hlength : limits.history < 10 ^ Number.digitLimit) (line : String) :
    InUse limits P d name (sh.calculate line).1 ∧
      (sh.calculate line).1.session = sh.session.after [.submit line] ∧
      (sh.calculate line).1.keep = sh.keep ∧
      ∃ e, sh.session.shown [.submit line] = [.entry (.ok e)] ∧
        (sh.calculate line).2 = [entryLine e] := by
  obtain ⟨hsafe, e, he⟩ := h.safe.submit line
  have hwritable : (sh.session.submit line).1.Writable :=
    (h.writable.mirrors.submit line).2.toWritable
  obtain ⟨huse, hsession, hkeep⟩ := h.save hlength hsafe hwritable
  have hcalculate : sh.calculate line =
      (Shell.save { sh with session := (sh.session.submit line).1 }, [entryLine e]) := by
    simp only [Shell.calculate, he]
    cases e with
    | none => rfl
    | some entry => rfl
  have hshown : sh.session.shown [.submit line] = [.entry (.ok e)] := by
    simp only [Session.shown, Session.act, he]
  rw [hcalculate]
  exact ⟨huse, hsession, hkeep, e, hshown, rfl⟩

/-- The workspace may be given a remark about the session in use. -/
theorem InUse.note (h : InUse limits P d name sh) (hP : Notable now P) {p : Place}
    (hp : sh.place = some p) : ∃ w, P { p with workspace := w } ∧
      sh.note p now = { sh with desk := sh.desk.write w, place := some { p with workspace := w } } := by
  obtain ⟨q, hplace, -, hq⟩ := h.place
  rw [hplace] at hp
  cases hp
  obtain ⟨v, hremember, hv⟩ := hP _ hq
  refine ⟨v, hv, ?_⟩
  rw [Shell.note, hremember]

theorem InUse.decideToKeep (h : InUse limits P d name sh) (hP : Notable now P) :
    InUse limits P d name (sh.decideToKeep now).1 ∧
      (sh.decideToKeep now).1.session = sh.session ∧ (sh.decideToKeep now).1.keep = true := by
  obtain ⟨p, hplace, hname, hp⟩ := h.place
  have hkept : InUse limits P d name { sh with keep := true } := { h with }
  obtain ⟨v, hv, hnote⟩ := hkept.note hP hplace
  have hdecide : (sh.decideToKeep now).1 = ({ sh with keep := true } : Shell).note p now := by
    simp only [Shell.decideToKeep, hplace]
  rw [hdecide, hnote]
  refine ⟨?_, rfl, rfl⟩
  exact { h with place := ⟨_, rfl, hname, hv⟩ }

/-- A line that does not leave keeps the session in use, does to it what the session is given to do,
and prints what comes of that. -/
theorem InUse.carryOut (h : InUse limits P d name sh) (hP : Notable now P)
    (hlength : limits.history < 10 ^ Number.digitLimit) (line : String) {command : Command}
    (hcommand : command ≠ .leave) :
    InUse limits P d name (sh.carryOut now line command).1 ∧
      (sh.carryOut now line command).1.session =
        sh.session.after (if command = .calculate then [.submit line] else []) ∧
      (sh.carryOut now line command).1.keep = (sh.keep || decide (command = .keep)) ∧
      ∃ entries : List (Option Entry),
        sh.session.shown (if command = .calculate then [.submit line] else []) =
          entries.map (fun e => .entry (.ok e)) ∧
        (entries.map entryLine).Sublist (sh.carryOut now line command).2 := by
  have hsame : sh.keep = (sh.keep || false) := (Bool.or_false _).symm
  have hsilent (said : List String) : ∃ entries : List (Option Entry),
      sh.session.shown [] = entries.map (fun e => .entry (.ok e)) ∧
        (entries.map entryLine).Sublist said := ⟨[], rfl, List.nil_sublist said⟩
  cases command with
  | leave => exact absurd rfl hcommand
  | keep =>
    obtain ⟨huse, hsession, hkeep⟩ := h.decideToKeep hP
    exact ⟨huse, hsession, hkeep.trans (Bool.or_true _).symm, hsilent _⟩
  | calculate =>
    obtain ⟨huse, hsession, hkeep, e, hshown, hsaid⟩ := h.calculate hlength line
    have hprinted : ([e].map entryLine).Sublist (sh.calculate line).2 := by
      rw [hsaid]
      exact List.Sublist.refl _
    exact ⟨huse, hsession, hkeep.trans hsame, [e], hshown, hprinted⟩
  | skip => exact ⟨h, rfl, hsame, hsilent _⟩
  | showVariables => exact ⟨h, rfl, hsame, hsilent _⟩
  | history => exact ⟨h, rfl, hsame, hsilent _⟩
  | help => exact ⟨h, rfl, hsame, hsilent _⟩

theorem respond_line {line : String} (hline : Command.ofLine line ≠ .leave) (now : String) :
    sh.respond now (some (.line line)) =
      ⟨(sh.carryOut now line (Command.ofLine line)).2,
        .inl (sh.carryOut now line (Command.ofLine line)).1⟩ := by
  rw [respond]
  cases hcommand : Command.ofLine line with
  | leave => exact absurd hcommand hline
  | _ => rfl

/-! ## Whole dialogues -/

/-- The shell at the end of a dialogue, before it is closed: its session has done what it was given
to do, and what came of that has been printed. -/
structure Reached (limits : Limits) (P : Place → Prop) (d : Desk) (name : String) (sh : Shell)
    (typed : List Typed) (said : List String) (last : Shell) : Prop where
  inUse : InUse limits P d name last
  session : last.session = sh.session.after (submitted typed)
  keep : last.keep = keeps sh.keep typed
  printed : ∃ entries : List (Option Entry),
    sh.session.shown (submitted typed) = entries.map (fun e => .entry (.ok e)) ∧
      (entries.map entryLine).Sublist said

theorem InUse.reached (h : InUse limits P d name sh) {typed : List Typed}
    (htyped : carriedOut typed = []) (said : List String) :
    Reached limits P d name sh typed said sh := by
  have hsubmitted : submitted typed = [] := by
    rw [submitted, linesOf, htyped]
    rfl
  constructor
  · exact h
  · rw [hsubmitted]
    rfl
  · rw [keeps, linesOf, htyped]
    exact (Bool.or_false _).symm
  · rw [hsubmitted]
    exact ⟨[], rfl, List.nil_sublist said⟩

/-- A dialogue about a session in use closes the shell with this session, as it has been reached. -/
theorem InUse.converse (h : InUse limits P d name sh) (hP : Notable now P)
    (hlength : limits.history < 10 ^ Number.digitLimit) (typed : List Typed) :
    ∃ last, Reached limits P d name sh typed (sh.converse now typed).2 last ∧
      (sh.converse now typed).1 = (last.close now).1 := by
  induction typed generalizing sh with
  | nil => exact ⟨sh, h.reached rfl _, rfl⟩
  | cons t rest ih =>
    cases t with
    | interrupt => exact ⟨sh, h.reached rfl _, rfl⟩
    | line line =>
      by_cases hline : Command.ofLine line = .leave
      · refine ⟨sh, h.reached (carriedOut_leave hline) _, ?_⟩
        simp only [Shell.converse, respond, hline]
        rfl
      · obtain ⟨huse, hsession, hkeep, entries, hshown, hsaid⟩ := h.carryOut hP hlength line hline
        obtain ⟨last, hlast, hclose⟩ := ih huse
        obtain ⟨more, hmore, hrest⟩ := hlast.printed
        have hconverse : sh.converse now (.line line :: rest) =
            (((sh.carryOut now line (Command.ofLine line)).1.converse now rest).1,
              (sh.carryOut now line (Command.ofLine line)).2 ++
                ((sh.carryOut now line (Command.ofLine line)).1.converse now rest).2) := by
          simp only [Shell.converse, respond_line hline]
        rw [hconverse]
        refine ⟨last, ⟨hlast.inUse, ?_, ?_, entries ++ more, ?_, ?_⟩, hclose⟩
        · rw [hlast.session, hsession, submitted_cons hline, Session.after_append]
        · rw [hlast.keep, hkeep, keeps_cons sh.keep hline]
        · rw [submitted_cons hline, Session.shown_append, hshown, ← hsession, hmore, List.map_append]
        · rw [List.map_append]
          exact hsaid.append hrest

/-! ## The end -/

/-- Closing the shell leaves the row of a session that is kept. -/
theorem InUse.close_of_keep (h : InUse limits P d name sh) (hP : Notable now P)
    (hkeep : sh.keep = true) :
    ∃ p, P p ∧ (sh.close now).1 = sh.desk.write p.workspace := by
  obtain ⟨p, hplace, -, -⟩ := h.place
  obtain ⟨v, hv, hnote⟩ := h.note hP hplace
  refine ⟨_, hv, ?_⟩
  simp only [Shell.close, hplace, hkeep, if_true, hnote]

/-- Closing the shell drops the row of a session that is not kept. -/
theorem InUse.close_of_not_keep (h : InUse limits P d name sh) (hkeep : sh.keep = false) :
    ∃ p, P p ∧ (sh.close now).1 =
      ({ sh.desk with store := sh.desk.store.drop name } : Desk).write (p.workspace.forget p.id) := by
  obtain ⟨p, hplace, rfl, hp⟩ := h.place
  obtain ⟨text, htext, -⟩ := h.row
  refine ⟨p, hp, ?_⟩
  simp only [Shell.close, hplace, hkeep, Bool.false_eq_true, if_false,
    Store.delete_of_some h.canWrite htext]

variable {members : List (String × Json)}

/-- The desk at which a session has been kept. -/
structure Kept (limits : Limits) (members : List (String × Json)) (d : Desk) (name : String)
    (s : Session) (left : Desk) : Prop where
  row : ∃ text, left.store.text? name = some text ∧ restoreRow limits text = .ok (some s.joined)
  others : (left.store.drop name).rows = (d.store.drop name).rows
  file : ∃ w, left.file = some w.toJson.render ∧ Remembers members name w

/-- The desk from which a session has been dropped. -/
structure Dropped (members : List (String × Json)) (d : Desk) (name : String) (left : Desk) :
    Prop where
  rows : left.store.rows = (d.store.drop name).rows
  file : ∃ w, left.file = some (w.forget (.str name)).toJson.render ∧ Remembers members name w

/-- What a dialogue leaves behind, given the session in use and the lines that are carried out. -/
def Ends (limits : Limits) (members : List (String × Json)) (d : Desk) (name : String)
    (sh : Shell) (typed : List Typed) (left : Desk) : Prop :=
  if keeps sh.keep typed = true then
    Kept limits members d name (sh.session.after (submitted typed)) left
  else Dropped members d name left

/-- A dialogue about a session that is remembered ends with the session kept or dropped. -/
theorem InUse.ends (h : InUse limits (Remembered members name) d name sh)
    (hlength : limits.history < 10 ^ Number.digitLimit) (now : String) (typed : List Typed) :
    Ends limits members d name sh typed (sh.converse now typed).1 := by
  have hnotable := notable_remembered members name now
  obtain ⟨last, hlast, hclose⟩ := h.converse hnotable hlength typed
  rw [Ends, hclose, ← hlast.keep, ← hlast.session]
  by_cases hkeep : last.keep = true
  · obtain ⟨p, hp, hdesk⟩ := hlast.inUse.close_of_keep hnotable hkeep
    rw [if_pos hkeep, hdesk]
    exact ⟨hlast.inUse.row, hlast.inUse.others, p.workspace, rfl, hp.2⟩
  · obtain ⟨p, hp, hdesk⟩ := hlast.inUse.close_of_not_keep (Bool.eq_false_iff.mpr hkeep)
    rw [if_neg hkeep, hdesk, hp.1]
    exact ⟨hlast.inUse.others, p.workspace, rfl, hp.2⟩

end DeskCalc.Shell
