import DeskCalc.Proofs.Session.Restoring
import DeskCalc.Proofs.Shell.Workspace
import DeskCalc.Proofs.Store.Rows
import DeskCalc.Shell.Opening

/-!
# What a dialogue begins with

At a desk in order the shell goes on with the session that it is asked for, or that the workspace
has as the last one, if the store has it; or else it begins a fresh session under the next name.  In
either case the session is in use from then on: its row, its record in the workspace and the session
itself fit together, and no other row has changed.  Only a name that has no bytes keeps the shell
from opening.
-/

namespace DeskCalc

namespace Session

variable {limits : Limits} {s : Session}

/-- The row of a session is restored as the session, with halves of pairs joined. -/
theorem restoreRow_snapshot (hsafe : Safe limits s) (h : s.Writable)
    (hlength : s.history.length < 10 ^ Number.digitLimit) :
    restoreRow limits s.snapshot.render = .ok (some s.joined) := by
  have hread : Store.readRow s.snapshot.render = .ok (some s.joined.snapshot) := by
    rw [Store.readRow, parseOr_snapshot hsafe h hlength]
    rfl
  have hrestore := congrArg (Except.map some) (restore_snapshot hsafe.joined)
  rw [restoreRow, hread]
  exact hrestore

/-- A session that a row is restored as is one to begin with. -/
theorem opens_of_restoreRow {text : List Char}
    (h : restoreRow limits (String.ofList (Text.ofChars text)) = .ok (some s)) :
    Opens limits s := by
  rw [restoreRow_eq] at h
  cases hread : Json.read (Text.ofChars text) with
  | error e =>
    rw [hread] at h
    cases e with
    | malformed =>
      cases h
      exact .fresh
    | tooLong => cases h
    | tooDeep => cases h
  | ok j =>
    have hrestored (hmap : (restore limits j).map some = .ok (some s)) : Opens limits s := by
      cases hs : restore limits j with
      | error f =>
        rw [hs] at hmap
        cases hmap
      | ok t =>
        rw [hs] at hmap
        cases hmap
        exact .restored hread hs
    rw [hread] at h
    cases j with
    | null => cases h
    | _ => exact hrestored h

end Session

namespace Shell

open Session (Opens restoreRow)

/-! ## Desks in order -/

/-- A desk at which the shell can work: the store can be read and written, every row is a text of
characters that can be restored, the next name is not that of a row, and the workspace file says
what the shell can use. -/
structure Desk.Sound (limits : Limits) (members : List (String × Json)) (d : Desk) : Prop where
  inReach : d.store.isLost = false
  unprotected : d.store.isProtected = false
  rows : ∀ name text, d.store.text? name = some text →
    (∃ chars, text = String.ofList (Text.ofChars chars)) ∧ ∃ o, restoreRow limits text = .ok o
  next : d.store.text? (Store.sessionName (d.store.issued + 1)) = none
  tells : Tells d.file members
  order : InOrder members

/-- A desk with a store that works, whatever the workspace file says. -/
structure Desk.Works (limits : Limits) (d : Desk) : Prop where
  inReach : d.store.isLost = false
  unprotected : d.store.isProtected = false
  rows : ∀ name text, d.store.text? name = some text →
    (∃ chars, text = String.ofList (Text.ofChars chars)) ∧ ∃ o, restoreRow limits text = .ok o
  next : d.store.text? (Store.sessionName (d.store.issued + 1)) = none

variable {limits : Limits} {members : List (String × Json)} {d : Desk} {a : Arguments} {j : Json}
  {id? : Option Json}

theorem Desk.Sound.works (h : d.Sound limits members) : d.Works limits where
  inReach := h.inReach
  unprotected := h.unprotected
  rows := h.rows
  next := h.next

/-- The store of a desk when it has been opened. -/
def Desk.opened (d : Desk) : Store :=
  { d.store with isOpen := true }

theorem Desk.Works.open?_eq (h : d.Works limits) : d.store.open? = some d.opened := by
  have hneg : ¬d.store.isLost = true := by
    rw [h.inReach]
    exact Bool.false_ne_true
  exact if_neg hneg

theorem Desk.Works.canWrite (h : d.Works limits) : d.opened.canWrite = true := by
  rw [Store.canWrite, Store.canRead, Desk.opened, h.inReach, h.unprotected]
  rfl

/-! ## The session to go on with -/

/-- The name of the session that is asked for, or else of the last one. -/
def asked? (a : Arguments) (members : List (String × Json)) : Option String :=
  match a.session with
  | some name => some name
  | none =>
    if a.fresh then none
    else
      match members.lookup lastName with
      | some (.str name) => if name.isEmpty then none else some name
      | _ => none

/-- The session that the store has under a name. -/
def stored? (limits : Limits) (store : Store) (name : String) : Option Session :=
  match (store.text? name).map (restoreRow limits) with
  | some (.ok o) => o
  | _ => none

/-- The session that the store has is restored from its row. -/
theorem of_stored? {store : Store} {name : String} {s : Session}
    (h : stored? limits store name = some s) :
    ∃ text, store.text? name = some text ∧ restoreRow limits text = .ok (some s) := by
  rw [stored?] at h
  cases htext : store.text? name with
  | none =>
    rw [htext] at h
    cases h
  | some text =>
    rw [htext, Option.map_some] at h
    cases hrestore : restoreRow limits text with
    | error f =>
      rw [hrestore] at h
      cases h
    | ok o =>
      rw [hrestore] at h
      cases h
      exact ⟨text, rfl, hrestore⟩

theorem Desk.Works.opens_stored? (hd : d.Works limits) {name : String} {s : Session}
    (h : stored? limits d.store name = some s) : Opens limits s := by
  obtain ⟨text, htext, hrestore⟩ := of_stored? h
  obtain ⟨⟨chars, rfl⟩, -⟩ := hd.rows name text htext
  exact Session.opens_of_restoreRow hrestore

/-- The session to go on with, under its name. -/
def resumed? (limits : Limits) (a : Arguments) (members : List (String × Json)) (d : Desk) :
    Option (String × Session) := do
  let name ← asked? a members
  let s ← stored? limits d.store name
  return (name, s)

/-- The name and the session that a dialogue begins with. -/
def beginning (limits : Limits) (a : Arguments) (members : List (String × Json)) (d : Desk) :
    String × Session :=
  (resumed? limits a members d).getD (Store.sessionName (d.store.issued + 1), .fresh limits)

theorem wanted_eq (h : InOrder members) :
    wanted a (.object members) = .ok ((asked? a members).map .str) := by
  rw [wanted, asked?]
  cases a.session with
  | some name => rfl
  | none =>
    cases a.fresh with
    | true => rfl
    | false =>
      rw [lastSession?]
      cases hlast : members.lookup lastName with
      | none => rfl
      | some j =>
        rcases h.last j hlast with rfl | ⟨name, rfl⟩
        · rfl
        · cases hempty : name.isEmpty with
          | true => simp [Json.isEmpty, hempty]
          | false => simp [Json.isEmpty, hempty]

/-- A name that has bytes is one that the store can be asked for. -/
theorem rowKey_str {name : String} (h : Text.hasHalf name.toList = false) :
    Store.rowKey (.str name) = .ok (.name name) := by
  rw [Store.rowKey, Text.toUtf8?, if_neg (by rw [h]; exact Bool.false_ne_true)]
  rfl

theorem find_eq {store : Store} {id : Json} {key : Store.RowKey} (hkey : Store.rowKey id = .ok key)
    (hread : store.canRead = true)
    (hrow : ∀ name text, store.text? name = some text → ∃ o, restoreRow limits text = .ok o) :
    find limits store id =
      .ok (key.name?.bind fun name => (stored? limits store name).map (Prod.mk name)) := by
  rw [find, hkey]
  simp only [bind, Except.bind, Except.mapError]
  cases key.name? with
  | none => rfl
  | some name =>
    have hload : store.load name = match store.text? name with
        | some text => Store.readRow text
        | none => .ok none := if_pos hread
    simp only [hload, Option.bind_some, stored?]
    cases htext : store.text? name with
    | none => rfl
    | some text =>
      obtain ⟨o, ho⟩ := hrow name text htext
      have hrestored := ho
      rw [restoreRow] at hrestored
      simp only [Option.map_some, ho]
      cases hreadRow : Store.readRow text with
      | error f =>
        rw [hreadRow] at hrestored
        cases hrestored
      | ok j =>
        rw [hreadRow] at hrestored
        cases j with
        | none =>
          cases hrestored
          rfl
        | some j =>
          cases hs : Session.restore limits j with
          | error f =>
            simp only [bind, Except.bind, hs, Except.map] at hrestored
            cases hrestored
          | ok s =>
            simp only [bind, Except.bind, hs, Except.map] at hrestored
            cases hrestored
            simp only [hs]
            rfl

/-- A session to begin with, under the name that was given and under the one in the store. -/
structure Seat where
  id : Json
  name : String
  session : Session

/-- The session that the store has for a document that is given as a name. -/
def found? (limits : Limits) (store : Store) (id : Json) : Option Seat :=
  (Store.rowKey id).toOption.bind fun key =>
    key.name?.bind fun name => (stored? limits store name).map (Seat.mk id name)

/-- The session that a dialogue begins with if it is asked for one, or if not: a fresh one under the
next name where the store has none. -/
def seat (limits : Limits) (id? : Option Json) (d : Desk) : Seat :=
  (id?.bind (found? limits d.store)).getD
    ⟨.str (Store.sessionName (d.store.issued + 1)), Store.sessionName (d.store.issued + 1),
      .fresh limits⟩

/-- A document of the workspace and a session, if any, that the arguments ask for with it. -/
structure Asks (a : Arguments) (file : Option String) (j : Json) (id? : Option Json) : Prop where
  document : readWorkspace file = .ok j
  wanted : wanted a j = .ok id?
  key : ∀ id, id? = some id → ∃ key, Store.rowKey id = .ok key

theorem found?_eq {store : Store} {id : Json} {key : Store.RowKey}
    (hkey : Store.rowKey id = .ok key) : found? limits store id =
      key.name?.bind fun name => (stored? limits store name).map (Seat.mk id name) := by
  rw [found?, hkey]
  rfl

theorem of_found? {store : Store} {id : Json} {p : Seat} (h : found? limits store id = some p) :
    stored? limits store p.name = some p.session := by
  obtain ⟨key, -, h⟩ := Option.bind_eq_some_iff.mp h
  obtain ⟨name, -, h⟩ := Option.bind_eq_some_iff.mp h
  obtain ⟨s, hstored, rfl⟩ := Option.map_eq_some_iff.mp h
  exact hstored

theorem Desk.Works.opens_seat (hd : d.Works limits) (id? : Option Json) :
    Opens limits (seat limits id? d).session := by
  rw [seat]
  cases hfound : id?.bind (found? limits d.store) with
  | none => exact .fresh
  | some p =>
    obtain ⟨id, -, hid⟩ := Option.bind_eq_some_iff.mp hfound
    exact hd.opens_stored? (of_found? hid)

/-- The choice where a session can be asked for. -/
theorem choose_eq (hd : d.Works limits) (h : Asks a d.file j id?) :
    ∃ said, choose limits a d = .ok ⟨j, d.opened, (seat limits id? d).session,
      (id?.bind (found? limits d.store)).map fun p => (p.id, p.name), said⟩ := by
  have hcan : d.opened.canRead = true := Store.canRead_of_canWrite hd.canWrite
  rw [choose, h.document, seat]
  simp only [bind, Except.bind, h.wanted, hd.open?_eq]
  cases id? with
  | none => exact ⟨_, rfl⟩
  | some id =>
    obtain ⟨key, hkey⟩ := h.key id rfl
    have hfind : find limits d.opened id =
        .ok (key.name?.bind fun name => (stored? limits d.opened name).map (Prod.mk name)) :=
      find_eq hkey hcan fun name text htext => (hd.rows name text htext).2
    simp only [hfind, Option.bind_some, found?_eq hkey]
    cases key.name? with
    | none => exact ⟨_, rfl⟩
    | some name =>
      have hstored : stored? limits d.opened name = stored? limits d.store name := rfl
      simp only [Option.bind_some, hstored]
      cases stored? limits d.store name with
      | none => exact ⟨_, rfl⟩
      | some s => exact ⟨_, rfl⟩

/-- A choice that is settled has a session with a row. -/
theorem settle_eq (hd : d.Works limits) (hlength : limits.history < 10 ^ Number.digitLimit)
    (j : Json) (id? : Option Json) (said : List String) :
    ∃ store more, (⟨j, d.opened, (seat limits id? d).session,
        (id?.bind (found? limits d.store)).map fun p => (p.id, p.name), said⟩ : Choice).settle =
      ⟨j, store, (seat limits id? d).session,
        some ((seat limits id? d).id, (seat limits id? d).name), more⟩ ∧
      (∃ text, store.text? (seat limits id? d).name = some text ∧
        restoreRow limits text = .ok (some (seat limits id? d).session.joined)) ∧
      (store.drop (seat limits id? d).name).rows = (d.store.drop (seat limits id? d).name).rows ∧
      store.canWrite = true := by
  have hopens : Opens limits (seat limits id? d).session := hd.opens_seat id?
  rw [seat] at hopens ⊢
  cases hfound : id?.bind (found? limits d.store) with
  | some p =>
    rw [hfound, Option.getD_some] at hopens
    obtain ⟨id, -, hid⟩ := Option.bind_eq_some_iff.mp hfound
    obtain ⟨text, htext, hrestore⟩ := of_stored? (of_found? hid)
    refine ⟨d.opened, said, rfl, ⟨text, htext, ?_⟩, rfl, hd.canWrite⟩
    exact hopens.storable.joined_eq.symm ▸ hrestore
  | none =>
    have hfree : d.opened.text? (Store.sessionName (d.opened.issued + 1)) = none := hd.next
    have hcreate := Store.create_of_free hd.canWrite hfree
      (j := (Session.fresh limits).snapshot) rfl
    have hsafe := Session.safe_fresh limits
    have hrow := Session.restoreRow_snapshot hsafe (Session.writable_fresh limits)
      (hsafe.history.trans_lt hlength)
    refine ⟨d.opened.issue.put (Store.sessionName (d.store.issued + 1))
        (Session.fresh limits).snapshot.render,
      said ++ ["Session created: " ++ Store.sessionName (d.store.issued + 1)], ?_, ?_, ?_, ?_⟩
    · rw [Option.getD_none, Option.map_none, Choice.settle]
      simp only [hcreate]
      rfl
    · exact ⟨_, (Store.text?_put _ _ _ _).trans (if_pos rfl), hrow⟩
    · exact Store.rows_drop_put d.opened.issue _ _
    · exact hd.canWrite

/-! ## Sessions in use -/

/-- The shell works on a session of the store: the session and its row fit together, the other rows
are those of the desk, and `P` holds of the place of the session. -/
structure InUse (limits : Limits) (P : Place → Prop) (d : Desk) (name : String) (sh : Shell) :
    Prop where
  safe : Session.Safe limits sh.session
  writable : sh.session.Writable
  place : ∃ p, sh.place = some p ∧ p.name = name ∧ P p
  row : ∃ text, sh.desk.store.text? name = some text ∧
    restoreRow limits text = .ok (some sh.session.joined)
  others : (sh.desk.store.drop name).rows = (d.store.drop name).rows
  canWrite : sh.desk.store.canWrite = true

/-- The shell opens where the session that it begins with can be given a place. -/
theorem openShell_of_place (hd : d.Works limits) (hlength : limits.history < 10 ^ Number.digitLimit)
    (h : Asks a d.file j id?) {now : String} {p : Place} (completes : Bool)
    (hplace : takePlace j (seat limits id? d).id (seat limits id? d).name now = .ok p) :
    ∃ said sh, openShell limits completes now a d = ⟨said, .ok sh⟩ ∧
      sh.session = (seat limits id? d).session ∧ sh.keep = a.keep ∧
      ∀ P : Place → Prop, P p → InUse limits P d (seat limits id? d).name sh := by
  obtain ⟨said, hchoose⟩ := choose_eq hd h
  obtain ⟨store, more, hsettle, hrow, hothers, hcan⟩ := settle_eq hd hlength j id? said
  have hopens := hd.opens_seat id?
  have hname : p.name = (seat limits id? d).name := by
    rw [takePlace] at hplace
    obtain ⟨w, -, hplace⟩ := bind_eq_ok hplace
    obtain ⟨v, -, hplace⟩ := bind_eq_ok hplace
    cases hplace
    rfl
  rw [openShell, hchoose]
  simp only [hsettle, hplace]
  refine ⟨_, _, rfl, rfl, rfl, fun P hP => ?_⟩
  exact
    { safe := hopens.starts.safe
      writable := hopens.storable.writable
      place := ⟨p, rfl, hname, hP⟩
      row := hrow
      others := hothers
      canWrite := hcan }

/-- The place is that of a session which the workspace remembers. -/
def Remembered (members : List (String × Json)) (name : String) (p : Place) : Prop :=
  p.id = .str name ∧ Remembers members name p.workspace

theorem Desk.Sound.asks (hd : d.Sound limits members)
    (hhalf : ∀ name, asked? a members = some name → Text.hasHalf name.toList = false) :
    Asks a d.file (.object members) ((asked? a members).map .str) where
  document := hd.tells.readWorkspace
  wanted := wanted_eq hd.order
  key := by
    intro id hid
    obtain ⟨name, hname, rfl⟩ := Option.map_eq_some_iff.mp hid
    exact ⟨_, rowKey_str (hhalf name hname)⟩

/-- What is asked for at a desk in order is the beginning. -/
theorem seat_asked (hhalf : ∀ name, asked? a members = some name → Text.hasHalf name.toList = false) :
    seat limits ((asked? a members).map .str) d =
      ⟨.str (beginning limits a members d).1, (beginning limits a members d).1,
        (beginning limits a members d).2⟩ := by
  rw [seat, beginning, resumed?]
  cases hasked : asked? a members with
  | none => rfl
  | some name =>
    have hkey := rowKey_str (hhalf name hasked)
    simp only [Option.map_some, Option.bind_some, found?_eq hkey, Store.RowKey.name?, bind]
    cases stored? limits d.store name with
    | none => rfl
    | some s => rfl

/-- At a desk in order the shell opens with the session in use, unless the name that it is asked
for has no bytes. -/
theorem exists_openShell (hd : d.Sound limits members)
    (hlength : limits.history < 10 ^ Number.digitLimit)
    (hhalf : ∀ name, asked? a members = some name → Text.hasHalf name.toList = false)
    (completes : Bool) (now : String) :
    ∃ said sh, openShell limits completes now a d = ⟨said, .ok sh⟩ ∧
      sh.session = (beginning limits a members d).2 ∧ sh.keep = a.keep ∧
      InUse limits (Remembered members (beginning limits a members d).1) d
        (beginning limits a members d).1 sh := by
  obtain ⟨w, hremember, hw⟩ :=
    exists_remembers hd.order hd.tells.storable (beginning limits a members d).1 now
  have hseat := @seat_asked limits members d a hhalf
  have hplace : takePlace (.object members) (seat limits ((asked? a members).map .str) d).id
      (seat limits ((asked? a members).map .str) d).name now =
        .ok ⟨.str (beginning limits a members d).1, (beginning limits a members d).1, w⟩ := by
    rw [hseat, takePlace, hd.order.ofJson]
    simp only [bind, Except.bind, hremember]
    rfl
  obtain ⟨said, sh, hopen, hsession, hkeep, hwork⟩ :=
    openShell_of_place hd.works hlength (hd.asks hhalf) completes hplace
  rw [hseat] at hsession hwork
  exact ⟨said, sh, hopen, hsession, hkeep, hwork _ ⟨rfl, hw⟩⟩

end Shell
end DeskCalc
