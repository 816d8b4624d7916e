import DeskCalc.Api.Line
import DeskCalc.Proofs.Api.Calls
import DeskCalc.Proofs.Session.Mirror
import DeskCalc.Proofs.Settings
import DeskCalc.Proofs.Store.Rows

/-!
# Sessions in the store and in memory

Each request loads a session, works on it and saves it again.  To a client this is no different from
a session that stays in memory: a row holds the text of a session that mirrors the one in memory,
and each call to the session keeps it so, while whatever is done to other sessions leaves the row.
-/

namespace DeskCalc.Api

open Json (nestingRoom)
open Number (digitLimit)
open Session (Mirrors Safe)
open Text (joinedString)

variable {limits : Limits} {store : Store} {r : Request} {name : String}

/-! ## Rows -/

/-- What stands in a row, given the session in memory. -/
inductive Holds (limits : Limits) : Option String → Option Session → Prop
  | nothing : Holds limits none none
  | session {s t : Session} (hsafe : Safe limits t) (h : Mirrors s t) :
    Holds limits (some t.snapshot.render) (some s)

theorem loadSession_of_none (h : store.text? name = none) :
    loadSession limits store name = .error (.unknownSession name) := by
  rw [loadSession, Store.load_of_none h]

/-- What is loaded is the session that was saved, joined. -/
theorem loadSession_of_row (hroom : limits.history < 10 ^ digitLimit)
    (hwrite : store.canWrite = true) {t : Session} (hsafe : Safe limits t) (h : t.Writable)
    (hrow : store.text? name = some t.snapshot.render) :
    loadSession limits store name = .ok t.joined := by
  have hread := Session.parseOr_snapshot hsafe h (hsafe.history.trans_lt hroom) (.object [])
  have hload : store.load name = .ok (some t.joined.snapshot) :=
    Store.load_of_some hwrite hrow hread
  rw [loadSession, hload]
  simp only [Session.restore_snapshot hsafe.joined]
  rfl

theorem exists_text?_of_loadSession {s : Session} (h : loadSession limits store name = .ok s) :
    ∃ text, store.text? name = some text := by
  cases hrow : store.text? name with
  | some text => exact ⟨text, rfl⟩
  | none =>
    rw [loadSession_of_none hrow] at h
    cases h

/-! ## Documents that clients read alike -/

theorem received_success {a b : List (String × Json)}
    (ha : Json.Writable nestingRoom (.object a)) (hb : Json.Writable nestingRoom (.object b))
    (h : (Json.object a).joined = (Json.object b).joined) :
    (Response.success a).received = (Response.success b).received := by
  simp only [Response.success, Response.received, Option.map_some, Json.render,
    String.toList_ofList, ha.read_write, hb.read_write, h]

/-- The variables and the history that a client is shown. -/
theorem writable_shown {s : Session} (hsafe : Safe limits s) (h : s.Writable)
    (lines : List String) : Json.Writable nestingRoom
      (.object [("variables", .object s.bindings), ("history", .list (lines.map .str))]) := by
  refine Session.writable_object (n := nestingRoom - 1) ["variables", "history"] rfl (by decide)
    (by decide) ?_
  simp only [List.forall_mem_cons]
  exact ⟨Session.writable_bindings (n := nestingRoom - 2) hsafe h,
    Session.writable_lines (n := nestingRoom - 2) lines, List.forall_mem_nil _⟩

/-- The line and the position that a client is shown. -/
theorem writable_recalled {s : Session} (hsafe : Safe limits s)
    (hroom : limits.history < 10 ^ digitLimit) (line : String) :
    Json.Writable nestingRoom (.object [("input", .str line), ("index", s.cursor.toJson)]) := by
  refine Session.writable_object (n := nestingRoom - 1) ["input", "index"] rfl (by decide)
    (by decide) ?_
  simp only [List.forall_mem_cons]
  exact ⟨.str line, hsafe.writable_cursor (hsafe.history.trans_lt hroom), List.forall_mem_nil _⟩

theorem joined_shown (bindings : List (String × Json)) (lines : List String) :
    (Json.object [("variables", .object bindings), ("history", .list (lines.map .str))]).joined =
      .object [("variables", (Json.object bindings).joined),
        ("history", .list ((lines.map joinedString).map .str))] := by
  rw [Json.joined]
  simp only [Json.joinedMembers, Session.joined_lines]

theorem joined_recalled (line : String) (m : Mark) :
    (Json.object [("input", .str line), ("index", m.toJson)]).joined =
      .object [("input", .str (joinedString line)), ("index", m.toJson)] := by
  rw [Json.joined]
  simp only [Json.joinedMembers, Session.joined_markJson, Json.joined]

theorem entryAnswer_eq {s t : Session} (h : Mirrors s t) (line : Text) (e : Option Entry) :
    entryAnswer t line e = entryAnswer s line e := by
  have hlast : t.value? Session.lastName = s.value? Session.lastName :=
    congrArg (List.lookup Session.lastName) h.bindings
  cases e with
  | none => rfl
  | some e => rw [entryAnswer, entryAnswer, hlast]

/-! ## Calls -/

/-- A handler leaves a row that holds the session in memory, and a client gets the same answer. -/
structure Follows (limits : Limits) (name : String) (x : Handled)
    (y : Option Session × Except Problem Response) : Prop where
  received : (Response.ofExcept x.2).received = (Response.ofExcept y.2).received
  holds : Holds limits (x.1.text? name) y.1

section

variable {m : Option Session}

theorem follows_create (hwrite : store.canWrite = true) (hnames : store.NamesIssued) :
    Follows limits (Store.sessionName (store.issued + 1)) (createSession limits store)
      (Call.create.reply limits (Store.sessionName (store.issued + 1)) m) := by
  have hcreate := Store.create_eq (j := (Session.fresh limits).snapshot) hwrite hnames rfl
  rw [createSession, hcreate]
  refine ⟨rfl, ?_⟩
  rw [Store.text?_put, if_pos rfl]
  exact .session (Session.safe_fresh limits) (Session.mirrors_fresh limits)

theorem follows_discard (hwrite : store.canWrite = true) (h : Holds limits (store.text? name) m) :
    Follows limits name (deleteSession store name) (Call.discard.reply limits name m) := by
  generalize hrow : store.text? name = row at h
  cases h with
  | nothing =>
    rw [deleteSession, Store.delete_of_none hrow]
    exact ⟨rfl, hrow ▸ .nothing⟩
  | session =>
    rw [deleteSession, Store.delete_of_some hwrite hrow]
    refine ⟨rfl, ?_⟩
    rw [Store.text?_drop, if_pos rfl]
    exact .nothing

theorem follows_inspect (hroom : limits.history < 10 ^ digitLimit)
    (hwrite : store.canWrite = true) (h : Holds limits (store.text? name) m) :
    Follows limits name (store, showSession limits store name)
      (Call.inspect.reply limits name m) := by
  have hkept := h
  generalize hrow : store.text? name = row at h
  cases h with
  | nothing =>
    rw [showSession, loadSession_of_none hrow]
    exact ⟨rfl, hkept⟩
  | @session s t hsafe hmirrors =>
    rw [showSession, loadSession_of_row hroom hwrite hsafe hmirrors.toWritable hrow]
    have hloaded := hmirrors.joined
    have hshown := writable_shown hsafe.joined hloaded.toWritable
    refine ⟨received_success (hshown _) ?_ ?_, hkept⟩
    · rw [← hloaded.bindings]
      exact hshown s.history
    · rw [joined_shown, joined_shown, hloaded.history, hloaded.bindings]

theorem follows_calculate (hroom : limits.history < 10 ^ digitLimit)
    (hwrite : store.canWrite = true) (h : Holds limits (store.text? name) m) (r : Request) :
    Follows limits name (calculateIn limits store name r)
      ((Call.calculate (query r)).reply limits name m) := by
  have hkept := h
  rw [calculateIn]
  cases query r with
  | error p => exact ⟨rfl, hkept⟩
  | ok line =>
    generalize hrow : store.text? name = row at h
    cases h with
    | nothing =>
      rw [loadSession_of_none hrow]
      exact ⟨rfl, hkept⟩
    | @session s t hsafe hmirrors =>
      rw [loadSession_of_row hroom hwrite hsafe hmirrors.toWritable hrow]
      obtain ⟨hentry, hafter⟩ := hmirrors.joined.submit (String.ofList line)
      obtain ⟨hnext, e, he⟩ := hsafe.joined.submit (String.ofList line)
      rw [he] at hentry
      simp only [bind, Except.bind, pure, Except.pure, Call.reply]
      generalize t.joined.submit (String.ofList line) = x at hafter hnext he ⊢
      generalize s.submit (String.ofList line) = y at hafter hentry ⊢
      obtain ⟨u, _⟩ := x
      obtain ⟨v, _⟩ := y
      cases he
      cases hentry
      simp only [Store.save_eq hwrite]
      refine ⟨?_, ?_⟩
      · rw [entryAnswer_eq hafter]
      · rw [Store.text?_put, if_pos rfl]
        exact .session hnext hafter

theorem follows_navigate (hroom : limits.history < 10 ^ digitLimit)
    (hwrite : store.canWrite = true) (h : Holds limits (store.text? name) m) (r : Request) :
    Follows limits name (navigateIn limits store name r)
      ((Call.navigate (direction r)).reply limits name m) := by
  have hkept := h
  rw [navigateIn]
  cases direction r with
  | error p => exact ⟨rfl, hkept⟩
  | ok step =>
    generalize hrow : store.text? name = row at h
    cases h with
    | nothing =>
      rw [loadSession_of_none hrow]
      exact ⟨rfl, hkept⟩
    | @session s t hsafe hmirrors =>
      rw [loadSession_of_row hroom hwrite hsafe hmirrors.toWritable hrow]
      obtain ⟨hline, hafter⟩ := hmirrors.joined.navigate step
      have hnext := hsafe.joined.navigate step
      simp only [bind, Except.bind, pure, Except.pure, Call.reply, Store.save_eq hwrite]
      refine ⟨?_, ?_⟩
      · have hrecalled := writable_recalled hnext hroom
        refine received_success (hrecalled _) ?_ ?_
        · rw [← hafter.cursor]
          exact hrecalled _
        · rw [joined_recalled, joined_recalled, hline, hafter.cursor]
      · rw [Store.text?_put, if_pos rfl]
        exact .session hnext hafter

theorem follows_of_call? (hroom : limits.history < 10 ^ digitLimit)
    (hwrite : store.canWrite = true) (hnames : store.NamesIssued) {call : Call}
    (hcall : r.call? store.issued = some (name, call)) (h : Holds limits (store.text? name) m) :
    (answer limits store r).2.received =
        (Response.ofExcept (call.reply limits name m).2).received ∧
      Holds limits ((answer limits store r).1.text? name) (call.reply limits name m).1 := by
  have hfollows {x : Handled} (heq : answer limits store r = respond x)
      (hx : Follows limits name x (call.reply limits name m)) :
      (answer limits store r).2.received =
          (Response.ofExcept (call.reply limits name m).2).received ∧
        Holds limits ((answer limits store r).1.text? name) (call.reply limits name m).1 := by
    rw [heq]
    exact ⟨hx.received, hx.holds⟩
  have hcarried : CarriedOut limits store r name call := carriedOut_of_call? hcall
  cases hcarried with
  | create heq => exact hfollows heq (follows_create hwrite hnames)
  | inspect heq => exact hfollows heq (follows_inspect hroom hwrite h)
  | discard heq => exact hfollows heq (follows_discard hwrite h)
  | calculate heq => exact hfollows heq (follows_calculate hroom hwrite h r)
  | navigate heq => exact hfollows heq (follows_navigate hroom hwrite h r)

end

/-! ## Other sessions -/

/-- A handler leaves the store, or puts another text into the row that was there. -/
def Rewrites (name : String) (s t : Store) : Prop :=
  t = s ∨ ∃ old text, s.text? name = some old ∧ t = s.put name text

theorem Rewrites.changes {t : Store} (h : Rewrites name store t) :
    Store.Changes name store t ∧ t.issued = store.issued := by
  rcases h with rfl | ⟨old, text, hrow, rfl⟩
  · exact ⟨.left, rfl⟩
  · exact ⟨.kept hrow text, rfl⟩

theorem rewrites_calculateIn (hwrite : store.canWrite = true) :
    Rewrites name store (calculateIn limits store name r).1 := by
  rw [calculateIn]
  split
  · exact .inl rfl
  next line s heq =>
    obtain ⟨_, -, hload⟩ := bind_eq_ok heq
    obtain ⟨_, hload, -⟩ := bind_eq_ok hload
    obtain ⟨old, hrow⟩ := exists_text?_of_loadSession hload
    split
    · exact .inl rfl
    · simp only [Store.save_eq hwrite]
      exact .inr ⟨old, _, hrow, rfl⟩

theorem rewrites_navigateIn (hwrite : store.canWrite = true) :
    Rewrites name store (navigateIn limits store name r).1 := by
  rw [navigateIn]
  split
  · exact .inl rfl
  next step s heq =>
    obtain ⟨_, -, hload⟩ := bind_eq_ok heq
    obtain ⟨_, hload, -⟩ := bind_eq_ok hload
    obtain ⟨old, hrow⟩ := exists_text?_of_loadSession hload
    simp only [Store.save_eq hwrite]
    exact .inr ⟨old, _, hrow, rfl⟩

/-- A call changes the row of its session only, and counts the names that are given out. -/
theorem changes_of_call? (hwrite : store.canWrite = true) (hnames : store.NamesIssued) {call : Call}
    (hcall : r.call? store.issued = some (name, call)) :
    Store.Changes name store (answer limits store r).1 ∧
      (answer limits store r).1.issued = r.issuedAfter store.issued := by
  rw [Request.issuedAfter, hcall]
  have hcarried : CarriedOut limits store r name call := carriedOut_of_call? hcall
  cases hcarried with
  | create heq =>
    rw [heq, respond, createSession,
      Store.create_eq (j := (Session.fresh limits).snapshot) hwrite hnames rfl]
    exact ⟨.created rfl _, rfl⟩
  | inspect heq =>
    rw [heq]
    exact ⟨.left, rfl⟩
  | discard heq =>
    rw [heq, respond, deleteSession]
    cases hrow : store.text? name with
    | none =>
      rw [Store.delete_of_none hrow]
      exact ⟨.left, rfl⟩
    | some text =>
      rw [Store.delete_of_some hwrite hrow]
      exact ⟨.dropped, rfl⟩
  | calculate heq =>
    rw [heq]
    exact (rewrites_calculateIn hwrite).changes
  | navigate heq =>
    rw [heq]
    exact (rewrites_navigateIn hwrite).changes

/-! ## Runs -/

/-- From any moment on, calls to a session are answered as if the session that its row holds stayed
in memory. -/
theorem received_responsesTo (hroom : limits.history < 10 ^ digitLimit) {m : Option Session}
    (hwrite : store.canWrite = true) (hnames : store.NamesIssued)
    (h : Holds limits (store.text? name) m) (requests : List Request) :
    (responsesTo limits name store requests).map Response.received =
      (replies limits name m (callsTo name store.issued requests)).map Response.received := by
  induction requests generalizing store m with
  | nil => rfl
  | cons r requests ih =>
    rw [responsesTo, callsTo]
    cases hcall : r.call? store.issued with
    | none =>
      have hfor : r.isFor name store.issued = false := by
        rw [Request.isFor, hcall]
        rfl
      have hissued : r.issuedAfter store.issued = store.issued := by
        rw [Request.issuedAfter, hcall]
      simp only [hfor, Bool.false_eq_true, if_false, answer_of_call?_eq_none hcall, hissued]
      exact ih hwrite hnames h
    | some c =>
      obtain ⟨n, call⟩ := c
      have hanswer : Store.Changes n store (answer limits store r).1 ∧
          (answer limits store r).1.issued = r.issuedAfter store.issued :=
        changes_of_call? hwrite hnames hcall
      obtain ⟨hchanges, hissued⟩ := hanswer
      have hfor : r.isFor name store.issued = (n == name) := by
        rw [Request.isFor, hcall]
        rfl
      have hlater {m : Option Session}
          (hm : Holds limits ((answer limits store r).1.text? name) m) :=
        ih (hchanges.canWrite.trans hwrite) (hchanges.namesIssued hnames) hm
      rw [hissued] at hlater
      by_cases hn : n = name
      · subst hn
        obtain ⟨hreceived, hholds⟩ := follows_of_call? hroom hwrite hnames hcall h
        simp only [hfor, beq_self_eq_true, if_true, replies, List.map_cons, hreceived,
          hlater hholds]
      · rw [← hchanges.text?_of_ne (Ne.symm hn)] at h
        simp only [hfor, beq_eq_false_iff_ne.mpr hn, Bool.false_eq_true, if_false, if_neg hn,
          hlater h]

/-- In a store that works and that has no rows but those made by requests, the responses to the
requests for a session are those that the session gives when it stays in memory.  So they depend on
the calls to this session only, whatever is asked of other sessions in between. -/
theorem responsesTo_eq_replies {env : Settings.Environment} {settings : Settings}
    (hsettings : Settings.read env = .ok settings) {store : Store}
    (hwrite : store.canWrite = true) (hrows : store.rows = []) (requests : List Request)
    (name : String) :
    (responsesTo settings.limits name store requests).map Response.received =
      (replies settings.limits name none (callsTo name store.issued requests)).map
        Response.received := by
  have hnone (n : String) : store.text? n = none := by
    rw [Store.text?, hrows]
    rfl
  have hnames : store.NamesIssued := by
    intro n hrow
    rw [hnone n] at hrow
    cases hrow
  have hholds : Holds settings.limits (store.text? name) none := by
    rw [hnone name]
    exact .nothing
  exact received_responsesTo (Settings.history_limits_lt hsettings) hwrite hnames hholds requests

/-- Two sessions, one of which is asked for after it has been deleted. -/
theorem responsesTo_eq_replies_deleted :
    ∃ settings requests, Settings.read (fun _ => none) = .ok settings ∧
      requests = ["POST /sessions", "POST /sessions",
        "POST /sessions/session-1/calculate \x7b\"query\": \"x = 2\"\x7d",
        "POST /sessions/session-2/history \x7b\"direction\": -1\x7d",
        "DELETE /sessions/session-1", "GET /sessions/session-1"].map
          (fun line => Request.ofLine line.toList) ∧
      (responsesTo settings.limits "session-1" { Store.empty with isOpen := true }
          requests).map Response.received =
        (replies settings.limits "session-1" none (callsTo "session-1" 0 requests)).map
          Response.received := by
  obtain ⟨settings, hsettings⟩ : ∃ settings, Settings.read (fun _ => none) = .ok settings :=
    ⟨_, rfl⟩
  exact ⟨settings, _, hsettings, rfl,
    responsesTo_eq_replies hsettings rfl rfl _ _⟩

end DeskCalc.Api
