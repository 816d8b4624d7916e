import DeskCalc.Proofs.Api.Refinement
import DeskCalc.Proofs.Query.Answers
import DeskCalc.Proofs.Session.Assignments

/-!
# Assignments that are reported

The answer to a query in a session names the variable that was set, but it takes the name from the
query alone.  Whether the session that is saved binds this name to the last result is another
matter: it does so just if the assignment came to a finite number and its name is among those that
stay when the variables are limited, or if the name had the value zero before and was not assigned.
-/

namespace DeskCalc.Api

open Number (digitLimit)
open Session (Safe Named Binds worth)

variable {limits : Limits} {store : Store} {r : Request} {name : String} {s : Session}

/-! ## Sessions in rows -/

/-- A session as requests leave it in a row. -/
structure Held (limits : Limits) (s : Session) : Prop where
  safe : Safe limits s
  writable : s.Writable
  room : s.names.length ≤ limits.bindings

theorem held_fresh (limits : Limits) : Held limits (.fresh limits) where
  safe := Session.safe_fresh limits
  writable := Session.writable_fresh limits
  room := Nat.zero_le _

theorem Held.named (h : Held limits s) : Named s.bindings :=
  ⟨h.writable.distinct, h.writable.names⟩

theorem Held.joined (h : Held limits s) : Held limits s.joined where
  safe := h.safe.joined
  writable := h.writable.mirrors.joined.toWritable
  room := h.room

theorem Held.act (h : Held limits s) {a : Action} (hwritable : (s.act a).1.Writable) :
    Held limits (s.act a).1 where
  safe := (h.safe.act a).1
  writable := hwritable
  room := by
    rcases h.safe.names_act a with ⟨-, hle⟩ | ⟨-, heq⟩
    · exact hle
    · rw [heq]
      exact h.room

theorem Held.submit (h : Held limits s) (raw : String) : Held limits (s.submit raw).1 :=
  h.act (a := .submit raw) (h.writable.mirrors.submit raw).2.toWritable

theorem Held.navigate (h : Held limits s) (step : Int) : Held limits (s.navigate step).1 where
  safe := h.safe.navigate step
  writable := (h.writable.mirrors.navigate step).2.toWritable
  room := by
    rw [Session.names, Session.navigate_bindings]
    exact h.room

/-! ## Stores that requests have made -/

/-- A store that works and whose rows all hold sessions as requests leave them. -/
structure Orderly (limits : Limits) (store : Store) : Prop where
  canWrite : store.canWrite = true
  names : store.NamesIssued
  rows : ∀ name text, store.text? name = some text →
    ∃ s, Held limits s ∧ text = s.snapshot.render

theorem Orderly.load (h : Orderly limits store) (hroom : limits.history < 10 ^ digitLimit)
    (hload : loadSession limits store name = .ok s) : Held limits s := by
  obtain ⟨text, hrow⟩ := exists_text?_of_loadSession hload
  obtain ⟨t, ht, rfl⟩ := h.rows name text hrow
  rw [loadSession_of_row hroom h.canWrite ht.safe ht.writable hrow] at hload
  cases hload
  exact ht.joined

/-- A query in a session that can be loaded is answered, and the session after it is saved. -/
theorem calculateIn_eq (hwrite : store.canWrite = true) {line : Text} (hquery : query r = .ok line)
    (hload : loadSession limits store name = .ok s) (hsafe : Safe limits s) :
    ∃ e, (s.submit (String.ofList line)).2 = .ok e ∧
      calculateIn limits store name r =
        (store.put name (s.submit (String.ofList line)).1.snapshot.render,
          entryAnswer (s.submit (String.ofList line)).1 line e) := by
  obtain ⟨-, e, he⟩ := hsafe.submit (String.ofList line)
  refine ⟨e, he, ?_⟩
  rw [calculateIn, hquery, hload]
  simp only [bind, Except.bind, pure, Except.pure]
  generalize s.submit (String.ofList line) = x at he ⊢
  obtain ⟨t, result⟩ := x
  cases he
  simp only [Store.save_eq hwrite]

theorem navigateIn_eq (hwrite : store.canWrite = true) {step : Int} (hstep : direction r = .ok step)
    (hload : loadSession limits store name = .ok s) :
    (navigateIn limits store name r).1 =
      store.put name (s.navigate step).1.snapshot.render := by
  rw [navigateIn, hstep, hload]
  simp only [bind, Except.bind, pure, Except.pure, Store.save_eq hwrite]

/-- A calculation that fails leaves the row as it is, and any other one saves its session there. -/
theorem Orderly.row_calculateIn (h : Orderly limits store) (hroom : limits.history < 10 ^ digitLimit)
    {text : String} (htext : (calculateIn limits store name r).1.text? name = some text) :
    ∃ s, Held limits s ∧ text = s.snapshot.render := by
  cases hquery : query r with
  | error p =>
    rw [calculateIn, hquery] at htext
    exact h.rows name text htext
  | ok line =>
    cases hload : loadSession limits store name with
    | error p =>
      rw [calculateIn, hquery, hload] at htext
      exact h.rows name text htext
    | ok s =>
      have hs := h.load hroom hload
      obtain ⟨e, -, hanswer⟩ := calculateIn_eq h.canWrite hquery hload hs.safe
      rw [hanswer, Store.text?_put, if_pos rfl] at htext
      exact ⟨_, hs.submit _, (Option.some.inj htext).symm⟩

theorem Orderly.row_navigateIn (h : Orderly limits store) (hroom : limits.history < 10 ^ digitLimit)
    {text : String} (htext : (navigateIn limits store name r).1.text? name = some text) :
    ∃ s, Held limits s ∧ text = s.snapshot.render := by
  cases hstep : direction r with
  | error p =>
    rw [navigateIn, hstep] at htext
    exact h.rows name text htext
  | ok step =>
    cases hload : loadSession limits store name with
    | error p =>
      rw [navigateIn, hstep, hload] at htext
      exact h.rows name text htext
    | ok s =>
      rw [navigateIn_eq h.canWrite hstep hload, Store.text?_put, if_pos rfl] at htext
      exact ⟨_, (h.load hroom hload).navigate step, (Option.some.inj htext).symm⟩

theorem Orderly.row_deleteSession (h : Orderly limits store) {text : String}
    (htext : (deleteSession store name).1.text? name = some text) :
    ∃ s, Held limits s ∧ text = s.snapshot.render := by
  rw [deleteSession] at htext
  cases hrow : store.text? name with
  | none =>
    rw [Store.delete_of_none hrow] at htext
    exact h.rows name text htext
  | some old =>
    rw [Store.delete_of_some h.canWrite hrow] at htext
    simp only [Store.text?_drop, if_true] at htext
    cases htext

/-- What the row of a call holds after it. -/
theorem Orderly.row_answer (h : Orderly limits store) (hroom : limits.history < 10 ^ digitLimit)
    {call : Call} (hcall : r.call? store.issued = some (name, call)) {text : String}
    (htext : (answer limits store r).1.text? name = some text) :
    ∃ s, Held limits s ∧ text = s.snapshot.render := by
  have hcarried : CarriedOut limits store r name call := carriedOut_of_call? hcall
  cases hcarried with
  | create heq =>
    rw [heq, respond, createSession,
      Store.create_eq (j := (Session.fresh limits).snapshot) h.canWrite h.names rfl] at htext
    simp only [Store.text?_put, if_true, Option.some.injEq] at htext
    exact ⟨_, held_fresh limits, htext.symm⟩
  | inspect heq =>
    rw [heq] at htext
    exact h.rows name text htext
  | discard heq =>
    rw [heq] at htext
    exact h.row_deleteSession htext
  | calculate heq =>
    rw [heq] at htext
    exact h.row_calculateIn hroom htext
  | navigate heq =>
    rw [heq] at htext
    exact h.row_navigateIn hroom htext

/-- A request keeps a store orderly. -/
theorem Orderly.answer (h : Orderly limits store) (hroom : limits.history < 10 ^ digitLimit)
    (r : Request) : Orderly limits (answer limits store r).1 := by
  cases hcall : r.call? store.issued with
  | none =>
    rw [answer_of_call?_eq_none hcall]
    exact h
  | some c =>
    obtain ⟨name, call⟩ := c
    have hchanges : Store.Changes name store (Api.answer limits store r).1 :=
      (changes_of_call? h.canWrite h.names hcall).1
    constructor
    · exact hchanges.canWrite.trans h.canWrite
    · exact hchanges.namesIssued h.names
    · intro other text htext
      by_cases hother : other = name
      · subst hother
        exact h.row_answer hroom hcall htext
      · rw [hchanges.text?_of_ne hother] at htext
        exact h.rows other text htext

/-- The store after a row of requests. -/
def storeAfter (limits : Limits) : Store → List Request → Store
  | store, [] => store
  | store, r :: requests => storeAfter limits (answer limits store r).1 requests

theorem Orderly.after (h : Orderly limits store) (hroom : limits.history < 10 ^ digitLimit)
    (requests : List Request) : Orderly limits (storeAfter limits store requests) := by
  induction requests generalizing store with
  | nil => exact h
  | cons r requests ih => exact ih (h.answer hroom r)

theorem orderly_of_no_rows (limits : Limits) (hwrite : store.canWrite = true)
    (hrows : store.rows = []) : Orderly limits store := by
  have hnone (n : String) : store.text? n = none := by
    rw [Store.text?, hrows]
    rfl
  constructor
  · exact hwrite
  · intro n hrow
    rw [hnone n] at hrow
    cases hrow
  · intro n text hrow
    rw [hnone n] at hrow
    cases hrow

/-! ## Reported assignments -/

/-- A member of the body of a response, if there is one. -/
def Response.member? (r : Response) (name : String) : Option Json :=
  r.body.bind (Json.get? name)

theorem member?_ofProblem (p : Problem) {member : String} (hmember : member ≠ "error") :
    (Response.ofProblem p).member? member = none := by
  rw [Response.member?, Response.ofProblem]
  cases p.error? with
  | none => rfl
  | some e =>
    simp only [Option.map_some, Option.bind_some, Json.get?, Json.lookup_cons_eq_ite,
      if_neg hmember, List.lookup_nil]

/-- An answer reports an assignment if the query was one and succeeded; it gives the last result. -/
theorem of_reported {t : Session} {line : Text} {e : Option Entry} {n : String}
    (h : (Response.ofExcept (entryAnswer t line e)).member? "variable_set" = some (.str n)) :
    ∃ entry expression, e = some entry ∧ entry.isFailure = false ∧
      Session.assignment? line = some (n, expression) ∧
      (Response.ofExcept (entryAnswer t line e)).member? "last_result" =
        some ((t.value? Session.lastName).getD .null) := by
  cases e with
  | none => cases h
  | some entry =>
    rw [entryAnswer] at h ⊢
    cases hfailure : entry.isFailure with
    | true =>
      rw [hfailure, if_pos rfl] at h
      cases (member?_ofProblem _ (by decide)).symm.trans h
    | false =>
      rw [hfailure, if_neg Bool.false_ne_true] at h
      cases hline : Session.assignment? line with
      | none =>
        rw [hline] at h
        cases h
      | some found =>
        obtain ⟨given, expression⟩ := found
        rw [hline] at h
        cases h
        exact ⟨entry, expression, rfl, hfailure, rfl, rfl⟩

/-- A calculation whose answer reports an assignment was carried out in a session that could be
loaded. -/
theorem of_calculateIn_reported {n : String}
    (h : (Response.ofExcept (calculateIn limits store name r).2).member? "variable_set" =
      some (.str n)) :
    ∃ line s, query r = .ok line ∧ loadSession limits store name = .ok s := by
  rw [calculateIn] at h
  cases hquery : query r with
  | error p =>
    rw [hquery] at h
    cases (member?_ofProblem p (by decide)).symm.trans h
  | ok line =>
    cases hload : loadSession limits store name with
    | error p =>
      rw [hquery, hload] at h
      cases (member?_ofProblem p (by decide)).symm.trans h
    | ok s => exact ⟨line, s, rfl, rfl⟩

theorem line?_of_query {line : Text} (h : query r = .ok line) :
    (Action.submit (String.ofList line)).line? = some (String.ofList line) := by
  obtain ⟨j, rfl, hne⟩ : ∃ j : Text, line = Text.strip j ∧ line.isEmpty = false := by
    obtain ⟨document, -, h⟩ := bind_eq_ok h
    simp only at h
    split at h
    · cases h
    · split at h
      · cases h
      · cases h
      · split at h
        · cases h
        · split at h
          · cases h
          next hne =>
            cases h
            exact ⟨_, rfl, by simpa using hne⟩
  simp only [Action.line?, String.toList_ofList, Query.strip_strip, hne, Bool.false_eq_true,
    if_false]

/-- The session of a query that reports an assignment, before and after it. -/
theorem Orderly.load_answer (h : Orderly limits store) (hroom : limits.history < 10 ^ digitLimit)
    (hcall : r.call? store.issued = some (name, .calculate (query r))) {line : Text}
    (hquery : query r = .ok line) (hload : loadSession limits store name = .ok s) :
    ∃ e, (s.submit (String.ofList line)).2 = .ok e ∧
      (Api.answer limits store r).2 =
        .ofExcept (entryAnswer (s.submit (String.ofList line)).1 line e) ∧
      loadSession limits (Api.answer limits store r).1 name =
        .ok (s.submit (String.ofList line)).1.joined := by
  have hs : Held limits s := h.load hroom hload
  have ht : Held limits (s.submit (String.ofList line)).1 := hs.submit _
  obtain ⟨e, he, hanswer⟩ := calculateIn_eq h.canWrite hquery hload hs.safe
  have hcarried : CarriedOut limits store r name (.calculate (query r)) := carriedOut_of_call? hcall
  generalize hcalculate : Call.calculate (query r) = call at hcarried
  cases hcarried with
  | calculate heq =>
    rw [heq, respond, hanswer]
    refine ⟨e, he, rfl, ?_⟩
    have hwrite : (store.put name (s.submit (String.ofList line)).1.snapshot.render).canWrite =
      true := h.canWrite
    apply loadSession_of_row hroom hwrite ht.safe ht.writable
    rw [Store.text?_put, if_pos rfl]
  | _ => cases hcalculate

/-- In a store that works and that has no rows but those made by requests, an answer that reports an
assignment gives the last result, and the session that is saved binds the name to it just if the
assignment came to a finite number and fewer names than are kept come behind the one that was set,
or if it came to none and the name had the value zero before. -/
theorem reported_assignment_iff {env : Settings.Environment} {settings : Settings}
    (hsettings : Settings.read env = .ok settings) (hwrite : store.canWrite = true)
    (hrows : store.rows = []) (requests : List Request) {line : Except Problem Text}
    (hcall : r.call? (storeAfter settings.limits store requests).issued =
      some (name, .calculate line)) {n : String}
    (hset : (answer settings.limits (storeAfter settings.limits store requests) r).2.member?
      "variable_set" = some (.str n)) :
    let saved := answer settings.limits (storeAfter settings.limits store requests) r
    ∃ before after text expression, ∃ x : Float,
      loadSession settings.limits (storeAfter settings.limits store requests) name = .ok before ∧
      loadSession settings.limits saved.1 name = .ok after ∧
      line = .ok text ∧ Session.assignment? text = some (n, expression) ∧
      saved.2.member? "last_result" = some (.float x) ∧
      (after.Binds n x ↔
        (∃ y, before.worth expression = .ok (some y)) ∧
          Text.countBehind n before.names < settings.limits.bindings ∨
        before.worth expression = .ok none ∧ before.Binds n 0) := by
  intro saved
  have hroom := Settings.history_limits_lt hsettings
  have h := (orderly_of_no_rows settings.limits hwrite hrows).after hroom requests
  have hcarried : CarriedOut settings.limits (storeAfter settings.limits store requests) r name
    (.calculate line) := carriedOut_of_call? hcall
  cases hcarried with
  | calculate heq =>
    have hreported := hset
    rw [heq, respond] at hreported
    obtain ⟨text, s, hquery, hload⟩ := of_calculateIn_reported hreported
    obtain ⟨e, he, hanswer, hafter⟩ := h.load_answer hroom hcall hquery hload
    have hs : Held settings.limits s := h.load hroom hload
    rw [hanswer] at hset
    obtain ⟨entry, expression, rfl, hsuccess, hline, hlast⟩ := of_reported hset
    have hclear : String.ofList text ≠ "clear" := by
      intro hclear
      have htext : text = "clear".toList := by rw [← hclear, String.toList_ofList]
      rw [htext] at hline
      cases hline
    obtain ⟨given, hgiven, halters⟩ := hs.safe.alters_submit (line?_of_query hquery) hclear
    rw [he] at hgiven
    cases hgiven
    rw [String.toList_ofList] at halters
    have hframed := halters.framed hs.safe hs.named hs.room
    obtain ⟨x, hx, hiff⟩ := hframed.binds_iff (hs.submit _).safe hline hsuccess
    rw [← hanswer, hx] at hlast
    exact ⟨s, _, text, expression, x, hload, hafter, hquery, hline, hlast, hiff⟩

/-! ### A first assignment -/

/-- A store in which one session has been created. -/
def firstStore (limits : Limits) : Store :=
  storeAfter limits { Store.empty with isOpen := true } [Request.ofLine "POST /sessions".toList]

/-- A request that assigns to a variable of that session. -/
def firstRequest : Request :=
  Request.ofLine "POST /sessions/session-1/calculate \x7b\"query\": \"a = 2\"\x7d".toList

/-- What the two requests ask for. -/
theorem read_firstRequests :
    Resource.ofPath? (addressPath (Request.ofLine "POST /sessions".toList).address) =
        some .sessions ∧
      (Request.ofLine "POST /sessions".toList).method = .post ∧
      Resource.ofPath? (addressPath firstRequest.address) = some (.sessionCalculator "session-1") ∧
      firstRequest.method = .post ∧ (query firstRequest).toOption = some "a = 2".toList ∧
      Session.assignment? "a = 2".toList = some ("a", "2".toList) ∧
      ((Session.fresh ⟨0, 0, 0⟩).worth "2".toList).toOption.join.isSome = true := by
  decide +kernel

theorem orderly_firstStore (hroom : limits.history < 10 ^ digitLimit) :
    Orderly limits (firstStore limits) :=
  (orderly_of_no_rows limits rfl rfl).after hroom _

theorem firstStore_eq (limits : Limits) :
    firstStore limits = ({ Store.empty with isOpen := true } : Store).issue.put "session-1"
      (Session.fresh limits).snapshot.render := by
  obtain ⟨hpath, hmethod, -⟩ := read_firstRequests
  have horderly : Orderly limits { Store.empty with isOpen := true } :=
    orderly_of_no_rows limits rfl rfl
  rw [firstStore, storeAfter, storeAfter, answer_of_knows hpath hmethod rfl (by decide), respond,
    handle, createSession,
    Store.create_eq (j := (Session.fresh limits).snapshot) horderly.canWrite horderly.names rfl]
  rfl

theorem load_firstStore (hroom : limits.history < 10 ^ digitLimit) :
    loadSession limits (firstStore limits) "session-1" = .ok (.fresh limits) := by
  have hfresh := held_fresh limits
  apply loadSession_of_row hroom (orderly_firstStore hroom).canWrite hfresh.safe hfresh.writable
  rw [firstStore_eq, Store.text?_put, if_pos rfl]

theorem query_firstRequest : query firstRequest = .ok "a = 2".toList := by
  obtain ⟨-, -, -, -, hquery, -⟩ := read_firstRequests
  cases hresult : query firstRequest with
  | error p =>
    rw [hresult] at hquery
    cases hquery
  | ok line =>
    rw [hresult] at hquery
    cases hquery
    rfl

theorem call?_firstRequest :
    firstRequest.call? (firstStore limits).issued =
      some ("session-1", .calculate (query firstRequest)) := by
  obtain ⟨-, -, hpath, hmethod, -⟩ := read_firstRequests
  simp only [Request.call?, hpath, hmethod]

theorem worth_first (limits : Limits) :
    ∃ x, (Session.fresh limits).worth "2".toList = .ok (some x) := by
  -- What an expression comes to depends on the variables only, not on the limits.
  have hsame : (Session.fresh limits).worth "2".toList = (Session.fresh ⟨0, 0, 0⟩).worth "2".toList :=
    rfl
  obtain ⟨-, -, -, -, -, -, hnumber⟩ := read_firstRequests
  rw [hsame]
  cases hworth : (Session.fresh ⟨0, 0, 0⟩).worth "2".toList with
  | error f =>
    rw [hworth] at hnumber
    cases hnumber
  | ok number =>
    rw [hworth] at hnumber
    cases number with
    | none => cases hnumber
    | some x => exact ⟨x, rfl⟩

theorem member?_firstRequest (hroom : limits.history < 10 ^ digitLimit) :
    (answer limits (firstStore limits) firstRequest).2.member? "variable_set" =
      some (.str "a") := by
  obtain ⟨-, -, -, -, -, hline, -⟩ := read_firstRequests
  obtain ⟨e, he, hanswer, -⟩ := (orderly_firstStore hroom).load_answer hroom call?_firstRequest
    query_firstRequest (load_firstStore hroom)
  obtain ⟨entry, hentry, halters⟩ := (Session.safe_fresh limits).alters_submit
    (line?_of_query query_firstRequest) (by decide)
  obtain ⟨x, hworth⟩ := worth_first limits
  rw [he] at hentry
  cases hentry
  rw [String.toList_ofList] at halters
  rw [hanswer, entryAnswer, halters.isFailure_eq_false hline hworth, if_neg Bool.false_ne_true,
    hline]
  rfl

/-- The first assignment is there if the session keeps fifty variables. -/
theorem reported_assignment_iff_first :
    ∃ settings after, Settings.read (fun _ => none) = .ok settings ∧
      loadSession settings.limits
        (answer settings.limits (firstStore settings.limits) firstRequest).1 "session-1" =
          .ok after ∧
      ∃ x, after.Binds "a" x := by
  obtain ⟨settings, hsettings, hlimits⟩ : ∃ settings, Settings.read (fun _ => none) = .ok settings ∧
      settings.limits = ⟨100, 50, 100⟩ := ⟨_, rfl, rfl⟩
  have hroom := Settings.history_limits_lt hsettings
  have hwrite : ({ Store.empty with isOpen := true } : Store).canWrite = true := rfl
  have hrows : ({ Store.empty with isOpen := true } : Store).rows = [] := rfl
  obtain ⟨before, after, text, expression, x, hbefore, hafter, htext, hline, -, hiff⟩ :=
    reported_assignment_iff hsettings hwrite hrows [Request.ofLine "POST /sessions".toList]
      call?_firstRequest (member?_firstRequest hroom)
  obtain rfl : Session.fresh settings.limits = before :=
    Except.ok.inj ((load_firstStore hroom).symm.trans hbefore)
  obtain rfl : "a = 2".toList = text := Except.ok.inj (query_firstRequest.symm.trans htext)
  obtain ⟨-, -, -, -, -, hfirst, -⟩ := read_firstRequests
  obtain ⟨-, rfl⟩ := Prod.mk.inj (Option.some.inj (hfirst.symm.trans hline))
  refine ⟨settings, after, hsettings, hafter, x, hiff.mpr (.inl ⟨worth_first _, ?_⟩)⟩
  rw [hlimits]
  decide

/-- The first assignment is reported, but it is not there if the session keeps no variables. -/
theorem reported_assignment_dropped :
    ∃ after, (answer ⟨100, 0, 100⟩ (firstStore ⟨100, 0, 100⟩) firstRequest).2.member?
        "variable_set" = some (.str "a") ∧
      loadSession ⟨100, 0, 100⟩
        (answer ⟨100, 0, 100⟩ (firstStore ⟨100, 0, 100⟩) firstRequest).1 "session-1" =
          .ok after ∧
      after.value? "a" = none := by
  have hroom : (⟨100, 0, 100⟩ : Limits).history < 10 ^ digitLimit :=
    Number.lt_pow_digitLimit (by decide)
  obtain ⟨e, -, -, hafter⟩ := (orderly_firstStore hroom).load_answer hroom call?_firstRequest
    query_firstRequest (load_firstStore hroom)
  refine ⟨_, member?_firstRequest hroom, hafter, ?_⟩
  decide +kernel

end DeskCalc.Api
