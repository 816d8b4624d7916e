import DeskCalc.Api.Answer

/-!
# Calls to sessions

A request may ask something of one session.  `Request.call?` tells which session that is and what is
asked, by the method, the address and the document of the request alone.

`Call.reply` answers calls to one session that stays in memory, from its creation to its deletion.
It knows neither the store nor documents that a session is saved as, and it says what the answers to
requests should be.
-/

namespace DeskCalc.Api

/-- What a request asks of a session. -/
inductive Call where
  | create
  /-- asks for the variables and the history -/
  | inspect
  | discard
  /-- submits a stripped query, unless the request has none -/
  | calculate (line : Except Problem Text)
  /-- steps through the history, unless the request gives no step -/
  | navigate (step : Except Problem Int)

/-- The session that a request is for, and what it asks of it.  A session that is to be created gets
the next name. -/
def Request.call? (issued : Nat) (r : Request) : Option (String × Call) :=
  match Resource.ofPath? (addressPath r.address), r.method with
  | some .sessions, .post => some (Store.sessionName (issued + 1), .create)
  | some (.session name), .get => some (name, .inspect)
  | some (.session name), .delete => some (name, .discard)
  | some (.sessionCalculator name), .post => some (name, .calculate (query r))
  | some (.sessionHistory name), .post => some (name, .navigate (direction r))
  | _, _ => none

/-- How many names have been given out after a request. -/
def Request.issuedAfter (issued : Nat) (r : Request) : Nat :=
  match r.call? issued with
  | some (_, .create) => issued + 1
  | _ => issued

/-- The calls to one session in a row of requests. -/
def callsTo (name : String) : Nat → List Request → List Call
  | _, [] => []
  | issued, r :: requests =>
    let later := callsTo name (r.issuedAfter issued) requests
    match r.call? issued with
    | some (n, call) => if n = name then call :: later else later
    | none => later

/-- Whether a request is for a session. -/
def Request.isFor (name : String) (issued : Nat) (r : Request) : Bool :=
  (r.call? issued).any fun (n, _) => n == name

/-- The responses to those of a row of requests that are for one session. -/
def responsesTo (limits : Limits) (name : String) : Store → List Request → List Response
  | _, [] => []
  | store, r :: requests =>
    let (next, response) := answer limits store r
    let later := responsesTo limits name next requests
    if r.isFor name store.issued then response :: later else later

/-! ## A session in memory -/

/-- The session after a call, if there is one, and the answer to the call. -/
def Call.reply (limits : Limits) (name : String) :
    Call → Option Session → Option Session × Except Problem Response
  | .create, _ =>
    (some (Session.fresh limits), .ok ⟨201, some (.object [("session_id", .str name)])⟩)
  | .inspect, some s =>
    (some s,
      .ok (.success [("variables", .object s.bindings), ("history", .list (s.history.map .str))]))
  | .inspect, none => (none, .error (.unknownSession name))
  | .discard, some _ => (none, .ok ⟨204, none⟩)
  | .discard, none => (none, .error (.notDeleted name))
  | .calculate (.error p), s => (s, .error p)
  | .calculate (.ok _), none => (none, .error (.unknownSession name))
  | .calculate (.ok line), some s =>
    match s.submit (String.ofList line) with
    | (_, .error _) => (some s, .error .brokenOff)
    | (t, .ok e) => (some t, entryAnswer t line e)
  | .navigate (.error p), s => (s, .error p)
  | .navigate (.ok _), none => (none, .error (.unknownSession name))
  | .navigate (.ok step), some s =>
    let (t, line) := s.navigate step
    (some t, .ok (.success [("input", .str line), ("index", t.cursor.toJson)]))

/-- The responses to a row of calls. -/
def replies (limits : Limits) (name : String) : Option Session → List Call → List Response
  | _, [] => []
  | s, call :: calls =>
    let (next, result) := call.reply limits name s
    .ofExcept result :: replies limits name next calls

/-- What a client gets: the status, and the document that it reads from the body. -/
def Response.received (r : Response) : Nat × Option (Except Json.ReadError Json) :=
  (r.status, r.body.map fun j => Json.read j.render.toList)

/-! ## Requests by their calls -/

/-- What a handler leaves, and the response that it gives. -/
def respond (h : Handled) : Store × Response :=
  (h.1, .ofExcept h.2)

variable {limits : Limits} {store : Store} {r : Request}

/-- How a request that is a call is carried out: by the handler of its resource. -/
inductive CarriedOut (limits : Limits) (store : Store) (r : Request) : String → Call → Prop
  | create (h : answer limits store r = respond (createSession limits store)) :
    CarriedOut limits store r (Store.sessionName (store.issued + 1)) .create
  | inspect {name : String}
    (h : answer limits store r = respond (store, showSession limits store name)) :
    CarriedOut limits store r name .inspect
  | discard {name : String} (h : answer limits store r = respond (deleteSession store name)) :
    CarriedOut limits store r name .discard
  | calculate {name : String}
    (h : answer limits store r = respond (calculateIn limits store name r)) :
    CarriedOut limits store r name (.calculate (query r))
  | navigate {name : String}
    (h : answer limits store r = respond (navigateIn limits store name r)) :
    CarriedOut limits store r name (.navigate (direction r))

theorem answer_of_knows {resource : Resource} {m : Method}
    (hpath : Resource.ofPath? (addressPath r.address) = some resource) (hmethod : r.method = m)
    (hknows : resource.knows m = true) (hm : m ≠ .options ∧ m ≠ .head) :
    answer limits store r = respond (handle limits store r resource) := by
  simp only [answer, hpath, hmethod, hknows, Bool.not_true, Bool.false_eq_true, if_false, hm.1,
    hm.2]
  rfl

theorem carriedOut_of_call? {name : String} {call : Call}
    (h : r.call? store.issued = some (name, call)) : CarriedOut limits store r name call := by
  unfold Request.call? at h
  split at h
  next hpath hmethod =>
    cases h
    exact .create (answer_of_knows hpath hmethod rfl (by decide))
  next hpath hmethod =>
    cases h
    have hanswer : answer limits store r = respond (handle limits store r _) :=
      answer_of_knows hpath hmethod rfl (by decide)
    rw [handle, if_neg (by rw [hmethod]; decide)] at hanswer
    exact .inspect hanswer
  next hpath hmethod =>
    cases h
    have hanswer : answer limits store r = respond (handle limits store r _) :=
      answer_of_knows hpath hmethod rfl (by decide)
    rw [handle, if_pos hmethod] at hanswer
    exact .discard hanswer
  next hpath hmethod =>
    cases h
    exact .calculate (answer_of_knows hpath hmethod rfl (by decide))
  next hpath hmethod =>
    cases h
    exact .navigate (answer_of_knows hpath hmethod rfl (by decide))
  · cases h

/-- A request that is no call leaves the store. -/
theorem answer_of_call?_eq_none (h : r.call? store.issued = none) :
    (answer limits store r).1 = store := by
  unfold Request.call? at h
  simp only [answer]
  cases hpath : Resource.ofPath? (addressPath r.address) with
  | none => rfl
  | some resource =>
    cases hmethod : r.method
    all_goals cases resource
    all_goals simp [hpath, hmethod] at h
    all_goals simp [Resource.knows, handle, hmethod]

end DeskCalc.Api
