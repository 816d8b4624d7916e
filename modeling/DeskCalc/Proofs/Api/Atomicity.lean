import DeskCalc.Api.Line
import DeskCalc.Proofs.Api.Calls
import DeskCalc.Proofs.Attempt
import DeskCalc.Proofs.Store.Rows

/-!
# Requests that fail

A request that is refused leaves all rows as they are, whatever the rows hold and whatever is wrong
with the store.  A query whose expression is at fault is not refused: it has the status of a query
that is missing, but the session goes on from it and is saved.  The two are told apart by their
explanations, since no error of an expression is worded like a refusal.

A request that is not refused changes the row of its session at most.
-/

namespace DeskCalc

namespace Expression

/-- How the explanations begin with which requests are refused that ask for nothing that can be
done. -/
def refusalBeginnings : List Text :=
  ["Missing '".toList, "Query can".toList, "'directio".toList, "Variable ".toList]

/-- No error is worded like a refusal. -/
theorem Error.message_beginning (e : Error) :
    e.message.toList.take 9 ∉ refusalBeginnings := by
  have hquote {wording quoted : String} (hwording : wording.toList.take 9 ∉ refusalBeginnings)
      (hlength : 9 ≤ wording.toList.length) :
      (wording ++ quoted).toList.take 9 ∉ refusalBeginnings := by
    rwa [String.toList_append, List.take_append_of_le_length hlength]
  cases e with
  | unexpected rest => exact hquote (by decide) (by simp)
  | badNumber literal => exact hquote (by decide) (by simp)
  | unknownFunction name => exact hquote (by decide) (by simp)
  | unclosedGroup => decide
  | noOperand => decide
  | noArgument => decide
  | unclosedArgument => decide
  | tooDeep => decide
  | divisionByZero => decide
  | notFinite => decide

end Expression

namespace Session

variable {s : Session} {line : Text} {e : Entry}

/-! ## Entries of failures -/

/-- An entry of a failure bears the wording of an error. -/
def Explains (e : Entry) : Prop :=
  e.isFailure = true → ∃ f : Expression.Error, e.error = .str f.message

/-- If a line has given an entry, it explains its failure. -/
def GivesExplained (r : Submitted) : Prop :=
  ∀ e, r.2 = .ok (some e) → Explains e

theorem givesExplained_conclude (h : Explains e) : GivesExplained (s.conclude e) := by
  intro e' he'
  cases he'
  exact h

theorem explains_ofFailure (line : String) (f : Expression.Error) :
    Explains (Entry.ofFailure line f.message) :=
  fun _ => ⟨f, rfl⟩

theorem givesExplained_assign (s : Session) (line : Text) : GivesExplained (s.assign line) := by
  rw [Session.assign]
  split
  · exact nofun
  next name expression _ =>
    split
    next answer _ =>
      rw [Session.assignAnswer]
      split
      · exact nofun
      · exact givesExplained_conclude nofun
    · rw [Session.assignValue]
      split
      · exact nofun
      next f _ => exact givesExplained_conclude (explains_ofFailure _ f)
      · exact givesExplained_conclude nofun

theorem givesExplained_answerLine (s : Session) (line : Text) :
    GivesExplained (s.answerLine line) := by
  rw [Session.answerLine]
  split
  next answer _ =>
    rw [Session.concludeAnswer]
    split
    · exact nofun
    · exact givesExplained_conclude nofun
  · rw [Session.concludeExpression]
    split
    · exact nofun
    next f _ =>
      split
      · exact givesExplained_conclude (explains_ofFailure _ f)
      · exact nofun
    · exact givesExplained_conclude nofun

theorem givesExplained_submit (s : Session) (raw : String) : GivesExplained (s.submit raw) := by
  simp only [Session.submit]
  split
  · exact nofun
  · split
    · exact nofun
    · split
      next t e heq =>
        have hassign := givesExplained_assign
          { s.addHistory (String.ofList (Text.strip raw.toList)) with inputValue := "" }
          (Text.strip raw.toList)
        rw [heq] at hassign
        intro e' he'
        cases he'
        exact hassign e rfl
      · exact nofun
      · exact givesExplained_answerLine _ _

end Session

namespace Api

open Problem

/-! ## Refusals -/

/-- A response to a request that could not be carried out, or that asked for nothing that could
be. -/
def Response.IsRefusal (r : Response) : Prop :=
  r.status ∈ [404, 405, 500] ∨
    ∃ p ∈ [missingQuery, emptyQuery, noDirection, assignmentOutside], r = .ofProblem p

variable {limits : Limits} {store : Store} {r : Request} {name : String}

/-- A request that succeeded has not been refused. -/
theorem not_isRefusal_of_lt {response : Response} (h : response.status < 400) :
    ¬response.IsRefusal := by
  rintro (hstatus | ⟨p, hp, rfl⟩)
  · simp only [List.mem_cons, List.not_mem_nil, or_false] at hstatus
    omega
  · have hbad : p.status = 400 := by
      simp only [List.mem_cons, List.not_mem_nil, or_false] at hp
      rcases hp with rfl | rfl | rfl | rfl <;> rfl
    simp only [Response.ofProblem] at h
    omega

/-- What a handler answers that has found nothing wrong. -/
theorem not_isRefusal_ok {status : Nat} {body : Option Json} (h : status < 400) :
    ¬(Response.ofExcept (.ok ⟨status, body⟩)).IsRefusal :=
  not_isRefusal_of_lt h

/-- An error of an expression is no refusal. -/
theorem not_isRefusal_rejected (f : Expression.Error) :
    ¬(Response.ofProblem (rejected (.str f.message))).IsRefusal := by
  have hwording {wording : String}
      (h : Response.ofProblem (rejected (.str f.message)) =
        ⟨400, some (.object [("error", .str wording)])⟩) : f.message = wording := by
    simp only [Response.ofProblem, Problem.error?, Option.map_some, Response.mk.injEq,
      Option.some.injEq, Json.object.injEq, List.cons.injEq, Prod.mk.injEq, Json.str.injEq,
      true_and, and_true] at h
    exact h.2
  rintro (hstatus | ⟨p, hp, heq⟩)
  · simp [Response.ofProblem, Problem.status] at hstatus
  · have hbeginning := f.message_beginning
    simp only [List.mem_cons, List.not_mem_nil, or_false] at hp
    rcases hp with rfl | rfl | rfl | rfl
    all_goals
      rw [hwording heq] at hbeginning
      exact hbeginning (by decide)

/-! ## Handlers -/

/-- A handler that is asked to do something with the session of a name leaves all rows if it
refuses, and in any case those of all other names. -/
structure Atomic (name : String) (store : Store) (h : Handled) : Prop where
  refused : (Response.ofExcept h.2).IsRefusal → h.1.rows = store.rows
  others : ∀ n, n ≠ name → h.1.text? n = store.text? n

theorem atomic_of_rows_eq {h : Handled} (hrows : h.1.rows = store.rows) : Atomic name store h where
  refused _ := hrows
  others n _ := by rw [Store.text?, Store.text?, hrows]

theorem atomic_createSession (limits : Limits) (store : Store) :
    Atomic (Store.sessionName (store.issued + 1)) store (createSession limits store) := by
  rw [createSession]
  rcases store.create_cases (Session.fresh limits).snapshot with heq | ⟨-, text, heq⟩
  · rw [heq]
    exact atomic_of_rows_eq rfl
  · rw [heq]
    constructor
    · intro hrefusal
      exact absurd hrefusal (not_isRefusal_ok (by decide))
    · intro n hn
      rw [Store.text?_put, if_neg hn]
      rfl

/-- Creating a session leaves every row that there is. -/
theorem text?_createSession (limits : Limits) {n text : String} (h : store.text? n = some text) :
    (createSession limits store).1.text? n = some text := by
  rw [createSession]
  rcases store.create_cases (Session.fresh limits).snapshot with heq | ⟨hfree, _, heq⟩
  · rw [heq]
    exact h
  · have hn : n ≠ Store.sessionName (store.issued + 1) := by
      intro hname
      rw [hname, hfree] at h
      cases h
    rw [heq, Store.text?_put, if_neg hn]
    exact h

theorem atomic_deleteSession (store : Store) (name : String) :
    Atomic name store (deleteSession store name) := by
  rw [deleteSession]
  rcases store.delete_cases name with heq | heq
  · rw [heq]
    exact atomic_of_rows_eq rfl
  · rw [heq]
    constructor
    · intro hrefusal
      exact absurd hrefusal (not_isRefusal_ok (by decide))
    · intro n hn
      rw [Store.text?_drop, if_neg hn]

/-- A handler that saves before it answers is atomic if it then has no reason to refuse. -/
theorem atomic_save {j : Json} {answered : Except Problem Response}
    (h : ¬(Response.ofExcept answered).IsRefusal) :
    Atomic name store (match store.save name j with
      | (store, true) => (store, answered)
      | (store, false) => (store, .error .notSaved)) := by
  rcases store.save_cases name j with heq | heq
  · rw [heq]
    exact atomic_of_rows_eq rfl
  · rw [heq]
    constructor
    · intro hrefusal
      exact absurd hrefusal h
    · intro n hn
      rw [Store.text?_put, if_neg hn]

/-- Whatever an entry is answered with, an error of its expression included, it is no refusal. -/
theorem not_isRefusal_entryAnswer {s t : Session} {raw : String} {line : Text} {e : Option Entry}
    (h : (s.submit raw).2 = .ok e) :
    ¬(Response.ofExcept (entryAnswer t line e)).IsRefusal := by
  cases e with
  | none => exact not_isRefusal_ok (by decide)
  | some e =>
    rw [entryAnswer]
    split
    next hfailure =>
      obtain ⟨f, hf⟩ := s.givesExplained_submit raw e h hfailure
      rw [hf]
      exact not_isRefusal_rejected f
    · exact not_isRefusal_ok (by decide)

theorem atomic_calculateIn (limits : Limits) (store : Store) (name : String) (r : Request) :
    Atomic name store (calculateIn limits store name r) := by
  rw [calculateIn]
  split
  · exact atomic_of_rows_eq rfl
  · split
    · exact atomic_of_rows_eq rfl
    next heq => exact atomic_save (not_isRefusal_entryAnswer (congrArg Prod.snd heq))

theorem atomic_navigateIn (limits : Limits) (store : Store) (name : String) (r : Request) :
    Atomic name store (navigateIn limits store name r) := by
  rw [navigateIn]
  split
  · exact atomic_of_rows_eq rfl
  · exact atomic_save (not_isRefusal_ok (by decide))

/-! ## Requests -/

theorem atomic_of_call? {call : Call} (hcall : r.call? store.issued = some (name, call)) :
    ∃ h, answer limits store r = respond h ∧ Atomic name store h := by
  have hcarried : CarriedOut limits store r name call := carriedOut_of_call? hcall
  cases hcarried with
  | create heq => exact ⟨_, heq, atomic_createSession limits store⟩
  | inspect heq => exact ⟨_, heq, atomic_of_rows_eq rfl⟩
  | discard heq => exact ⟨_, heq, atomic_deleteSession store name⟩
  | calculate heq => exact ⟨_, heq, atomic_calculateIn limits store name r⟩
  | navigate heq => exact ⟨_, heq, atomic_navigateIn limits store name r⟩

/-- Whether a request may change the row of a name.  It may if it is a call to this session; but
asking for its variables changes nothing, and a session is created only where there is no row. -/
def Request.MayChange (store : Store) (r : Request) (name : String) : Prop :=
  match r.call? store.issued with
  | none => False
  | some (_, .inspect) => False
  | some (n, .create) => name = n ∧ store.text? name = none
  | some (n, _) => name = n

/-- A request that is refused leaves all rows of the store, whatever they hold and whatever state
the store is in.  Any other request changes at most the row of the session that it is for. -/
theorem answer_atomic (limits : Limits) (store : Store) (r : Request) :
    ((answer limits store r).2.IsRefusal → (answer limits store r).1.rows = store.rows) ∧
    ∀ name, ¬r.MayChange store name →
      (answer limits store r).1.text? name = store.text? name := by
  cases hcall : r.call? store.issued with
  | none =>
    rw [answer_of_call?_eq_none hcall]
    exact ⟨fun _ => rfl, fun _ _ => rfl⟩
  | some c =>
    obtain ⟨n, call⟩ := c
    obtain ⟨h, hanswer, hatomic⟩ : ∃ h, answer limits store r = respond h ∧ Atomic n store h :=
      atomic_of_call? hcall
    constructor
    · rw [hanswer]
      exact hatomic.refused
    · intro name hnot
      by_cases hn : name = n
      · subst hn
        have hcarried : CarriedOut limits store r name call := carriedOut_of_call? hcall
        rw [Request.MayChange, hcall] at hnot
        cases hcarried with
        | create heq =>
          obtain ⟨text, htext⟩ := Option.ne_none_iff_exists'.mp fun hfree => hnot ⟨rfl, hfree⟩
          rw [heq, htext]
          exact text?_createSession limits htext
        | inspect heq => rw [heq, respond]
        | discard => exact absurd rfl hnot
        | calculate => exact absurd rfl hnot
        | navigate => exact absurd rfl hnot
      · rw [hanswer]
        exact hatomic.others name hn

/-- An error in a session whose row holds no document is not saved if the rows are protected. -/
theorem answer_atomic_protected :
    let store : Store := ⟨[("a", "?"), ("b", "null")], true, false, true, 0⟩
    let r := Request.ofLine "POST /sessions/a/calculate \x7b\"query\": \"1 +\"\x7d".toList
    (answer ⟨9, 9, 9⟩ store r).2.IsRefusal ∧ (answer ⟨9, 9, 9⟩ store r).1.rows = store.rows ∧
      ¬r.MayChange store "b" ∧ (answer ⟨9, 9, 9⟩ store r).1.text? "b" = some "null" := by
  intro store r
  have hrefusal : (answer ⟨9, 9, 9⟩ store r).2.IsRefusal := .inl (by decide +kernel)
  have hother : ¬r.MayChange store "b" := by
    have hpath : Resource.ofPath? (addressPath r.address) = some (.sessionCalculator "a") := by
      decide +kernel
    have hmethod : r.method = .post := by decide +kernel
    simp only [Request.MayChange, Request.call?, hpath, hmethod]
    decide
  have hatomic := answer_atomic ⟨9, 9, 9⟩ store r
  exact ⟨hrefusal, hatomic.1 hrefusal, hother, hatomic.2 "b" hother⟩

end Api
end DeskCalc
