import DeskCalc.Proofs.Api.Assignments

/-!
# Documents that are asked for a query

A calculation takes its query from the document of the request.  Any document will do that is an
object, that is empty or that plainly lacks a query: what is wrong with it or with its query is then
reported to the client.  Numbers, true, and lists and strings in which the word for the query occurs
are neither; asking them for the query breaks the request off, and nothing is reported or saved.

The main definitions are `Json.Misleads` and `Request.Misleads`.
-/

namespace DeskCalc

/-- The document is not empty and not an object, but it does not plainly lack a query either. -/
def Json.Misleads : Json → Prop
  | null => False
  | bool b => b = true
  | int n => n ≠ 0
  | float x => (x == 0) = false
  | str s => Text.occursIn "query".toList s.toList = true
  | list items => .str "query" ∈ items
  | object _ => False

namespace Api

/-- The request carries a document that misleads, or one that is nested too deeply to be read. -/
def Request.Misleads (r : Request) : Prop :=
  match r.document with
  | .error _ => True
  | .ok none => False
  | .ok (some j) => j.Misleads

variable {limits : Limits} {store : Store} {r : Request} {name : String} {s : Session}

/-! ## Queries of documents -/

theorem matches_query_iff {j : Json} : (j matches .str "query") = true ↔ j = .str "query" := by
  split
  · simp
  next hne =>
    constructor
    · exact nofun
    · exact fun heq => (hne heq).elim

theorem any_query_iff {items : List Json} :
    (items.any fun j => j matches .str "query") = true ↔ .str "query" ∈ items := by
  rw [List.any_eq_true]
  constructor
  · rintro ⟨j, hmem, hj⟩
    rwa [← matches_query_iff.mp hj]
  · exact fun hmem => ⟨_, hmem, matches_query_iff.mpr rfl⟩

/-- A document misleads if it is not empty and cannot be asked for a query, or seems to have one
without being an object. -/
theorem misleads_iff (j : Json) : j.Misleads ↔ j.isEmpty = false ∧
    (hasQuery? j = none ∨ hasQuery? j = some true ∧ j.get? "query" = none) := by
  cases j with
  | null => simp [Json.Misleads, Json.isEmpty]
  | bool b => simp [Json.Misleads, Json.isEmpty, hasQuery?]
  | int n => simp [Json.Misleads, Json.isEmpty, hasQuery?]
  | float x => simp [Json.Misleads, Json.isEmpty, hasQuery?]
  | str s =>
    have hempty : Text.occursIn "query".toList "".toList = false := by decide
    simp only [Json.Misleads, Json.isEmpty, hasQuery?, Json.get?, Option.some.injEq, reduceCtorEq,
      false_or, and_true]
    constructor
    · intro hoccurs
      refine ⟨?_, hoccurs⟩
      by_contra hs
      rw [Bool.not_eq_false, String.isEmpty_iff] at hs
      rw [hs, hempty] at hoccurs
      cases hoccurs
    · exact And.right
  | list items =>
    simp only [Json.Misleads, Json.isEmpty, hasQuery?, Json.get?, Option.some.injEq, reduceCtorEq,
      false_or, and_true]
    constructor
    · exact fun hmem => ⟨by cases hmem <;> rfl, any_query_iff.mpr hmem⟩
    · exact fun h => any_query_iff.mp h.2
  | object members =>
    simp only [Json.Misleads, hasQuery?, Json.get?, Option.some.injEq, reduceCtorEq, false_or,
      false_iff, not_and]
    intro _ hsome hnone
    rw [hnone] at hsome
    cases hsome

instance : DecidablePred Json.Misleads := fun j =>
  decidable_of_iff _ (misleads_iff j).symm

instance : DecidablePred Request.Misleads := fun r =>
  match h : r.document with
  | .error _ => .isTrue (by rw [Request.Misleads, h]; trivial)
  | .ok none => .isFalse (by rw [Request.Misleads, h]; exact id)
  | .ok (some j) => decidable_of_iff j.Misleads (by rw [Request.Misleads, h])

/-- If there is a problem, it is the client's. -/
def ClientSide (result : Except Problem Text) : Prop :=
  ∀ p, result = .error p → p.status = 400

theorem clientSide_error {p : Problem} (h : p.status = 400) : ClientSide (.error p) := by
  intro q hq
  cases hq
  exact h

theorem clientSide_ok (line : Text) : ClientSide (.ok line) := by
  intro q hq
  cases hq

/-- The query of a document, by what is asked of it. -/
theorem query_eq {j : Json} (h : r.document = .ok (some j)) : query r =
    if j.isEmpty then .error .missingQuery
    else (hasQuery? j).elim (.error .unexpected) fun asked =>
      if asked then
        (j.get? "query").elim (.error .unexpected) fun member =>
          if (Text.strip member.plain).isEmpty then .error .emptyQuery
          else .ok (Text.strip member.plain)
      else .error .missingQuery := by
  simp only [query, carried, h, Except.mapError, bind, Except.bind, Option.getD_some]
  cases hasQuery? j with
  | none => rfl
  | some asked =>
    cases asked with
    | false => rfl
    | true =>
      cases j.get? "query" with
      | none => rfl
      | some member => rfl

/-- A document that misleads breaks the request off; what is wrong with the query of any other is the
client's. -/
theorem query_document {j : Json} (h : r.document = .ok (some j)) :
    (j.Misleads → query r = .error .unexpected) ∧ (¬j.Misleads → ClientSide (query r)) := by
  rw [query_eq h, misleads_iff]
  constructor
  · rintro ⟨hempty, hnone | ⟨hsome, hmember⟩⟩
    · rw [hempty, hnone]
      rfl
    · rw [hempty, hsome, hmember]
      rfl
  · intro hnot
    cases hempty : j.isEmpty with
    | true => exact clientSide_error rfl
    | false =>
      rw [if_neg Bool.false_ne_true]
      cases hquery : hasQuery? j with
      | none => exact absurd ⟨hempty, .inl hquery⟩ hnot
      | some asked =>
        rw [Option.elim_some]
        cases asked with
        | false => exact clientSide_error rfl
        | true =>
          rw [if_pos rfl]
          cases hmember : j.get? "query" with
          | none => exact absurd ⟨hempty, .inr ⟨hquery, hmember⟩⟩ hnot
          | some member =>
            rw [Option.elim_some]
            split
            · exact clientSide_error rfl
            · exact clientSide_ok _

theorem query_of_misleads (h : r.Misleads) : query r = .error .unexpected := by
  rw [Request.Misleads] at h
  split at h
  next f hdocument =>
    rw [query, carried, hdocument]
    rfl
  · cases h
  next j hdocument => exact (query_document hdocument).1 h

theorem clientSide_query (h : ¬r.Misleads) : ClientSide (query r) := by
  rw [Request.Misleads] at h
  split at h
  · exact absurd trivial h
  next hdocument =>
    rw [query, carried, hdocument]
    exact clientSide_error rfl
  next j hdocument => exact (query_document hdocument).2 h

/-! ## The status of an answer -/

theorem status_entryAnswer (t : Session) (line : Text) (e : Option Entry) :
    (Response.ofExcept (entryAnswer t line e)).status ∈ [200, 400] := by
  cases e with
  | none => exact List.mem_cons_self
  | some e =>
    rw [entryAnswer]
    split
    · exact List.mem_cons_of_mem _ List.mem_cons_self
    · exact List.mem_cons_self

/-- Without a session, a query that can be read is answered or refused. -/
theorem status_calculate (limits : Limits) (h : ¬r.Misleads) :
    (Response.ofExcept (calculate limits r)).status ∈ [200, 400] := by
  have hbad {p : Problem} (hp : p.status = 400) :
      (Response.ofExcept (.error p)).status ∈ [200, 400] :=
    List.mem_cons_of_mem _ (List.mem_singleton.mpr hp)
  cases hquery : query r with
  | error p =>
    rw [calculate, hquery]
    exact hbad (clientSide_query h p hquery)
  | ok line =>
    obtain ⟨-, e, he⟩ := (Session.safe_fresh limits).submit (String.ofList line)
    simp only [calculate, hquery, bind, Except.bind, he]
    split
    · exact hbad rfl
    · cases e with
      | none => exact List.mem_cons_self
      | some e =>
        simp only [pure, Except.pure]
        split
        · exact hbad rfl
        · exact List.mem_cons_self

/-- In a session that is not there, a query that can be read finds it missing. -/
theorem status_calculateIn_of_none (hrow : store.text? name = none) (h : ¬r.Misleads) :
    (Response.ofExcept (calculateIn limits store name r).2).status ∈ [400, 404] := by
  cases hquery : query r with
  | error p =>
    rw [calculateIn, hquery]
    exact clientSide_query h p hquery ▸ List.mem_cons_self
  | ok line =>
    rw [calculateIn, hquery, loadSession_of_none hrow]
    exact List.mem_cons_of_mem _ List.mem_cons_self

/-- A session that requests have made is loaded. -/
theorem Orderly.loadSession_of_text? (h : Orderly limits store)
    (hroom : limits.history < 10 ^ Number.digitLimit) {text : String}
    (hrow : store.text? name = some text) : ∃ s, loadSession limits store name = .ok s ∧
      Session.Safe limits s := by
  obtain ⟨t, ht, rfl⟩ := h.rows name text hrow
  exact ⟨_, loadSession_of_row hroom h.canWrite ht.safe ht.writable hrow, ht.joined.safe⟩

/-- In a session that is there, a query that can be read is answered or refused. -/
theorem Orderly.status_calculateIn (h : Orderly limits store)
    (hroom : limits.history < 10 ^ Number.digitLimit) {text : String}
    (hrow : store.text? name = some text) (hr : ¬r.Misleads) :
    (Response.ofExcept (calculateIn limits store name r).2).status ∈ [200, 400] := by
  obtain ⟨s, hload, hsafe⟩ := h.loadSession_of_text? hroom hrow
  cases hquery : query r with
  | error p =>
    rw [calculateIn, hquery]
    exact List.mem_cons_of_mem _ (List.mem_singleton.mpr (clientSide_query hr p hquery))
  | ok line =>
    obtain ⟨e, -, hanswer⟩ := calculateIn_eq h.canWrite hquery hload hsafe
    rw [hanswer]
    exact status_entryAnswer _ line e

/-- The resource is a calculator, with a session or without one. -/
def Resource.Calculates : Resource → Prop
  | calculator => True
  | sessionCalculator _ => True
  | _ => False

theorem Resource.Calculates.knows {resource : Resource} (h : resource.Calculates) :
    resource.knows .post = true := by
  cases resource with
  | calculator => rfl
  | sessionCalculator name => rfl
  | _ => cases h

theorem handle_of_misleads {resource : Resource} (hresource : resource.Calculates)
    (h : r.Misleads) : handle limits store r resource = (store, .error .unexpected) := by
  have hquery := query_of_misleads h
  cases resource with
  | calculator => rw [handle, calculate, hquery]; rfl
  | sessionCalculator name => rw [handle, calculateIn, hquery]; rfl
  | _ => cases hresource

/-- In a store that works and that has no rows but those made by requests, a calculation whose
document misleads ends with an internal error and leaves the store.  Any other calculation is
answered, or refused as the client's fault, or finds its session missing. -/
theorem status_of_calculation {env : Settings.Environment} {settings : Settings}
    (hsettings : Settings.read env = .ok settings) (hwrite : store.canWrite = true)
    (hrows : store.rows = []) (requests : List Request) {resource : Resource}
    (hpath : Resource.ofPath? (addressPath r.address) = some resource)
    (hresource : resource.Calculates) (hmethod : r.method = .post) :
    let before := storeAfter settings.limits store requests
    let answered := answer settings.limits before r
    (r.Misleads → answered.2.status = 500 ∧ answered.1 = before) ∧
    (¬r.Misleads → answered.2.status ∈ [200, 400] ∨
      answered.2.status = 404 ∧
        ∃ name, resource = .sessionCalculator name ∧ before.text? name = none) := by
  intro before answered
  have hroom := Settings.history_limits_lt hsettings
  have h : Orderly settings.limits before :=
    (orderly_of_no_rows settings.limits hwrite hrows).after hroom requests
  have hanswer : answered = respond (handle settings.limits before r resource) :=
    answer_of_knows hpath hmethod hresource.knows (by decide)
  rw [hanswer]
  constructor
  · intro hmisleads
    rw [handle_of_misleads hresource hmisleads]
    exact ⟨rfl, rfl⟩
  · intro hnot
    cases resource with
    | calculator => exact .inl (status_calculate settings.limits hnot)
    | sessionCalculator name =>
      cases hrow : before.text? name with
      | none =>
        have hstatus := @status_calculateIn_of_none settings.limits _ _ _ hrow hnot
        rcases List.mem_cons.mp hstatus with hstatus | hstatus
        · exact .inl (List.mem_cons_of_mem _ (List.mem_singleton.mpr hstatus))
        · exact .inr ⟨List.mem_singleton.mp hstatus, name, rfl, hrow⟩
      | some text => exact .inl (h.status_calculateIn hroom hrow hnot)
    | _ => cases hresource

/-- A number in place of an object breaks a calculation off in a session that is there. -/
theorem status_of_calculation_number :
    let r := Request.ofLine "POST /sessions/session-1/calculate 5".toList
    ∃ settings, Settings.read (fun _ => none) = .ok settings ∧
      Resource.ofPath? (addressPath r.address) = some (.sessionCalculator "session-1") ∧
      r.method = .post ∧ r.Misleads ∧
      (answer settings.limits (firstStore settings.limits) r).2.status = 500 ∧
      (answer settings.limits (firstStore settings.limits) r).1 = firstStore settings.limits := by
  intro r
  obtain ⟨settings, hsettings⟩ : ∃ settings, Settings.read (fun _ => none) = .ok settings :=
    ⟨_, rfl⟩
  have hpath : Resource.ofPath? (addressPath r.address) = some (.sessionCalculator "session-1") := by
    decide +kernel
  have hmethod : r.method = .post := by decide +kernel
  have hmisleads : r.Misleads := by decide +kernel
  have hwrite : ({ Store.empty with isOpen := true } : Store).canWrite = true := rfl
  have hrows : ({ Store.empty with isOpen := true } : Store).rows = [] := rfl
  obtain ⟨hstatus, hstore⟩ := (status_of_calculation hsettings hwrite hrows
    [Request.ofLine "POST /sessions".toList] hpath trivial hmethod).1 hmisleads
  exact ⟨settings, hsettings, hpath, hmethod, hmisleads, hstatus, hstore⟩

/-- The same number breaks a calculation off without a session, and so do true, a list with the word
and the word alone; null, zero and false are found to have no query. -/
theorem misleading_documents :
    ["5", "true", "[\"query\"]", "\"query\"", "null", "0", "false", "[]"].map (fun document =>
      let r := Request.ofLine ("POST /calculate ".toList ++ document.toList)
      (answer ⟨9, 9, 9⟩ { Store.empty with isOpen := true } r).2.status) =
    [500, 500, 500, 500, 400, 400, 400, 400] := by
  decide +kernel

end Api
end DeskCalc
