import DeskCalc.Proofs.Session.Log
import DeskCalc.Proofs.Session.Reload
import DeskCalc.Proofs.Text.Order

/-!
# Lines and variables

What a line does to the variables depends on what it is and on what it comes to.  `Alters` says
this once for all lines that are entered: an assignment sets its name and the last result if it
comes to a finite number, any other line sets the last result at most, and a failure sets nothing.
After an assignment the variables are limited, whatever it came to.

The variables that stay when they are limited are told without sorting: a name stays if fewer names
come behind it than the session keeps.

Nothing else limits variables.  A restored session has all those of its document, and they stay
until an assignment or a `clear` is entered.
-/

namespace DeskCalc

/-- An action that limits the variables: it enters an assignment or a `clear`. -/
def Action.Limiting (a : Action) : Prop :=
  ∃ line, a.line? = some line ∧
    (line = "clear" ∨ (Session.assignment? line.toList).isSome = true)

namespace Session

open Text (countBehind)

variable {limits : Limits} {s : Session} {line : Text} {e : Entry}

/-! ## What a line does -/

/-- The number that a query or an expression comes to.  The answer to a query may have none that is
finite, and an expression may have no value at all. -/
def worth (s : Session) (expression : Text) : Except Failure (Option Float) :=
  match queryAnswer? expression with
  | some answer => (finiteAnswer answer).mapError .fault
  | none => (s.evaluate expression).map some

/-- What a line that was entered into a session has made of the variables, along with its entry. -/
inductive Alters (s : Session) (line : Text) (e : Entry) : List (String × Json) → Prop
  | shows (hline : assignment? line = none) (he : e.isFailure = false) (x : Float) :
    Alters s line e (s.setLast x).bindings
  | leaves (hline : assignment? line = none) (he : e.isFailure = true) : Alters s line e s.bindings
  | assigns {name : String} {expression : Text} {x : Float}
    (hline : assignment? line = some (name, expression)) (he : e.isFailure = false)
    (hx : s.worth expression = .ok (some x)) :
    Alters s line e ((s.setVariable name (.float x)).setLast x).limitVariables.bindings
  | misses {name : String} {expression : Text}
    (hline : assignment? line = some (name, expression)) (he : e.isFailure = false)
    (hx : s.worth expression = .ok none) :
    Alters s line e (s.setLast 0).limitVariables.bindings
  | fails {name : String} {expression : Text} {f : Expression.Error}
    (hline : assignment? line = some (name, expression)) (he : e.isFailure = true)
    (hx : s.worth expression = .error (.expression f)) :
    Alters s line e s.limitVariables.bindings

/-- An assignment gives an entry and a session in which the variables are still to be limited. -/
theorem Safe.alters_assign (h : Safe limits s) {name : String} {expression : Text}
    (hline : assignment? line = some (name, expression)) :
    ∃ t e, s.assign line = (t, .ok (some e)) ∧ s.Alters line e t.limitVariables.bindings := by
  simp only [Session.assign, hline]
  cases hanswer : queryAnswer? expression with
  | some answer =>
    obtain ⟨number, hnumber, -⟩ := finiteAnswer_of_queryAnswer? hanswer
    have hworth : s.worth expression = .ok number := by
      simp only [worth, hanswer, hnumber, Except.mapError]
    simp only [Session.assignAnswer, hnumber]
    cases number with
    | some x => exact ⟨_, _, rfl, .assigns hline rfl hworth⟩
    | none => exact ⟨_, _, rfl, .misses hline rfl hworth⟩
  | none =>
    simp only [Session.assignValue]
    rcases evaluate_cases h.numeric expression with ⟨x, hx, -⟩ | ⟨f, hf⟩
    · have hworth : s.worth expression = .ok (some x) := by
        simp only [worth, hanswer, hx, Except.map]
      rw [hx]
      exact ⟨_, _, rfl, .assigns hline rfl hworth⟩
    · have hworth : s.worth expression = .error (.expression f) := by
        simp only [worth, hanswer, hf, Except.map]
      rw [hf]
      exact ⟨_, _, rfl, .fails hline rfl hworth⟩

theorem Safe.alters_answerLine (h : Safe limits s) (hline : assignment? line = none) :
    ∃ e, (s.answerLine line).2 = .ok (some e) ∧ s.Alters line e (s.answerLine line).1.bindings := by
  rw [Session.answerLine]
  cases hanswer : queryAnswer? line with
  | some answer =>
    obtain ⟨number, hnumber, -⟩ := finiteAnswer_of_queryAnswer? hanswer
    simp only [Session.concludeAnswer, hnumber]
    exact ⟨_, rfl, .shows hline rfl _⟩
  | none =>
    simp only [Session.concludeExpression]
    rcases evaluate_cases h.numeric (if continuesLast line then '@' :: line else line) with
      ⟨x, hx, -⟩ | ⟨f, hf⟩
    · rw [hx]
      exact ⟨_, rfl, .shows hline rfl x⟩
    · simp only [hf, mendLast_eq h.numeric]
      exact ⟨_, rfl, .leaves hline rfl⟩

/-- Entering a line leaves everything that matters to the variables. -/
theorem Alters.of_entered {entered : String} {bindings : List (String × Json)}
    (h : Alters { s.addHistory entered with inputValue := "" } line e bindings) :
    s.Alters line e bindings := by
  cases h with
  | shows hline he x => exact .shows hline he x
  | leaves hline he => exact .leaves hline he
  | assigns hline he hx => exact .assigns hline he hx
  | misses hline he hx => exact .misses hline he hx
  | fails hline he hx => exact .fails hline he hx

/-- Whatever is entered, the variables are altered as the line and its entry say. -/
theorem Safe.alters_submit (h : Safe limits s) {raw line : String}
    (hraw : (Action.submit raw).line? = some line) (hclear : line ≠ "clear") :
    ∃ e, (s.submit raw).2 = .ok (some e) ∧
      s.Alters line.toList e (s.submit raw).1.bindings := by
  obtain ⟨hstrip, hne⟩ := strip_of_line? hraw
  have hother : line.toList ≠ "clear".toList := fun heq => hclear (String.toList_inj.mp heq)
  have hentered : Safe limits { s.addHistory line with inputValue := "" } :=
    { h.addHistory line with }
  simp only [Session.submit, hstrip, hne, Bool.false_eq_true, if_false, if_neg hother,
    String.ofList_toList]
  cases hline : assignment? line.toList with
  | none =>
    obtain ⟨e, he, halters⟩ := hentered.alters_answerLine hline
    simp only [Session.assign, hline]
    exact ⟨e, he, halters.of_entered⟩
  | some found =>
    obtain ⟨t, e, hassign, halters⟩ := hentered.alters_assign hline
    rw [hassign]
    exact ⟨e, rfl, halters.of_entered⟩

/-! ## Names -/

variable {bindings : List (String × Json)} {name : String}

/-- The names of variables besides the last result. -/
def namesOf (bindings : List (String × Json)) : List String :=
  (bindings.map Prod.fst).filter (· ≠ lastName)

theorem names_eq_namesOf (s : Session) : s.names = namesOf s.bindings :=
  rfl

theorem mem_namesOf : name ∈ namesOf bindings ↔ name ∈ bindings.map Prod.fst ∧ name ≠ lastName := by
  rw [namesOf, List.mem_filter, decide_eq_true_iff]

/-- Variables with different names, each of which a document can hold. -/
structure Named (bindings : List (String × Json)) : Prop where
  distinct : (bindings.map Prod.fst).Nodup
  storable : ∀ name ∈ bindings.map Prod.fst, Text.Storable name.toList

theorem Named.setMember (h : Named bindings) (hname : Text.Storable name.toList) (j : Json) :
    Named (Json.setMember name j bindings) where
  distinct := Json.nodup_setMember h.distinct
  storable := by
    intro n hn
    rcases Json.mem_names_setMember hn with rfl | hn
    · exact hname
    · exact h.storable n hn

theorem Named.filter (h : Named bindings) (p : String × Json → Bool) :
    Named (bindings.filter p) := by
  have hsublist : ((bindings.filter p).map Prod.fst).Sublist (bindings.map Prod.fst) :=
    List.filter_sublist.map Prod.fst
  constructor
  · exact h.distinct.sublist hsublist
  · intro n hn
    exact h.storable n (hsublist.subset hn)

theorem named_fresh (limits : Limits) : Named (fresh limits).bindings :=
  ⟨(storable_fresh limits).distinct, (storable_fresh limits).names⟩

theorem Opens.named (h : Opens limits s) : Named s.bindings :=
  ⟨h.storable.distinct, h.storable.names⟩

theorem Alters.named (h : s.Alters line e bindings) (hs : Named s.bindings) : Named bindings := by
  have hlast (x : Float) : Named (s.setLast x).bindings := hs.setMember storable_lastName _
  cases h with
  | shows _ _ x => exact hlast x
  | leaves => exact hs
  | @assigns name _ x hline =>
    have hname := Text.storable_of_mark_not_mem (assignment?_name hline)
    exact ((hs.setMember hname _).setMember storable_lastName _).filter _
  | misses => exact (hlast 0).filter _
  | fails => exact hs.filter _

theorem navigate_bindings (s : Session) (step : Int) :
    (s.navigate step).1.bindings = s.bindings := by
  rw [navigate]
  split
  · rfl
  · rfl

theorem Safe.named_act (h : Safe limits s) (hs : Named s.bindings) (a : Action) :
    Named (s.act a).1.bindings := by
  cases a with
  | older => exact (navigate_bindings s (-1)).symm ▸ hs
  | newer => exact (navigate_bindings s 1).symm ▸ hs
  | submit raw =>
    cases hline : (Action.submit raw).line? with
    | none =>
      simp only [Session.act, submit_blank hline]
      exact hs
    | some line =>
      by_cases hclear : line = "clear"
      · subst hclear
        simp only [Session.act, submit_clear hline]
        exact named_fresh s.limits
      · obtain ⟨e, -, halters⟩ := h.alters_submit hline hclear
        exact halters.named hs

/-- The variables of every session that can be reached have different names. -/
theorem Opens.named_after (h : Opens limits s) (actions : List Action) :
    Named (s.after actions).bindings := by
  apply h.starts.safe.after_induction (P := fun t => Named t.bindings)
  · intro t ht a _ hnamed
    exact ht.named_act hnamed a
  · exact h.named

/-! ## Limiting variables -/

/-- The last result and those variables behind whose names fewer than `n` names come: the last `n`
ones of the sorted names. -/
def latest (n : Nat) (bindings : List (String × Json)) : List (String × Json) :=
  bindings.filter fun v => v.1 = lastName ∨ countBehind v.1 (namesOf bindings) < n

/-- Limiting keeps the latest variables. -/
theorem limitVariables_bindings (h : Named s.bindings) :
    s.limitVariables.bindings = latest s.limits.bindings s.bindings := by
  have hdistinct : s.names.Nodup := h.distinct.filter _
  have hstorable : ∀ name ∈ s.names, Text.Storable name.toList := by
    intro name hname
    exact h.storable name (mem_namesOf.mp hname).1
  rw [limitVariables, latest]
  apply List.filter_congr
  intro v hv
  rw [Bool.eq_iff_iff, Bool.not_eq_true', Bool.eq_false_iff, Ne, List.contains_iff_mem,
    decide_eq_true_iff]
  have hsorted : s.sortedNames = Text.sorted s.names := rfl
  by_cases hlast : v.1 = lastName
  · have hnot : v.1 ∉ s.sortedNames := by
      rw [hsorted, (Text.sorted_perm _).mem_iff, names_eq_namesOf, mem_namesOf]
      exact fun hmem => hmem.2 hlast
    exact iff_of_true (fun hmem => hnot (List.mem_of_mem_take hmem)) (.inl hlast)
  · have hname : v.1 ∈ s.names := mem_namesOf.mpr ⟨List.mem_map_of_mem hv, hlast⟩
    rw [hsorted, Text.mem_take_sorted hdistinct hstorable hname, not_le, names_eq_namesOf]
    constructor
    · intro hfew
      exact .inr hfew
    · intro hkept
      exact hkept.resolve_left hlast

/-- Variables that are no more than a session keeps all stay. -/
theorem latest_eq_self {n : Nat} (h : (namesOf bindings).length ≤ n) :
    latest n bindings = bindings := by
  rw [latest, List.filter_eq_self]
  intro v hv
  rw [decide_eq_true_iff]
  by_cases hlast : v.1 = lastName
  · exact .inl hlast
  · right
    have hname : v.1 ∈ namesOf bindings := mem_namesOf.mpr ⟨List.mem_map_of_mem hv, hlast⟩
    exact (Text.countBehind_lt hname).trans_le h

/-- Whatever the variables are, limiting leaves no more than the session keeps. -/
theorem length_names_limitVariables (s : Session) :
    s.limitVariables.names.length ≤ s.limits.bindings := by
  let dropped := s.sortedNames.take (s.sortedNames.length - s.limits.bindings)
  let kept := s.sortedNames.drop (s.sortedNames.length - s.limits.bindings)
  have hsplit : dropped ++ kept = s.sortedNames := List.take_append_drop _ _
  have hnames : s.limitVariables.names = s.names.filter fun name => !dropped.contains name := by
    have hfilter : s.limitVariables.bindings.map Prod.fst =
        (s.bindings.map Prod.fst).filter fun name => !dropped.contains name := by
      rw [List.filter_map]
      rfl
    rw [names, names, hfilter, List.filter_comm]
  have hnone : (dropped.filter fun name => !dropped.contains name) = [] := by
    rw [List.filter_eq_nil_iff]
    intro name hname
    simpa using hname
  have hsorted : (s.sortedNames.filter fun name => !dropped.contains name) =
      kept.filter fun name => !dropped.contains name := by
    rw [← hsplit, List.filter_append, hnone, List.nil_append]
  have hperm := (Text.sorted_perm s.names).filter fun name => !dropped.contains name
  calc s.limitVariables.names.length
      = (kept.filter fun name => !dropped.contains name).length := by
        rw [hnames, ← hperm.length_eq]
        exact congrArg List.length hsorted
    _ ≤ kept.length := List.length_filter_le _ _
    _ ≤ s.limits.bindings := by
        rw [List.length_drop]
        omega

theorem names_setLast (s : Session) (x : Float) : (s.setLast x).names = s.names := by
  have hset (members : List (String × Json)) :
      namesOf (Json.setMember lastName (.float x) members) = namesOf members := by
    induction members with
    | nil => rfl
    | cons m members ih =>
      obtain ⟨n, j⟩ := m
      rw [Json.setMember]
      by_cases hn : n = lastName
      · rw [if_pos hn]
        rfl
      · rw [if_neg hn]
        simp only [namesOf, List.map_cons, List.filter_cons] at ih ⊢
        rw [ih]
  exact hset s.bindings

/-- An assignment leaves no more variables than the session keeps, also when it fails. -/
theorem Alters.length_names_le (h : s.Alters line e bindings)
    (hline : (assignment? line).isSome = true) :
    (namesOf bindings).length ≤ s.limits.bindings := by
  have hnot : assignment? line ≠ none := Option.isSome_iff_ne_none.mp hline
  cases h with
  | shows hnone => exact absurd hnone hnot
  | leaves hnone => exact absurd hnone hnot
  | assigns => exact length_names_limitVariables _
  | misses => exact length_names_limitVariables (s.setLast 0)
  | fails => exact length_names_limitVariables s

/-- A line that is no assignment leaves the names. -/
theorem Alters.names_eq (h : s.Alters line e bindings) (hline : assignment? line = none) :
    namesOf bindings = s.names := by
  cases h with
  | shows _ _ x => exact names_setLast s x
  | leaves => rfl
  | assigns hsome =>
    rw [hline] at hsome
    cases hsome
  | misses hsome =>
    rw [hline] at hsome
    cases hsome
  | fails hsome =>
    rw [hline] at hsome
    cases hsome

/-! ## What a line may change -/

/-- What a line with an entry may have made of the variables of a session that keeps `n` of them
besides the last result.  A failure changes nothing, and a line that is no assignment changes the
last result at most.  An assignment that comes to a number sets its name and the last result, and of
the variables the latest stay.  An answer without a finite number is not assigned; it makes the last
result zero. -/
def Framed (n : Nat) (s : Session) (line : Text) (e : Entry)
    (bindings : List (String × Json)) : Prop :=
  (e.isFailure = true → bindings = s.bindings) ∧
  match assignment? line with
  | none => ∃ x, bindings = (s.setLast x).bindings
  | some (name, expression) =>
    match s.worth expression with
    | .ok (some x) => bindings = latest n ((s.setVariable name (.float x)).setLast x).bindings
    | .ok none => bindings = (s.setLast 0).bindings
    | .error _ => e.isFailure = true

theorem Alters.framed (h : s.Alters line e bindings) (hsafe : Safe limits s)
    (hnamed : Named s.bindings) (hroom : s.names.length ≤ limits.bindings) :
    Framed limits.bindings s line e bindings := by
  have hlimits : s.limits = limits := hsafe.limits_eq
  -- An assignment that sets no new name limits variables that are few enough already.
  have hall {t : Session} (hnames : t.names = s.names) (hsame : t.limits = s.limits)
      (ht : Named t.bindings) : t.limitVariables.bindings = t.bindings := by
    rw [limitVariables_bindings ht, latest_eq_self]
    rw [← names_eq_namesOf, hnames, hsame, hlimits]
    exact hroom
  have hlast (x : Float) : Named (s.setLast x).bindings := hnamed.setMember storable_lastName _
  cases h with
  | shows hline he x =>
    simp only [Framed, hline, he]
    exact ⟨nofun, x, rfl⟩
  | leaves hline he =>
    simp only [Framed, hline]
    obtain ⟨x, hx, -⟩ := hsafe.numeric.last
    exact ⟨fun _ => trivial, x, (Json.setMember_of_lookup hx).symm⟩
  | @assigns name _ x hline he hx =>
    simp only [Framed, hline, hx, he]
    have hname := Text.storable_of_mark_not_mem (assignment?_name hline)
    have hset : Named ((s.setVariable name (.float x)).setLast x).bindings :=
      (hnamed.setMember hname _).setMember storable_lastName _
    refine ⟨nofun, ?_⟩
    rw [← hlimits]
    exact limitVariables_bindings hset
  | misses hline he hx =>
    simp only [Framed, hline, hx, he]
    exact ⟨nofun, hall (names_setLast s 0) rfl (hlast 0)⟩
  | fails hline he hx =>
    simp only [Framed, hline, hx]
    exact ⟨fun _ => hall rfl rfl hnamed, he⟩

/-- A line changes the variables of a session that is within its limits only as its entry allows,
however the session has been reached. -/
theorem framed_submit (h : Opens limits s) (actions : List Action)
    (hroom : (s.after actions).names.length ≤ limits.bindings) {raw line : String}
    (hraw : (Action.submit raw).line? = some line) (hclear : line ≠ "clear") :
    ∃ e, ((s.after actions).submit raw).2 = .ok (some e) ∧
      Framed limits.bindings (s.after actions) line.toList e
        ((s.after actions).submit raw).1.bindings := by
  have hsafe := h.starts.safe.after actions
  obtain ⟨e, he, halters⟩ := hsafe.alters_submit hraw hclear
  exact ⟨e, he, halters.framed hsafe (h.named_after actions) hroom⟩

/-- A session that keeps one variable gets a second one, from a conversion. -/
theorem framed_submit_second :
    let s := (fresh ⟨9, 1, 9⟩).after [.submit "b = 1"]
    s.names.length ≤ 1 ∧ (Action.submit " c = 5 mi in km").line? = some "c = 5 mi in km" ∧
      ∃ e, (s.submit " c = 5 mi in km").2 = .ok (some e) ∧
        Framed 1 s "c = 5 mi in km".toList e (s.submit " c = 5 mi in km").1.bindings := by
  intro s
  have hopens : Opens ⟨9, 1, 9⟩ (fresh ⟨9, 1, 9⟩) := .fresh
  have hfirst : (Action.submit "b = 1").line? = some "b = 1" := by decide
  have hline : (Action.submit " c = 5 mi in km").line? = some "c = 5 mi in km" := by decide
  have hroom : s.names.length ≤ 1 := by
    obtain ⟨e, -, halters⟩ := hopens.starts.safe.alters_submit hfirst (by decide)
    exact halters.length_names_le (by decide)
  exact ⟨hroom, hline, framed_submit hopens [.submit "b = 1"] hroom hline (by decide)⟩

/-! ## Limits over runs -/

/-- A limiting action leaves no more variables than the session keeps, and every other action leaves
their names. -/
theorem Safe.names_act (h : Safe limits s) (a : Action) :
    a.Limiting ∧ (s.act a).1.names.length ≤ limits.bindings ∨
      ¬a.Limiting ∧ (s.act a).1.names = s.names := by
  have hidle (hline : a.line? = none) (hbindings : (s.act a).1.bindings = s.bindings) :
      ¬a.Limiting ∧ (s.act a).1.names = s.names := by
    constructor
    · rintro ⟨line, hsome, -⟩
      rw [hline] at hsome
      cases hsome
    · rw [names, names, hbindings]
  cases a with
  | older => exact .inr (hidle rfl (navigate_bindings s (-1)))
  | newer => exact .inr (hidle rfl (navigate_bindings s 1))
  | submit raw =>
    cases hline : (Action.submit raw).line? with
    | none =>
      right
      apply hidle hline
      simp only [Session.act, submit_blank hline]
    | some line =>
      by_cases hclear : line = "clear"
      · subst hclear
        left
        constructor
        · exact ⟨"clear", hline, .inl rfl⟩
        · simp only [Session.act, submit_clear hline]
          exact Nat.zero_le _
      · obtain ⟨e, -, halters⟩ := h.alters_submit hline hclear
        by_cases hassign : (assignment? line.toList).isSome = true
        · left
          constructor
          · exact ⟨line, hline, .inr hassign⟩
          · rw [← h.limits_eq]
            exact halters.length_names_le hassign
        · right
          constructor
          · rintro ⟨other, hother, hwhich⟩
            rw [hline] at hother
            cases hother
            exact hwhich.elim hclear hassign
          · exact halters.names_eq (Option.not_isSome_iff_eq_none.mp hassign)

/-- Without a limiting action a run leaves the names of the variables. -/
theorem Safe.names_after (h : Safe limits s) {actions : List Action}
    (hnone : ∀ a ∈ actions, ¬a.Limiting) : (s.after actions).names = s.names := by
  apply h.after_induction (P := fun t => t.names = s.names)
  · intro t ht a ha hnames
    rcases ht.names_act a with ⟨hlimiting, -⟩ | ⟨-, hkept⟩
    · exact absurd hlimiting (hnone a ha)
    · exact hkept.trans hnames
  · rfl

/-- A session that is within its limits stays there. -/
theorem Safe.length_names_after (h : Safe limits s) (hroom : s.names.length ≤ limits.bindings)
    (actions : List Action) : (s.after actions).names.length ≤ limits.bindings := by
  apply h.after_induction (P := fun t => t.names.length ≤ limits.bindings)
  · intro t ht a _ hle
    rcases ht.names_act a with ⟨-, hlimited⟩ | ⟨-, hkept⟩
    · exact hlimited
    · rw [hkept]
      exact hle
  · exact hroom

/-- From a limiting action on a session is within its limits. -/
theorem Safe.length_names_after_of_mem (h : Safe limits s) {actions : List Action} {a : Action}
    (ha : a ∈ actions) (hlimiting : a.Limiting) :
    (s.after actions).names.length ≤ limits.bindings := by
  obtain ⟨before, later, rfl⟩ := List.append_of_mem ha
  have hbefore := h.after before
  rw [after_append]
  apply (hbefore.act a).1.length_names_after
  rcases hbefore.names_act a with ⟨-, hle⟩ | ⟨hnot, -⟩
  · exact hle
  · exact absurd hlimiting hnot

/-- A session that began fresh never has more variables than it keeps.  A restored one is within its
limits just if its document was or a line that limits the variables has been entered since; until
then it has all the names of its document. -/
theorem within_limits_iff (limits : Limits) (actions : List Action) :
    ((fresh limits).after actions).names.length ≤ limits.bindings ∧
    ∀ {j : Json} {s : Session}, restore limits j = .ok s →
      ((s.after actions).names.length ≤ limits.bindings ↔
        s.names.length ≤ limits.bindings ∨ ∃ a ∈ actions, a.Limiting) ∧
      ((s.after actions).names = s.names ∨ ∃ a ∈ actions, a.Limiting) := by
  constructor
  · exact (safe_fresh limits).length_names_after (Nat.zero_le _) actions
  intro j s hrestore
  have hsafe := safe_restore hrestore
  by_cases hlimiting : ∃ a ∈ actions, a.Limiting
  · obtain ⟨a, ha, hcaps⟩ := hlimiting
    have hle := hsafe.length_names_after_of_mem ha hcaps
    exact ⟨iff_of_true hle (.inr ⟨a, ha, hcaps⟩), .inr ⟨a, ha, hcaps⟩⟩
  · have hnames := hsafe.names_after fun a ha hcaps => hlimiting ⟨a, ha, hcaps⟩
    rw [hnames, or_iff_left hlimiting]
    exact ⟨Iff.rfl, .inl rfl⟩

/-- A session that keeps no variables is restored with one, and loses it with the next
assignment. -/
theorem within_limits_iff_restored :
    ∃ s, restore ⟨9, 0, 9⟩ (.object [("variables", .object [("a", .int 1)])]) = .ok s ∧
      (s.after [.submit "a + 1"]).names = ["a"] ∧
      (s.after [.submit "a + 1", .submit "b = 2"]).names.length ≤ 0 := by
  obtain ⟨s, hs, hnames⟩ : ∃ s,
      restore ⟨9, 0, 9⟩ (.object [("variables", .object [("a", .int 1)])]) = .ok s ∧
        s.names = ["a"] := ⟨_, rfl, rfl⟩
  have hfirst := ((within_limits_iff ⟨9, 0, 9⟩ [.submit "a + 1"]).2 hs).2
  have hsecond := ((within_limits_iff ⟨9, 0, 9⟩ [.submit "a + 1", .submit "b = 2"]).2 hs).1
  refine ⟨s, hs, ?_, ?_⟩
  · rw [← hnames]
    apply hfirst.resolve_right
    rintro ⟨a, ha, line, hline, hwhich⟩
    cases List.mem_singleton.mp ha
    have heq : some line = some "a + 1" := hline.symm.trans (by decide)
    cases heq
    exact absurd hwhich (by decide)
  · apply hsecond.mpr
    right
    exact ⟨.submit "b = 2", by simp, "b = 2", by decide, .inr (by decide)⟩

/-- Restoring does not limit the variables: a session that is to keep none can have one. -/
theorem restored_beyond_limits :
    ∃ s, restore ⟨100, 0, 100⟩ (.object [("variables", .object [("a", .int 1)])]) = .ok s ∧
      (s.after []).names.length > 0 :=
  ⟨_, rfl, by decide⟩

end Session
end DeskCalc
