import DeskCalc.Proofs.Number.Doubles
import DeskCalc.Proofs.Session.Variables

/-!
# What an assignment leaves under its name

An assignment that succeeds sets its name if it comes to a finite number, and then the variables are
limited, which may drop the very name that has just been set: the last names of the order stay,
whichever came last.  An answer without a finite number is not assigned, and whatever had the name
before keeps it.  So the name has the last result afterwards only if it comes to a finite number and
few enough names come behind it, or by coincidence.
-/

namespace DeskCalc.Session

open Text (Shape countBehind)

variable {limits : Limits} {s : Session} {bindings : List (String × Json)} {name : String}

/-- A session binds a name to a number that equals `x`. -/
def Binds (s : Session) (name : String) (x : Float) : Prop :=
  ∃ y : Float, s.value? name = some (.float y) ∧ (y == x) = true

/-! ## Names -/

/-- The name of an assignment is never that of the last result. -/
theorem assignment?_ne_lastName {line value : Text}
    (h : assignment? line = some (name, value)) : name ≠ lastName := by
  obtain ⟨⟨letters, found⟩, hread, heq⟩ := Option.map_eq_some_iff.mp h
  cases heq
  obtain ⟨rest, hfits⟩ := Shape.fits_of_read? hread
  simp only [assignmentShape, Shape.fits_bind, Shape.fits_pure, Prod.mk.injEq] at hfits
  obtain ⟨sign, t₁, hsign, word, t₂, hword, hfits⟩ := hfits
  obtain ⟨_, _, -, _, _, -, _, _, -, _, _, -, _, _, -, ⟨rfl, -⟩, -⟩ := hfits
  obtain ⟨hne, hchars, -⟩ := Shape.fits_run1.mp hword
  obtain ⟨c, rest, rfl⟩ := List.exists_cons_of_ne_nil hne
  have hc : isNameChar c = true := List.mem_takeWhile_imp (hchars ▸ List.mem_cons_self)
  have hat : isNameChar '@' = false := by decide
  intro hlast
  have hlastText : lastName.toList = ['@'] := by decide
  have htext := congrArg String.toList hlast
  rw [String.toList_ofList, hlastText] at htext
  cases sign with
  | none =>
    obtain ⟨rfl, -⟩ := List.cons.inj htext
    rw [hat] at hc
    cases hc
  | some d =>
    obtain ⟨-, hempty⟩ := List.cons.inj htext
    cases hempty

theorem not_precedes_self (name : String) : ¬Text.Precedes name name :=
  fun h => h.asymm h

/-- Setting a name adds nothing behind it. -/
theorem countBehind_setMember (j : Json) (bindings : List (String × Json)) :
    countBehind name (namesOf (Json.setMember name j bindings)) =
      countBehind name (namesOf bindings) := by
  induction bindings with
  | nil => simp [Json.setMember, namesOf, countBehind, List.filter_cons, not_precedes_self]
  | cons m bindings ih =>
    obtain ⟨n, v⟩ := m
    rw [Json.setMember]
    by_cases hn : n = name
    · rw [if_pos hn]
      rfl
    · rw [if_neg hn]
      simp only [namesOf, List.map_cons, List.filter_cons, countBehind] at ih ⊢
      split
      · rw [List.countP_cons, List.countP_cons, ih]
      · exact ih

/-- The latest variables have the values that they had. -/
theorem lookup_latest (n : Nat) (hname : name ≠ lastName) :
    (latest n bindings).lookup name =
      if countBehind name (namesOf bindings) < n then bindings.lookup name else none := by
  rw [latest]
  by_cases hfew : countBehind name (namesOf bindings) < n
  · rw [if_pos hfew]
    exact Json.lookup_filter fun _ => decide_eq_true (.inr hfew)
  · rw [if_neg hfew]
    refine Json.lookup_filter_eq_none fun _ => decide_eq_false ?_
    rintro (hlast | hless)
    · exact hname hlast
    · exact hfew hless

theorem lookup_latest_last (n : Nat) :
    (latest n bindings).lookup lastName = bindings.lookup lastName :=
  Json.lookup_filter fun _ => decide_eq_true (.inl rfl)

/-! ## Assignments -/

/-- An assignment that comes to something, a number or not, succeeds. -/
theorem Alters.isFailure_eq_false {line expression : Text} {e : Entry}
    (h : s.Alters line e bindings) (hline : assignment? line = some (name, expression))
    {number : Option Float} (hworth : s.worth expression = .ok number) : e.isFailure = false := by
  cases h with
  | shows _ he => exact he
  | leaves hnone =>
    rw [hline] at hnone
    cases hnone
  | assigns _ he => exact he
  | misses _ he => exact he
  | fails hsome _ hx =>
    rw [hline] at hsome
    cases hsome
    rw [hworth] at hx
    cases hx

theorem Alters.bindings_of_assigns {line expression : Text} {e : Entry} {x : Float}
    (h : s.Alters line e bindings) (hline : assignment? line = some (name, expression))
    (hworth : s.worth expression = .ok (some x)) :
    bindings = ((s.setVariable name (.float x)).setLast x).limitVariables.bindings := by
  cases h with
  | shows hnone =>
    rw [hline] at hnone
    cases hnone
  | leaves hnone =>
    rw [hline] at hnone
    cases hnone
  | assigns hsome _ hx =>
    cases hline.symm.trans hsome
    cases hworth.symm.trans hx
    rfl
  | misses hsome _ hx =>
    cases hline.symm.trans hsome
    cases hworth.symm.trans hx
  | fails hsome _ hx =>
    cases hline.symm.trans hsome
    cases hworth.symm.trans hx

/-- What an expression comes to depends on the variables only. -/
theorem worth_congr {t : Session} (h : s.bindings = t.bindings) (expression : Text) :
    s.worth expression = t.worth expression := by
  simp only [worth, evaluate, h]

/-- An assignment of a number that finds room sets its name and the last result, and nothing
else. -/
theorem Opens.bindings_assign {s₀ : Session} (h : Opens limits s₀) {actions : List Action}
    (t : Session) (ht : (s₀.after actions).bindings = t.bindings) {raw line : String}
    {expression : Text} (x : Float) (hraw : (Action.submit raw).line? = some line)
    (hline : assignment? line.toList = some (name, expression))
    (hx : t.worth expression = .ok (some x))
    (hroom : ((t.setVariable name (.float x)).setLast x).names.length ≤ limits.bindings) :
    (s₀.after (actions ++ [.submit raw])).bindings =
      ((t.setVariable name (.float x)).setLast x).bindings := by
  have hsafe := h.starts.safe.after actions
  have hclear : line ≠ "clear" := by
    rintro rfl
    cases hline
  obtain ⟨e, -, halters⟩ := hsafe.alters_submit hraw hclear
  have hbindings := halters.bindings_of_assigns hline ((worth_congr ht expression).trans hx)
  have hset : (((s₀.after actions).setVariable name (.float x)).setLast x).bindings =
      ((t.setVariable name (.float x)).setLast x).bindings := by
    simp only [setLast, setVariable, ht]
  have hname := Text.storable_of_mark_not_mem (assignment?_name hline)
  have hnamed := ((h.named_after actions).setMember hname (.float x)).setMember storable_lastName
    (.float x)
  have hlimits : (((s₀.after actions).setVariable name (.float x)).setLast x).limits = limits :=
    hsafe.limits_eq
  rw [limitVariables_bindings hnamed, hlimits, hset, latest_eq_self hroom] at hbindings
  rw [after_append]
  exact hbindings

/-- A name that is set keeps its number if few enough names come behind it. -/
theorem value?_of_latest {t : Session} (hname : name ≠ lastName) {n : Nat} {x : Float}
    (h : t.bindings = latest n ((s.setVariable name (.float x)).setLast x).bindings) :
    t.value? lastName = some (.float x) ∧
      t.value? name = if countBehind name s.names < n then some (.float x) else none := by
  have hcount : countBehind name (namesOf ((s.setVariable name (.float x)).setLast x).bindings) =
      countBehind name s.names := by
    rw [← names_eq_namesOf, names_setLast]
    exact countBehind_setMember _ _
  have hset : ((s.setVariable name (.float x)).setLast x).bindings.lookup name =
      some (.float x) := by
    rw [setLast, setVariable, Json.lookup_setMember, if_neg hname]
    exact (Json.lookup_setMember _).trans (if_pos rfl)
  constructor
  · rw [value?, h, lookup_latest_last]
    exact (Json.lookup_setMember _).trans (if_pos rfl)
  · rw [value?, h, lookup_latest _ hname, hcount, hset]

/-- A last result changes no other name. -/
theorem value?_of_setLast {t : Session} (hname : name ≠ lastName) {x : Float}
    (h : t.bindings = (s.setLast x).bindings) :
    t.value? lastName = some (.float x) ∧ t.value? name = s.value? name := by
  constructor
  · rw [value?, h]
    exact (Json.lookup_setMember _).trans (if_pos rfl)
  · rw [value?, h]
    exact (Json.lookup_setMember _).trans (if_neg hname)

/-- What the name of an assignment that succeeded has afterwards, and what the last result is. -/
theorem Framed.binds_iff {line expression : Text} {e : Entry} {t : Session}
    (h : Framed limits.bindings s line e t.bindings) (hsafe : Safe limits t)
    (hline : assignment? line = some (name, expression)) (he : e.isFailure = false) :
    ∃ x : Float, t.value? lastName = some (.float x) ∧
      (t.Binds name x ↔
        (∃ y, s.worth expression = .ok (some y)) ∧ countBehind name s.names < limits.bindings ∨
        s.worth expression = .ok none ∧ s.Binds name 0) := by
  have hname := assignment?_ne_lastName hline
  obtain ⟨z, hz, hfinite⟩ := hsafe.numeric.last
  -- The last result is the number of the assignment, and so it is the one that was found.
  have hlast {x : Float} (hx : t.value? lastName = some (.float x)) : z = x :=
    Json.float.inj (Option.some.inj (hz.symm.trans hx))
  simp only [Framed, hline] at h
  refine ⟨z, hz, ?_⟩
  cases hworth : s.worth expression with
  | error f =>
    rw [hworth] at h
    rw [h.2] at he
    cases he
  | ok number =>
    rw [hworth] at h
    cases number with
    | some x =>
      obtain ⟨hx, hvalue⟩ := value?_of_latest hname h.2
      obtain rfl := hlast hx
      rw [Binds, hvalue]
      constructor
      · rintro ⟨y, hy, -⟩
        left
        refine ⟨⟨z, rfl⟩, ?_⟩
        by_contra hmany
        rw [if_neg hmany] at hy
        cases hy
      · rintro (⟨-, hfew⟩ | ⟨hnone, -⟩)
        · rw [if_pos hfew]
          exact ⟨z, rfl, Number.beq_self hfinite⟩
        · cases hnone
    | none =>
      obtain ⟨hzero, hvalue⟩ := value?_of_setLast hname h.2
      obtain rfl := hlast hzero
      rw [Binds, hvalue]
      constructor
      · intro hbinds
        exact .inr ⟨rfl, hbinds⟩
      · rintro (⟨⟨y, hy⟩, -⟩ | ⟨-, hbinds⟩)
        · cases hy
        · exact hbinds

end DeskCalc.Session
