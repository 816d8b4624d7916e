import DeskCalc.Api.Answer
import DeskCalc.Proofs.Json.Refusals
import DeskCalc.Proofs.Session.Reload

/-!
# Rows that are restored

Whatever text a row holds, it is restored in one of few ways.  A text without the form of a document
gives a fresh session, and null gives none.  Any other document gives a session in which each part
is taken from its member if that can be used, and is as in a fresh session if not; of the variables,
those that have no finite number are dropped.

There are three exceptions.  An integer variable that has no nearest double makes restoring break
off, and too many digits or too much nesting make it break off before there is a document at all.
-/

namespace DeskCalc

open Json (nestingRoom)

namespace Json

/-! ## Finite numbers of documents -/

/-- An integer that is beyond all doubles, from the middle between the largest one and the next
power of two on. -/
def IsBeyondDoubles (j : Json) : Prop :=
  ∃ n : Int, j = .int n ∧ (2 ^ 54 - 1) * 2 ^ 970 ≤ n.natAbs

/-- The number of a document, or the one at the beginning of its text, if it is finite. -/
def finiteNumber? (j : Json) : Option Float :=
  match j.leadingNumber with
  | .found x => if x.isFinite then some x else none
  | _ => none

variable {j : Json}

theorem leadingNumber_of_isBeyondDoubles (h : j.IsBeyondDoubles) :
    j.leadingNumber = .broken .tooLarge := by
  obtain ⟨n, rfl, hn⟩ := h
  rw [leadingNumber, Number.ofInt?_eq_none_iff.mpr hn]
  rfl

/-- All other documents have a number, or are known to have none. -/
theorem leadingNumber_ne_broken (h : ¬j.IsBeyondDoubles) (f : Fault) :
    j.leadingNumber ≠ .broken f := by
  have hoption (o : Option Float) : Attempt.ofOption o ≠ .broken f := by
    intro hbroken
    cases o with
    | none => cases hbroken
    | some x => cases hbroken
  intro hbroken
  cases j with
  | null => cases hbroken
  | bool b => cases hbroken
  | float x => cases hbroken
  | int n =>
    rw [leadingNumber] at hbroken
    cases hn : Number.ofInt? n with
    | some x =>
      rw [hn] at hbroken
      cases hbroken
    | none => exact h ⟨n, rfl, Number.ofInt?_eq_none_iff.mp hn⟩
  | str s => exact hoption _ hbroken
  | list items =>
    simp only [leadingNumber] at hbroken
    exact hoption _ hbroken
  | object members =>
    simp only [leadingNumber] at hbroken
    exact hoption _ hbroken

/-- Either there is a number, which may not be finite, or there is none. -/
theorem leadingNumber_cases (h : ¬j.IsBeyondDoubles) :
    (∃ x, j.leadingNumber = .found x ∧ j.finiteNumber? = if x.isFinite then some x else none) ∨
      j.leadingNumber = .nothing ∧ j.finiteNumber? = none := by
  rw [finiteNumber?]
  cases hread : j.leadingNumber with
  | found x => exact .inl ⟨x, rfl, rfl⟩
  | nothing => exact .inr ⟨rfl, rfl⟩
  | broken f => exact absurd hread (leadingNumber_ne_broken h f)

end Json

namespace Session

variable {limits : Limits} {s : Session} {j v : Json} {name : String}
  {members : List (String × Json)}

/-! ## Variables -/

/-- The first variable beyond all doubles ends the reading of variables. -/
theorem numericVariables_of_isBeyondDoubles {m : String × Json} (hm : m ∈ members)
    (hname : m.1 ≠ lastName) (h : m.2.IsBeyondDoubles) :
    (numericVariables members).2 = some .tooLarge := by
  induction members with
  | nil => cases hm
  | cons n members ih =>
    obtain ⟨k, v⟩ := n
    rw [numericVariables]
    rcases List.mem_cons.mp hm with rfl | hm
    · rw [if_neg hname, Json.leadingNumber_of_isBeyondDoubles h]
    · by_cases hk : k = lastName
      · rw [if_pos hk]
        exact ih hm
      · rw [if_neg hk]
        by_cases hv : v.IsBeyondDoubles
        · rw [Json.leadingNumber_of_isBeyondDoubles hv]
        · rcases Json.leadingNumber_cases hv with ⟨x, hx, -⟩ | ⟨hnothing, -⟩
          · rw [hx]
            exact ih hm
          · rw [hnothing]
            exact ih hm

theorem numericVariables_cons (hname : name ≠ lastName) (h : ¬v.IsBeyondDoubles) :
    numericVariables ((name, v) :: members) =
      ((v.finiteNumber?.map fun x => (name, Json.float x)).toList ++ (numericVariables members).1,
        (numericVariables members).2) := by
  rw [numericVariables, if_neg hname]
  rcases Json.leadingNumber_cases h with ⟨x, hx, hfinite⟩ | ⟨hnothing, hfinite⟩
  · rw [hx, hfinite]
    by_cases hx : x.isFinite = true
    · simp only [if_pos hx]
      rfl
    · simp only [if_neg hx]
      rfl
  · rw [hnothing, hfinite]
    rfl

/-- Reading variables leaves the last result, and each other variable with its finite number, if it
has one. -/
theorem numericVariables_lookup (hnames : (members.map Prod.fst).Nodup)
    (h : ∀ m ∈ members, m.1 ≠ lastName → ¬m.2.IsBeyondDoubles) :
    (numericVariables members).2 = none ∧
    (numericVariables members).1.lookup lastName = members.lookup lastName ∧
    ∀ name, name ≠ lastName → (numericVariables members).1.lookup name =
      ((members.lookup name).bind Json.finiteNumber?).map .float := by
  induction members with
  | nil => exact ⟨rfl, rfl, fun _ _ => rfl⟩
  | cons m members ih =>
    obtain ⟨k, v⟩ := m
    rw [List.map_cons, List.nodup_cons] at hnames
    obtain ⟨hfault, hlast, hothers⟩ := ih hnames.2 fun m hm => h m (List.mem_cons_of_mem _ hm)
    by_cases hk : k = lastName
    · subst hk
      rw [numericVariables, if_pos rfl]
      refine ⟨hfault, ?_, ?_⟩
      · rw [Json.lookup_cons_eq_ite, Json.lookup_cons_eq_ite, if_pos rfl, if_pos rfl]
      · intro name hname
        rw [Json.lookup_cons_eq_ite, Json.lookup_cons_eq_ite, if_neg hname, if_neg hname]
        exact hothers name hname
    · rw [numericVariables_cons hk (h _ List.mem_cons_self hk)]
      -- The name does not come again, so that nothing stands in for a variable that is dropped.
      have hagain : (numericVariables members).1.lookup k = none := by
        have hnone : members.lookup k = none := by
          cases hlookup : members.lookup k with
          | none => rfl
          | some w => exact absurd (List.mem_map_of_mem (Json.mem_of_lookup hlookup)) hnames.1
        rw [hothers k hk, hnone]
        rfl
      cases hfinite : v.finiteNumber? with
      | some x =>
        refine ⟨hfault, ?_, ?_⟩
        · simp only [Option.map_some, Option.toList_some, List.singleton_append,
            Json.lookup_cons_eq_ite, if_neg (Ne.symm hk)]
          exact hlast
        · intro name hname
          simp only [Option.map_some, Option.toList_some, List.singleton_append,
            Json.lookup_cons_eq_ite]
          by_cases heq : name = k
          · rw [if_pos heq, if_pos heq, Option.bind_some, hfinite]
            rfl
          · rw [if_neg heq, if_neg heq]
            exact hothers name hname
      | none =>
        refine ⟨hfault, ?_, ?_⟩
        · rw [Json.lookup_cons_eq_ite, if_neg (Ne.symm hk)]
          exact hlast
        · intro name hname
          rw [Json.lookup_cons_eq_ite]
          by_cases heq : name = k
          · rw [if_pos heq, Option.bind_some, hfinite, heq]
            exact hagain
          · rw [if_neg heq]
            exact hothers name hname

theorem cleanLast_of_isBeyondDoubles (hv : s.value? lastName = some v)
    (h : v.IsBeyondDoubles) : s.cleanLast.2 = some .tooLarge := by
  rw [cleanLast, hv, Option.getD_some, Json.leadingNumber_of_isBeyondDoubles h]

theorem cleanLast_of_not_isBeyondDoubles
    (h : ∀ v, s.value? lastName = some v → ¬v.IsBeyondDoubles) :
    s.cleanLast = (s.setLast (((s.value? lastName).bind Json.finiteNumber?).getD 0), none) := by
  rw [cleanLast]
  cases hv : s.value? lastName with
  | none => rfl
  | some v =>
    rw [Option.getD_some, Option.bind_some]
    rcases Json.leadingNumber_cases (h v hv) with ⟨x, hx, hfinite⟩ | ⟨hnothing, hfinite⟩
    · rw [hx, hfinite]
      by_cases hx : x.isFinite = true
      · simp only [if_pos hx]
        rfl
      · simp only [if_neg hx]
        rfl
    · rw [hnothing, hfinite]
      rfl

theorem cleanVariables_of_fault {f : Fault} (h : (numericVariables s.bindings).2 = some f) :
    s.cleanVariables.2 = some f := by
  rw [cleanVariables]
  split
  next heq =>
    rw [heq] at h
    cases h
  next heq =>
    rw [heq] at h
    exact h

theorem cleanVariables_of_no_fault (h : (numericVariables s.bindings).2 = none) :
    s.cleanVariables = { s with bindings := (numericVariables s.bindings).1 }.cleanLast := by
  rw [cleanVariables]
  split
  next heq => rw [heq]
  next heq =>
    rw [heq] at h
    cases h

theorem cleanVariables_of_isBeyondDoubles (hnames : (s.bindings.map Prod.fst).Nodup)
    {m : String × Json} (hm : m ∈ s.bindings) (h : m.2.IsBeyondDoubles) :
    s.cleanVariables.2 = some .tooLarge := by
  by_cases hother : ∃ m ∈ s.bindings, m.1 ≠ lastName ∧ m.2.IsBeyondDoubles
  · obtain ⟨m, hm, hname, hbeyond⟩ := hother
    exact cleanVariables_of_fault (numericVariables_of_isBeyondDoubles hm hname hbeyond)
  · -- Only the last result is beyond all doubles, and it is looked at after the other variables.
    have hfine : ∀ m ∈ s.bindings, m.1 ≠ lastName → ¬m.2.IsBeyondDoubles := by
      intro m hm hname hbeyond
      exact hother ⟨m, hm, hname, hbeyond⟩
    have hname : m.1 = lastName := by
      by_contra hne
      exact hfine m hm hne h
    obtain ⟨hfault, hlast, -⟩ := numericVariables_lookup hnames hfine
    have hlookup : s.bindings.lookup lastName = some m.2 := by
      rw [← hname]
      exact Json.lookup_of_mem hnames hm
    rw [cleanVariables_of_no_fault hfault]
    exact cleanLast_of_isBeyondDoubles (hlast.trans hlookup) h

theorem cleanVariables_of_not_isBeyondDoubles (hnames : (s.bindings.map Prod.fst).Nodup)
    (h : ∀ m ∈ s.bindings, ¬m.2.IsBeyondDoubles) :
    ∃ bindings, s.cleanVariables = ({ s with bindings := bindings }, none) ∧
      bindings.lookup lastName =
        some (.float (((s.bindings.lookup lastName).bind Json.finiteNumber?).getD 0)) ∧
      ∀ name, name ≠ lastName → bindings.lookup name =
        ((s.bindings.lookup name).bind Json.finiteNumber?).map .float := by
  obtain ⟨hfault, hlast, hothers⟩ := numericVariables_lookup hnames fun m hm _ => h m hm
  rw [cleanVariables_of_no_fault hfault, cleanLast_of_not_isBeyondDoubles]
  · have hvalue : { s with bindings := (numericVariables s.bindings).1 }.value? lastName =
        s.bindings.lookup lastName := hlast
    rw [hvalue]
    refine ⟨_, rfl, ?_, ?_⟩
    · rw [Json.lookup_setMember, if_pos rfl]
    · intro name hname
      rw [Json.lookup_setMember, if_neg hname]
      exact hothers name hname
  · intro v hv
    exact h _ (Json.mem_of_lookup (hlast.symm.trans hv))

/-! ## Documents -/

/-- The variables that a document gives. -/
def variablesOf (j : Json) : List (String × Json) :=
  match j.get? "variables" with
  | some (.object members) => members
  | _ => []

/-- The lines that a list gives. -/
def linesOf? : Json → Option (List String)
  | .list lines => some (lines.map fun j => String.ofList j.plain)
  | _ => none

/-- The entries that a list gives. -/
def loggedIn? : Json → Option (List Entry)
  | .list entries => some (entries.filterMap Entry.ofJson?)
  | _ => none

/-- A session that a document describes.  Each part comes from one member of the document, and is as
in a fresh session if there is none or if it cannot be used. -/
structure Describes (limits : Limits) (j : Json) (s : Session) : Prop where
  limits_eq : s.limits = limits
  history : s.history = lastOf limits.history (((j.get? "history").bind linesOf?).getD [])
  cursor : s.cursor = (((j.get? "historyIndex").bind Mark.ofJson?).filter fun m : Mark =>
    decide (0 ≤ m.place ∧ m.place ≤ s.history.length)).getD (.at s.history.length)
  last : s.value? lastName =
    some (.float ((((variablesOf j).lookup lastName).bind Json.finiteNumber?).getD 0))
  others : ∀ name, name ≠ lastName →
    s.value? name = (((variablesOf j).lookup name).bind Json.finiteNumber?).map .float
  results : s.results = lastOf limits.results (((j.get? "resultsLog").bind loggedIn?).getD [])
  inputValue : s.inputValue = (((j.get? "inputValue").filter fun v => !v.isEmpty).map fun v =>
    String.ofList v.plain).getD ""
  cursorStart : s.cursorStart = ((j.get? "cursorStart").bind Mark.ofJson?).getD (.at 0)
  cursorEnd : s.cursorEnd = ((j.get? "cursorEnd").bind Mark.ofJson?).getD (.at 0)

theorem restoredHistory_eq (limits : Limits) (o : Option Json) :
    restoredHistory limits o = lastOf limits.history ((o.bind linesOf?).getD []) := by
  cases o with
  | none => exact List.drop_nil.symm
  | some j =>
    cases j with
    | list lines => rfl
    | _ => exact List.drop_nil.symm

theorem restoredResults_eq (limits : Limits) (o : Option Json) :
    restoredResults limits o = lastOf limits.results ((o.bind loggedIn?).getD []) := by
  cases o with
  | none => exact List.drop_nil.symm
  | some j =>
    cases j with
    | list entries => rfl
    | _ => exact List.drop_nil.symm

theorem restoredCursor_eq (history : List String) (o : Option Json) :
    restoredCursor history o = ((o.bind Mark.ofJson?).filter fun m : Mark =>
      decide (0 ≤ m.place ∧ m.place ≤ history.length)).getD (.at history.length) := by
  unfold restoredCursor
  split
  next m hm =>
    rw [hm, Option.filter_some]
    by_cases hwithin : 0 ≤ m.place ∧ m.place ≤ history.length
    · rw [if_pos hwithin, if_pos (decide_eq_true hwithin)]
      rfl
    · rw [if_neg hwithin, if_neg (by rwa [decide_eq_true_iff])]
      rfl
  next hnone =>
    rw [hnone]
    rfl

/-- The session that restoring begins with, before its variables are cleaned. -/
def begun (limits : Limits) (j : Json) : Session :=
  let history := restoredHistory limits (j.get? "history")
  { fresh limits with
    history := history
    cursor := restoredCursor history (j.get? "historyIndex")
    bindings := match j.get? "variables" with
      | some (.object members) => members
      | _ => [(lastName, .float 0)] }

/-- Restoring is cleaning the variables and adding the rest. -/
theorem restore_eq (limits : Limits) (j : Json) : restore limits j =
    match (begun limits j).cleanVariables with
    | (_, some e) => .error e
    | (s, none) =>
      .ok { s with
        results := restoredResults limits (j.get? "resultsLog")
        inputValue := match j.get? "inputValue" with
          | some v => if v.isEmpty then "" else String.ofList v.plain
          | none => ""
        cursorStart := ((j.get? "cursorStart").bind Mark.ofJson?).getD (.at 0)
        cursorEnd := ((j.get? "cursorEnd").bind Mark.ofJson?).getD (.at 0) } :=
  rfl

/-- Restoring begins with the variables of the document, or with the last result alone. -/
theorem begun_bindings (limits : Limits) (j : Json) :
    (begun limits j).bindings = variablesOf j ∨
      variablesOf j = [] ∧ (begun limits j).bindings = [(lastName, .float 0)] := by
  simp only [begun, variablesOf]
  split
  · exact .inl rfl
  · exact .inr ⟨rfl, rfl⟩

theorem restore_of_isBeyondDoubles (hnames : ((variablesOf j).map Prod.fst).Nodup)
    {m : String × Json} (hm : m ∈ variablesOf j) (h : m.2.IsBeyondDoubles) :
    restore limits j = .error .tooLarge := by
  rcases begun_bindings limits j with hbindings | ⟨hnone, -⟩
  · rw [← hbindings] at hnames hm
    have hfault := cleanVariables_of_isBeyondDoubles hnames hm h
    rw [restore_eq]
    split
    next heq =>
      rw [heq] at hfault
      cases hfault
      rfl
    next heq =>
      rw [heq] at hfault
      cases hfault
  · rw [hnone] at hm
    cases hm

/-- A last result that is zero stands for none. -/
theorem lookup_begun (limits : Limits) (j : Json) :
    (((begun limits j).bindings.lookup lastName).bind Json.finiteNumber?).getD 0 =
        (((variablesOf j).lookup lastName).bind Json.finiteNumber?).getD 0 ∧
      ∀ name, name ≠ lastName → (begun limits j).bindings.lookup name =
        (variablesOf j).lookup name := by
  rcases begun_bindings limits j with hbindings | ⟨hnone, hbindings⟩
  · rw [hbindings]
    exact ⟨rfl, fun _ _ => rfl⟩
  · rw [hbindings, hnone]
    constructor
    · have hzero : (Json.float 0).finiteNumber? = some 0 := by
        simp only [Json.finiteNumber?, Json.leadingNumber, Number.isFinite_zero, if_true]
      rw [Json.lookup_cons_eq_ite, if_pos rfl, Option.bind_some, hzero]
      rfl
    · intro name hname
      rw [Json.lookup_cons_eq_ite, if_neg hname]

theorem exists_describes (hnames : ((variablesOf j).map Prod.fst).Nodup)
    (h : ∀ m ∈ variablesOf j, ¬m.2.IsBeyondDoubles) :
    ∃ s, restore limits j = .ok s ∧ Describes limits j s := by
  have hbegun : ((begun limits j).bindings.map Prod.fst).Nodup ∧
      ∀ m ∈ (begun limits j).bindings, ¬m.2.IsBeyondDoubles := by
    rcases begun_bindings limits j with hbindings | ⟨-, hbindings⟩
    · rw [hbindings]
      exact ⟨hnames, h⟩
    · rw [hbindings]
      refine ⟨List.nodup_singleton _, ?_⟩
      intro m hm
      obtain rfl := List.mem_singleton.mp hm
      exact fun ⟨_, heq, _⟩ => by cases heq
  obtain ⟨bindings, hclean, hlast, hothers⟩ :=
    cleanVariables_of_not_isBeyondDoubles hbegun.1 hbegun.2
  obtain ⟨hbegunLast, hbegunOthers⟩ := lookup_begun limits j
  rw [restore_eq, hclean]
  refine ⟨_, rfl, ?_⟩
  constructor
  · rfl
  · exact restoredHistory_eq limits _
  · exact restoredCursor_eq _ _
  · exact hlast.trans (by rw [hbegunLast])
  · intro name hname
    exact (hothers name hname).trans (by rw [hbegunOthers name hname])
  · exact restoredResults_eq limits _
  · cases j.get? "inputValue" with
    | none => rfl
    | some v =>
      rw [Option.filter_some]
      cases hempty : v.isEmpty with
      | true => simp only [hempty, if_true, Bool.not_true, Bool.false_eq_true, if_false]; rfl
      | false => simp only [hempty, Bool.false_eq_true, if_false, Bool.not_false, if_true]; rfl
  · rfl
  · rfl

/-! ## Rows -/

/-- The session that the text of a row is restored as, unless the row counts as none. -/
def restoreRow (limits : Limits) (text : String) : Except Fault (Option Session) := do
  match ← Store.readRow text with
  | some j => (restore limits j).map some
  | none => return none

/-- What the text of a row is restored as. -/
inductive Restoration (limits : Limits) (text : List Char) : Except Fault (Option Session) → Prop
  | missing (hread : Json.read (Text.ofChars text) = .ok .null) :
    Restoration limits text (.ok none)
  /-- The text does not have the form of a document. -/
  | unreadable (hread : Json.read (Text.ofChars text) = .error .malformed) :
    Restoration limits text (.ok (some (fresh limits)))
  | described {j : Json} {s : Session} (hread : Json.read (Text.ofChars text) = .ok j)
    (hnull : j ≠ .null) (hwithin : ∀ m ∈ variablesOf j, ¬m.2.IsBeyondDoubles)
    (hs : Describes limits j s) : Restoration limits text (.ok (some s))
  | tooLarge {j : Json} {m : String × Json} (hread : Json.read (Text.ofChars text) = .ok j)
    (hm : m ∈ variablesOf j) (hbeyond : m.2.IsBeyondDoubles) :
    Restoration limits text (.error .tooLarge)
  | tooLong (hread : Json.read (Text.ofChars text) = .error .tooLong)
    (hdigits : Json.HasLongDigits text) : Restoration limits text (.error .tooLong)
  | tooDeep (hread : Json.read (Text.ofChars text) = .error .tooDeep)
    (hdepth : nestingRoom < text.countP Json.isOpening) :
    Restoration limits text (.error .tooDeep)

theorem nodup_variablesOf (h : Json.Storable nestingRoom j) :
    ((variablesOf j).map Prod.fst).Nodup := by
  unfold variablesOf
  split
  next members hget =>
    cases storable_get? (n := nestingRoom - 1) h hget with
    | object hnames _ _ => exact hnames
  · exact List.nodup_nil

theorem restore_empty (limits : Limits) : restore limits (.object []) = .ok (fresh limits) := by
  have hbegun : begun limits (.object []) = fresh limits := rfl
  have hclean : (fresh limits).cleanVariables = (fresh limits, none) :=
    cleanVariables_eq numeric_fresh
  rw [restore_eq, hbegun, hclean]
  rfl

theorem restoreRow_eq (limits : Limits) (text : Text) :
    restoreRow limits (String.ofList text) =
      match Json.read text with
      | .ok .null => .ok none
      | .ok j => (restore limits j).map some
      | .error .malformed => .ok (some (fresh limits))
      | .error .tooLong => .error .tooLong
      | .error .tooDeep => .error .tooDeep := by
  rw [restoreRow, Store.readRow, Json.parseOr, String.toList_ofList, Json.read?]
  cases Json.read text with
  | error e =>
    cases e with
    | malformed => exact congrArg (Except.map some) (restore_empty limits)
    | tooLong => rfl
    | tooDeep => rfl
  | ok j =>
    cases j with
    | null => rfl
    | _ => rfl

/-- Every text of a row is restored as a session that it describes, or as a fresh one if it is no
document, or counts as none if it is null, with three exceptions: an integer variable that is beyond
all doubles, more digits side by side than are read, and more lists and objects than may be
nested. -/
theorem restoration (limits : Limits) (text : List Char) :
    Restoration limits text (restoreRow limits (String.ofList (Text.ofChars text))) := by
  rw [restoreRow_eq]
  cases hread : Json.read (Text.ofChars text) with
  | error e =>
    have hjustified := Json.justifies_of_read_ofChars hread
    cases e with
    | malformed => exact .unreadable hread
    | tooLong => exact .tooLong hread hjustified
    | tooDeep => exact .tooDeep hread hjustified
  | ok j =>
    have hnames : ((variablesOf j).map Prod.fst).Nodup :=
      nodup_variablesOf (Json.storable_iff.mpr ⟨text, hread⟩)
    have hrestored (hnull : j ≠ .null) :
        Restoration limits text ((restore limits j).map some) := by
      by_cases hbeyond : ∃ m ∈ variablesOf j, m.2.IsBeyondDoubles
      · obtain ⟨m, hm, hbeyond⟩ := hbeyond
        rw [restore_of_isBeyondDoubles hnames hm hbeyond]
        exact .tooLarge hread hm hbeyond
      · have hwithin : ∀ m ∈ variablesOf j, ¬m.2.IsBeyondDoubles :=
          fun m hm h => hbeyond ⟨m, hm, h⟩
        obtain ⟨s, hs, hdescribes⟩ : ∃ s, restore limits j = .ok s ∧ Describes limits j s :=
          exists_describes hnames hwithin
        rw [hs]
        exact .described hread hnull hwithin hdescribes
    cases j with
    | null => exact .missing hread
    | _ => exact hrestored nofun

/-- A row with a variable of four hundred and one digits is not restored, though it holds a document
that is not nested deeply and whose integers can be read. -/
theorem restoreRow_large_variable :
    restoreRow ⟨100, 50, 100⟩ (String.ofList (Text.ofChars
      ("\x7b\"variables\": \x7b\"x\": 1".toList ++ List.replicate 400 '0' ++ "\x7d\x7d".toList))) =
      .error .tooLarge := by
  let j : Json := .object [("variables", .object [("x", .int (10 ^ 400))])]
  have hint : Json.Storable (nestingRoom - 2) (.int (10 ^ 400)) := .int (by decide +kernel)
  have hx : Text.Storable "x".toList := Text.storable_of_mark_not_mem (by decide)
  have hvariables : Text.Storable "variables".toList := Text.storable_of_mark_not_mem (by decide)
  have hstorable : Json.Storable nestingRoom j :=
    .object (List.nodup_singleton _) (List.forall_mem_singleton.mpr hvariables)
      (List.forall_mem_singleton.mpr (.object (List.nodup_singleton _)
        (List.forall_mem_singleton.mpr hx) (List.forall_mem_singleton.mpr hint)))
  have hwrite : Text.ofChars ("\x7b\"variables\": \x7b\"x\": 1".toList ++
      List.replicate 400 '0' ++ "\x7d\x7d".toList) = j.write := by decide +kernel
  have hbeyond : (Json.int (10 ^ 400)).IsBeyondDoubles := ⟨10 ^ 400, rfl, by decide +kernel⟩
  have hrestore : restore ⟨100, 50, 100⟩ j = .error .tooLarge :=
    restore_of_isBeyondDoubles (nodup_variablesOf hstorable) List.mem_cons_self hbeyond
  rw [hwrite, restoreRow_eq, Json.read_write hstorable]
  exact congrArg (Except.map some) hrestore

end Session

namespace Api

variable {limits : Limits} {store : Store} {name : String}

/-- A session is loaded by restoring its row. -/
theorem loadSession_of_text {text : String} (hread : store.canRead = true)
    (htext : store.text? name = some text) :
    loadSession limits store name =
      match Session.restoreRow limits text with
      | .ok (some s) => .ok s
      | .ok none => .error (.unknownSession name)
      | .error _ => .error .unexpected := by
  have hload : store.load name = Store.readRow text := by
    rw [Store.load, if_pos hread, htext]
  rw [loadSession, hload, Session.restoreRow]
  cases Store.readRow text with
  | error f => rfl
  | ok o =>
    cases o with
    | none => rfl
    | some j =>
      cases hrestore : Session.restore limits j with
      | error f =>
        simp only [bind, Except.bind, hrestore]
        rfl
      | ok s =>
        simp only [bind, Except.bind, hrestore]
        rfl

end Api
end DeskCalc
