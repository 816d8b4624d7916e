import DeskCalc.Proofs.Attempt
import DeskCalc.Proofs.Expression.Chain

/-!
# Reading expressions

The evaluator accepts exactly the texts that the grammar derives, with the values that the grammar
gives them.  Every factor takes some of the room for what it contains, so the levels are read
correctly by induction on the room that is left.
-/

namespace DeskCalc.Expression

open Text (StopsBefore takeWhile_run dropWhile_run)

variable {table : FunctionTable} {room : Nat}

theorem reads_sumOf {read : Reader} (h : Reads table room .factor read) :
    Reads table room .sum (sumOf read) :=
  reads_chain (reads_chain (reads_chain h Level.noConfusion) Level.noConfusion) Level.noConfusion

/-! ## What a factor is -/

/-- What a reader does with the closing parenthesis that has to follow. -/
def closing (err : Error) (found : Float × Text) : Except Error (Float × Text) :=
  match found.2 with
  | ')' :: rest => .ok (found.1, rest)
  | _ => .error err

theorem factor_group (s : Text) : factor table (room + 4) ('(' :: s) =
    sumOf (factor table room) s >>= closing .unclosedGroup :=
  rfl

theorem factor_group_deep {room : Nat} (hroom : room < 4) (s : Text) :
    factor table room ('(' :: s) = .error .tooDeep := by
  obtain rfl | rfl | rfl | rfl : room = 0 ∨ room = 1 ∨ room = 2 ∨ room = 3 := by omega
  all_goals rfl

theorem factor_minus (s : Text) : factor table (room + 1) ('-' :: s) =
    (factor table room s).map fun (x, rest) => (-x, rest) :=
  rfl

theorem factor_minus_deep (s : Text) : factor table 0 ('-' :: s) = .error .tooDeep :=
  rfl

theorem factor_plus_deep (s : Text) : factor table 0 ('+' :: s) = .error .tooDeep :=
  rfl

theorem factor_plus (s : Text) : factor table (room + 1) ('+' :: s) = factor table room s :=
  rfl

/-- What stands at the beginning of a factor that is neither a group nor has a sign. -/
def Plain (s : Text) : Prop :=
  StopsBefore (fun c => c == '(' || c == '-' || c == '+') s

theorem factor_number {s : Text} (hs : Plain s) (hletter : StopsBefore Text.isLetter s)
    (hnumber : s.head?.any isNumberChar = true) : factor table room s = readNumber s := by
  unfold factor
  split
  · cases hs
  · cases hs
  · cases hs
  · rw [Text.takeWhile_of_stops hletter]
    simp only [hnumber, if_true]

theorem factor_none {s : Text} (hs : Plain s) (hletter : StopsBefore Text.isLetter s)
    (hnumber : StopsBefore isNumberChar s) : factor table room s = .error .noOperand := by
  unfold factor
  split
  · cases hs
  · cases hs
  · cases hs
  · rw [Text.takeWhile_of_stops hletter]
    rw [if_neg (Bool.eq_false_iff.mp hnumber)]

theorem plain_letters {name : Text} (hne : name ≠ [])
    (hname : ∀ c ∈ name, Text.isLetter c = true) (rest : Text) : Plain (name ++ rest) := by
  obtain ⟨c, t, rfl⟩ := List.exists_cons_of_ne_nil hne
  have hc := hname c List.mem_cons_self
  have hgroup : c ≠ '(' := by rintro rfl; revert hc; decide
  have hminus : c ≠ '-' := by rintro rfl; revert hc; decide
  have hplus : c ≠ '+' := by rintro rfl; revert hc; decide
  simp [Plain, StopsBefore, hgroup, hminus, hplus]

/-- What a reader does with the parenthesis that has to follow an argument, and with the name in
front of it. -/
def calling (table : FunctionTable) (name : Text) (found : Float × Text) :
    Except Error (Float × Text) :=
  match found.2 with
  | ')' :: rest =>
    match table (name.map Char.toLower) with
    | some f => .ok (f found.1, rest)
    | none => .error (.unknownFunction name)
  | _ => .error .unclosedArgument

theorem factor_call {name : Text} (hne : name ≠ []) (hname : ∀ c ∈ name, Text.isLetter c = true)
    (s : Text) : factor table (room + 5) (name ++ '(' :: s) =
      sumOf (factor table room) s >>= calling table name := by
  have hstop : StopsBefore Text.isLetter ('(' :: s) := Text.stopsBefore_cons.mpr (by decide)
  have hplain := plain_letters hne hname ('(' :: s)
  unfold factor
  split
  next heq => rw [heq] at hplain; cases hplain
  next heq => rw [heq] at hplain; cases hplain
  next heq => rw [heq] at hplain; cases hplain
  · rw [takeWhile_run hname hstop, dropWhile_run hname hstop]
    split
    next hnil => exact absurd rfl hne
    · rfl

theorem factor_call_deep {name : Text} (hne : name ≠ [])
    (hname : ∀ c ∈ name, Text.isLetter c = true) {room : Nat} (hroom : room < 5) (s : Text) :
    factor table room (name ++ '(' :: s) = .error .tooDeep := by
  have hstop : StopsBefore Text.isLetter ('(' :: s) := Text.stopsBefore_cons.mpr (by decide)
  have hplain := plain_letters hne hname ('(' :: s)
  unfold factor
  split
  next heq => rw [heq] at hplain; cases hplain
  next heq => rw [heq] at hplain; cases hplain
  next heq => rw [heq] at hplain; cases hplain
  · rw [takeWhile_run hname hstop, dropWhile_run hname hstop]
    split
    next hnil => exact absurd rfl hne
    · split
      · split
        · omega
        · rfl
      next hother => exact absurd rfl (hother s)

theorem factor_name {name rest : Text} (hne : name ≠ [])
    (hname : ∀ c ∈ name, Text.isLetter c = true) (hrest : StopsBefore Text.isLetter rest)
    (hcall : StopsBefore (· == '(') rest) :
    factor table room (name ++ rest) = .error .noArgument := by
  have hplain := plain_letters hne hname rest
  unfold factor
  split
  next heq => rw [heq] at hplain; cases hplain
  next heq => rw [heq] at hplain; cases hplain
  next heq => rw [heq] at hplain; cases hplain
  · rw [takeWhile_run hname hrest, dropWhile_run hname hrest]
    split
    next hnil => exact absurd rfl hne
    · split
      · cases hcall
      · rfl

/-- The ways in which a factor may begin. -/
inductive Shape : Text → Prop where
  | group (s : Text) : Shape ('(' :: s)
  | minus (s : Text) : Shape ('-' :: s)
  | plus (s : Text) : Shape ('+' :: s)
  | call {name : Text} (hne : name ≠ []) (hname : ∀ c ∈ name, Text.isLetter c = true) (s : Text) :
    Shape (name ++ '(' :: s)
  | name {name rest : Text} (hne : name ≠ []) (hname : ∀ c ∈ name, Text.isLetter c = true)
    (hrest : StopsBefore Text.isLetter rest) (hcall : StopsBefore (· == '(') rest) :
    Shape (name ++ rest)
  | number {s : Text} (hs : Plain s) (hletter : StopsBefore Text.isLetter s)
    (hnumber : s.head?.any isNumberChar = true) : Shape s
  | other {s : Text} (hs : Plain s) (hletter : StopsBefore Text.isLetter s)
    (hnumber : StopsBefore isNumberChar s) : Shape s

theorem shape (s : Text) : Shape s := by
  obtain ⟨name, rest, rfl, hname, hrest⟩ := Text.exists_run Text.isLetter s
  by_cases hne : name = []
  · subst hne
    rw [List.nil_append]
    by_cases hs : Plain rest
    · by_cases hnumber : StopsBefore isNumberChar rest
      · exact .other hs hrest hnumber
      · exact .number hs hrest (by simpa [StopsBefore] using hnumber)
    · cases rest with
      | nil => exact absurd rfl hs
      | cons c t =>
        have hc : c = '(' ∨ c = '-' ∨ c = '+' := by
          simpa [Plain, StopsBefore, ← or_iff_not_imp_left] using hs
        rcases hc with rfl | rfl | rfl
        · exact .group t
        · exact .minus t
        · exact .plus t
  · by_cases hcall : StopsBefore (· == '(') rest
    · exact .name hne hname hrest hcall
    · cases rest with
      | nil => exact absurd rfl hcall
      | cons c t =>
        obtain rfl : c = '(' := by simpa [StopsBefore] using hcall
        exact .call hne hname t

/-- A factor fails for want of room, or else it goes on in the way in which it begins.  Whatever is
shown of all factors is shown in these cases. -/
@[elab_as_elim]
theorem factor_cases {motive : Nat → Text → Prop}
    (deep : ∀ {room s}, (∀ table, factor table room s = .error .tooDeep) → motive room s)
    (group : ∀ {room} s, motive (room + 4) ('(' :: s))
    (minus : ∀ {room} s, motive (room + 1) ('-' :: s))
    (plus : ∀ {room} s, motive (room + 1) ('+' :: s))
    (call : ∀ {room name}, name ≠ [] → (∀ c ∈ name, Text.isLetter c = true) → ∀ s,
      motive (room + 5) (name ++ '(' :: s))
    (name : ∀ {room s}, (∀ table, factor table room s = .error .noArgument) → motive room s)
    (number : ∀ {room s}, (∀ table, factor table room s = readNumber s) → motive room s)
    (other : ∀ {room s}, (∀ table, factor table room s = .error .noOperand) → motive room s)
    (room : Nat) (s : Text) : motive room s := by
  cases shape s with
  | group t =>
    by_cases hroom : room < 4
    · exact deep fun _ => factor_group_deep hroom t
    · obtain ⟨m, rfl⟩ := Nat.exists_eq_add_of_le' (Nat.not_lt.mp hroom)
      exact group t
  | minus t =>
    cases room with
    | zero => exact deep fun _ => factor_minus_deep t
    | succ m => exact minus t
  | plus t =>
    cases room with
    | zero => exact deep fun _ => factor_plus_deep t
    | succ m => exact plus t
  | call hne hname t =>
    by_cases hroom : room < 5
    · exact deep fun _ => factor_call_deep hne hname hroom t
    · obtain ⟨m, rfl⟩ := Nat.exists_eq_add_of_le' (Nat.not_lt.mp hroom)
      exact call hne hname t
  | name hne hname hrest hcall => exact name fun _ => factor_name hne hname hrest hcall
  | number hs hletter hnumber => exact number fun _ => factor_number hs hletter hnumber
  | other hs hletter hnumber => exact other fun _ => factor_none hs hletter hnumber

/-! ## The levels, by the room that is left -/

theorem closing_eq_ok {err : Error} {x y : Float} {s rest : Text}
    (h : closing err (x, s) = .ok (y, rest)) : s = ')' :: rest ∧ y = x := by
  unfold closing at h
  split at h
  next heq =>
    cases h
    exact ⟨heq, rfl⟩
  next => cases h

theorem closing_eq_error {err fault : Error} {found : Float × Text} (herr : err.isFormal = true)
    (h : closing err found = .error fault) : fault.isFormal = true := by
  unfold closing at h
  split at h
  · cases h
  · cases h
    exact herr

theorem calling_eq_ok {name : Text} {x y : Float} {s rest : Text}
    (h : calling table name (x, s) = .ok (y, rest)) :
    ∃ f, table (name.map Char.toLower) = some f ∧ s = ')' :: rest ∧ y = f x := by
  unfold calling at h
  split at h
  next heq =>
    split at h
    next f hf =>
      cases h
      exact ⟨f, hf, heq, rfl⟩
    next => cases h
  next => cases h

theorem calling_eq_error {name : Text} {fault : Error} {found : Float × Text}
    (h : calling table name found = .error fault) : fault.isFormal = true := by
  unfold calling at h
  split at h
  · split at h
    · cases h
    · cases h
      rfl
  · cases h
    rfl

theorem factor_sound (ih : ∀ m < room, Reads table m .factor (factor table m)) {s rest : Text}
    {x : Float} (hread : factor table room s = .ok (x, rest)) :
    ∃ e, Derives table .factor e s rest ∧ e.depth ≤ room ∧ e.value? = some x := by
  cases room, s using factor_cases with
  | deep hdeep =>
    rw [hdeep] at hread
    cases hread
  | @group m t =>
    rw [factor_group] at hread
    obtain ⟨⟨y, after⟩, hsum, hclosing⟩ := bind_eq_ok hread
    obtain ⟨rfl, rfl⟩ := closing_eq_ok hclosing
    obtain ⟨e, he, hdepth, hvalue, -⟩ := (reads_sumOf (ih m (by omega))).sound hsum
    exact ⟨.group e, .group he, Nat.add_le_add_right hdepth 4, hvalue⟩
  | @minus m t =>
    rw [factor_minus] at hread
    obtain ⟨⟨y, after⟩, hfactor, heq⟩ := map_eq_ok hread
    cases heq
    obtain ⟨e, he, hdepth, hvalue, -⟩ := (ih m (Nat.lt_succ_self m)).sound hfactor
    exact ⟨.minus e, .minus he, Nat.succ_le_succ hdepth, by simp [Tree.value?, hvalue]⟩
  | @plus m t =>
    rw [factor_plus] at hread
    obtain ⟨e, he, hdepth, hvalue, -⟩ := (ih m (Nat.lt_succ_self m)).sound hread
    exact ⟨.plus e, .plus he, Nat.succ_le_succ hdepth, hvalue⟩
  | @call m name hne hname t =>
    rw [factor_call hne hname] at hread
    obtain ⟨⟨y, after⟩, hsum, hcalling⟩ := bind_eq_ok hread
    obtain ⟨f, hf, rfl, rfl⟩ := calling_eq_ok hcalling
    obtain ⟨e, he, hdepth, hvalue, -⟩ := (reads_sumOf (ih m (by omega))).sound hsum
    exact ⟨.call f e, .call hne hname hf he, Nat.add_le_add_right hdepth 5,
      by simp [Tree.value?, hvalue]⟩
  | name hname =>
    rw [hname] at hread
    cases hread
  | number hnumber =>
    rw [hnumber] at hread
    obtain ⟨n, hn, rfl⟩ := literal_of_readNumber hread
    exact ⟨.number n, .number hn, Nat.zero_le _, rfl⟩
  | other hother =>
    rw [hother] at hread
    cases hread

theorem factor_fails (ih : ∀ m < room, Reads table m .factor (factor table m)) {s : Text}
    {err : Error} (hread : factor table room s = .error err) :
    err.isFormal = true ∨ err = .divisionByZero ∧ MeetsZero table room .factor s := by
  cases room, s using factor_cases with
  | deep hdeep =>
    rw [hdeep] at hread
    cases hread
    exact .inl rfl
  | @group m t =>
    rw [factor_group] at hread
    rcases bind_eq_error hread with hsum | ⟨_, -, hclosing⟩
    · exact ((reads_sumOf (ih m (by omega))).fails hsum).imp_right (.imp_right .group)
    · exact .inl (closing_eq_error rfl hclosing)
  | @minus m t =>
    rw [factor_minus] at hread
    exact ((ih m (Nat.lt_succ_self m)).fails (map_eq_error hread)).imp_right (.imp_right .minus)
  | @plus m t =>
    rw [factor_plus] at hread
    exact ((ih m (Nat.lt_succ_self m)).fails hread).imp_right (.imp_right .plus)
  | @call m name hne hname t =>
    rw [factor_call hne hname] at hread
    rcases bind_eq_error hread with hsum | ⟨_, -, hcalling⟩
    · exact ((reads_sumOf (ih m (by omega))).fails hsum).imp_right (.imp_right (.call hne hname))
    · exact .inl (calling_eq_error hcalling)
  | name hname =>
    rw [hname] at hread
    cases hread
    exact .inl rfl
  | number hnumber =>
    rw [hnumber] at hread
    exact .inl (isFormal_of_readNumber hread)
  | other hother =>
    rw [hother] at hread
    cases hread
    exact .inl rfl

theorem shape_of_literal {n : Number.Numeral} {s rest : Text} (h : Literal n s rest) :
    Plain s ∧ StopsBefore Text.isLetter s ∧ s.head?.any isNumberChar = true := by
  obtain ⟨c, t, rfl, hc⟩ := h.head
  have hgroup : c ≠ '(' := by rintro rfl; cases hc
  have hminus : c ≠ '-' := by rintro rfl; cases hc
  have hplus : c ≠ '+' := by rintro rfl; cases hc
  have hletter : Text.isLetter c = false := isLetter_of_isNumberChar hc
  exact ⟨by simp [Plain, StopsBefore, hgroup, hminus, hplus], by simpa [StopsBefore] using hletter,
    by simpa using hc⟩

theorem factor_complete (ih : ∀ m < room, Reads table m .factor (factor table m)) {e : Tree}
    {s rest : Text} (he : Derives table .factor e s rest) (hdepth : e.depth ≤ room) :
    factor table room s = outcome e.value? rest := by
  generalize hlevel : Level.factor = level at he
  induction he with
  | number hn =>
    obtain ⟨hs, hletter, hnumber⟩ := shape_of_literal hn
    rw [factor_number hs hletter hnumber, hn.read]
    rfl
  | @group e t rest he _ =>
    obtain ⟨m, rfl⟩ := Nat.exists_eq_add_of_le' (Nat.le_of_add_left_le hdepth)
    have hsum := (reads_sumOf (ih m (by omega))).complete he (Nat.le_of_add_le_add_right hdepth)
      (finished_parenthesis .sum rest)
    rw [factor_group, hsum, Tree.value?]
    cases e.value? <;> rfl
  | @minus e t rest he _ =>
    obtain ⟨m, rfl⟩ := Nat.exists_eq_add_of_le' (Nat.le_of_add_left_le hdepth)
    have hfactor := (ih m (by omega)).complete he (Nat.le_of_add_le_add_right hdepth) trivial
    rw [factor_minus, hfactor, Tree.value?]
    cases e.value? <;> rfl
  | @plus e t rest he _ =>
    obtain ⟨m, rfl⟩ := Nat.exists_eq_add_of_le' (Nat.le_of_add_left_le hdepth)
    have hfactor := (ih m (by omega)).complete he (Nat.le_of_add_le_add_right hdepth) trivial
    rw [factor_plus, hfactor, Tree.value?]
  | @call name f e t rest hne hname hf he _ =>
    obtain ⟨m, rfl⟩ := Nat.exists_eq_add_of_le' (Nat.le_of_add_left_le hdepth)
    have hsum := (reads_sumOf (ih m (by omega))).complete he (Nat.le_of_add_le_add_right hdepth)
      (finished_parenthesis .sum rest)
    rw [factor_call hne hname, hsum, Tree.value?]
    cases e.value? with
    | none => rfl
    | some x => simp [outcome, calling, bind, Except.bind, hf]
  | @operand level e s rest _ ihoperand =>
    subst hlevel
    exact ihoperand hdepth rfl
  | @operation o left right s t rest _ _ _ _ =>
    exact absurd hlevel.symm o.level_ne_factor

theorem factor_zero (ih : ∀ m < room, Reads table m .factor (factor table m)) {s : Text}
    (hzero : MeetsZero table room .factor s) : factor table room s = .error .divisionByZero := by
  generalize hlevel : Level.factor = level at hzero
  induction hzero with
  | divisor _ _ _ _ _ _ _ _ => cases hlevel
  | operand _ ihoperand =>
    subst hlevel
    exact ihoperand ih rfl
  | @operation _ o _ _ _ _ _ _ _ _ _ =>
    exact absurd hlevel.symm o.level_ne_factor
  | group hzero _ =>
    rw [factor_group, (reads_sumOf (ih _ (by omega))).zero hzero]
    rfl
  | minus hzero _ =>
    rw [factor_minus, (ih _ (by omega)).zero hzero]
    rfl
  | plus hzero _ => rw [factor_plus, (ih _ (by omega)).zero hzero]
  | call hne hname hzero _ =>
    rw [factor_call hne hname, (reads_sumOf (ih _ (by omega))).zero hzero]
    rfl

theorem reads_factor (table : FunctionTable) (room : Nat) :
    Reads table room .factor (factor table room) := by
  induction room using Nat.strong_induction_on with
  | h room ih =>
    exact {
      sound := fun hread => by
        obtain ⟨e, he, hdepth, hvalue⟩ := factor_sound ih hread
        exact ⟨e, he, hdepth, hvalue, trivial⟩
      complete := fun he hdepth _ => factor_complete ih he hdepth
      fails := factor_fails ih
      zero := factor_zero ih }

/-! ## Whole texts -/

/-- The tree is written by the whole text, and its parts are not too deep inside each other. -/
def Denotes (table : FunctionTable) (s : Text) (e : Tree) : Prop :=
  Derives table .sum e s [] ∧ e.depth ≤ nestingRoom

theorem valueOf_of_denotes {s : Text} {e : Tree} (h : Denotes table s e) :
    valueOf table s = e.value?.elim (.error .divisionByZero) .ok := by
  have hread := (reads_sumOf (reads_factor table nestingRoom)).complete h.1 h.2 (finished_nil .sum)
  rw [valueOf, hread]
  cases e.value? <;> rfl

theorem denotes_of_valueOf {s : Text} {x : Float} (h : valueOf table s = .ok x) :
    ∃ e, Denotes table s e ∧ e.value? = some x := by
  simp only [valueOf, bind, Except.bind] at h
  split at h
  · cases h
  next found hread =>
    obtain ⟨y, rest⟩ := found
    split at h
    next heq =>
      cases h
      obtain ⟨e, he, hdepth, hvalue, -⟩ :=
        (reads_sumOf (reads_factor table nestingRoom)).sound hread
      obtain rfl : rest = [] := heq
      exact ⟨e, ⟨he, hdepth⟩, hvalue⟩
    next => cases h

theorem outcome_injective {value value' : Option Float} {rest : Text}
    (h : outcome value rest = outcome value' rest) : value = value' := by
  cases value <;> cases value' <;> cases h <;> rfl

/-- All trees of a text have the same value, however deep they are. -/
theorem Derives.value?_unique {s : Text} {e e' : Tree} (h : Derives table .sum e s [])
    (h' : Derives table .sum e' s []) : e.value? = e'.value? := by
  have hreads := reads_sumOf (reads_factor table (max e.depth e'.depth))
  have hread := hreads.complete h (Nat.le_max_left _ _) (finished_nil .sum)
  have hread' := hreads.complete h' (Nat.le_max_right _ _) (finished_nil .sum)
  exact outcome_injective (hread.symm.trans hread')

theorem valueOf_of_meetsZero {s : Text} (h : MeetsZero table nestingRoom .sum s) :
    valueOf table s = .error .divisionByZero := by
  rw [valueOf, (reads_sumOf (reads_factor table nestingRoom)).zero h]
  rfl

theorem valueOf_eq_error {s : Text} {err : Error} (h : valueOf table s = .error err) :
    err.isFormal = true ∨ err = .divisionByZero ∧ MeetsZero table nestingRoom .sum s := by
  simp only [valueOf, bind, Except.bind] at h
  split at h
  next hread =>
    cases h
    exact (reads_sumOf (reads_factor table nestingRoom)).fails hread
  · split at h
    · cases h
    · cases h
      exact .inl rfl

/-- A text of the grammar fails only because its tree has no value. -/
theorem Denotes.of_error {s : Text} {e : Tree} {err : Error} (h : Denotes table s e)
    (herr : valueOf table s = .error err) : err = .divisionByZero ∧ e.value? = none := by
  rw [valueOf_of_denotes h] at herr
  cases hvalue : e.value? with
  | none =>
    rw [hvalue] at herr
    exact ⟨(Except.error.inj herr).symm, rfl⟩
  | some x =>
    rw [hvalue] at herr
    cases herr

theorem valueOf_eq_ok_iff (table : FunctionTable) (s : Text) (x : Float) :
    valueOf table s = .ok x ↔ ∃ e, Denotes table s e ∧ e.value? = some x := by
  refine ⟨denotes_of_valueOf, ?_⟩
  rintro ⟨e, he, hx⟩
  rw [valueOf_of_denotes he, hx]
  rfl

theorem valueOf_eq_divisionByZero_iff (table : FunctionTable) (s : Text) :
    valueOf table s = .error .divisionByZero ↔
      (∃ e, Denotes table s e ∧ e.value? = none) ∨
      (¬∃ e, Denotes table s e) ∧ MeetsZero table nestingRoom .sum s := by
  constructor
  · intro hzero
    by_cases hder : ∃ e, Denotes table s e
    · obtain ⟨e, he⟩ := hder
      exact .inl ⟨e, he, (he.of_error hzero).2⟩
    · rcases valueOf_eq_error hzero with hformal | ⟨-, hmeets⟩
      · cases hformal
      · exact .inr ⟨hder, hmeets⟩
  · rintro (⟨e, he, hnone⟩ | ⟨-, hmeets⟩)
    · rw [valueOf_of_denotes he, hnone]
      rfl
    · exact valueOf_of_meetsZero hmeets

theorem valueOf_isFormal_iff (table : FunctionTable) (s : Text) :
    (∃ err : Error, err.isFormal = true ∧ valueOf table s = .error err) ↔
      (¬∃ e, Denotes table s e) ∧ ¬MeetsZero table nestingRoom .sum s := by
  constructor
  · rintro ⟨err, hformal, herr⟩
    constructor
    · rintro ⟨e, he⟩
      obtain ⟨rfl, -⟩ := he.of_error herr
      cases hformal
    · intro hmeets
      rw [valueOf_of_meetsZero hmeets] at herr
      cases herr
      cases hformal
  · rintro ⟨hder, hmeets⟩
    cases hvalue : valueOf table s with
    | ok x =>
      obtain ⟨e, he, -⟩ := denotes_of_valueOf hvalue
      exact absurd ⟨e, he⟩ hder
    | error err =>
      rcases valueOf_eq_error hvalue with herr | ⟨-, hzero⟩
      · exact ⟨err, herr, rfl⟩
      · exact absurd hzero hmeets

/-- The evaluator accepts the texts that the grammar derives, with the values of their trees.  It
reports a zero divisor for a text of the grammar that has no value and for a text that leaves the
grammar behind a zero divisor, and an error of form for any other text. -/
theorem valueOf_spec (table : FunctionTable) (s : Text) :
    (∀ x, valueOf table s = .ok x ↔ ∃ e, Denotes table s e ∧ e.value? = some x) ∧
    (valueOf table s = .error .divisionByZero ↔
      (∃ e, Denotes table s e ∧ e.value? = none) ∨
      (¬∃ e, Denotes table s e) ∧ MeetsZero table nestingRoom .sum s) ∧
    ((∃ err : Error, err.isFormal = true ∧ valueOf table s = .error err) ↔
      (¬∃ e, Denotes table s e) ∧ ¬MeetsZero table nestingRoom .sum s) :=
  ⟨valueOf_eq_ok_iff table s, valueOf_eq_divisionByZero_iff table s, valueOf_isFormal_iff table s⟩

end DeskCalc.Expression
