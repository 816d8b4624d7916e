import DeskCalc.Proofs.Session.Terms
import DeskCalc.Proofs.Text.Alphabet

/-!
# Printed terms and the grammar

When the texts of their values have been put in the places of its names, a printed term derives a
tree of the same value and the same depth.  A negative value brings a sign along, which binds
tighter than any operator, so values need no parentheses.
-/

namespace DeskCalc.Session

open Expression (Derives Level Operator Spelling Tree plainZero standardTable)
open Json (isNumberPart)
open Text (StopsBefore stopsBefore_cons)

/-! ## Texts that derive a tree -/

/-- The text derives a tree with this value and this depth at a level of the grammar, wherever
nothing follows that would continue a number. -/
def Stands (level : Level) (s : Text) (value : Option Float) (depth : Nat) : Prop :=
  ∃ e : Tree, e.value? = value ∧ e.depth = depth ∧
    ∀ rest, StopsBefore isNumberPart rest → Derives standardTable level e (s ++ rest) rest

variable {level : Level} {s t : Text} {value other : Option Float} {depth room : Nat}

theorem Stands.operand (h : Stands level.operand s value depth) : Stands level s value depth := by
  obtain ⟨e, hvalue, hdepth, hderives⟩ := h
  exact ⟨e, hvalue, hdepth, fun rest hrest => .operand (hderives rest hrest)⟩

/-- What stands at a level stands at every lower one. -/
theorem Stands.lower (h : Stands level s value depth) {lower : Level}
    (hle : rank lower ≤ rank level) : Stands lower s value depth := by
  cases lower <;> cases level <;> first
    | exact h
    | exact .operand h
    | exact .operand (.operand h)
    | exact .operand (.operand (.operand h))
    | exact absurd hle (by decide)

theorem Stands.group (h : Stands .sum s value depth) :
    Stands .factor ('(' :: s ++ [')']) value (depth + 4) := by
  obtain ⟨e, hvalue, hdepth, hderives⟩ := h
  refine ⟨.group e, hvalue, congrArg (· + 4) hdepth, fun rest _ => ?_⟩
  rw [List.cons_append, List.cons_append, List.append_assoc]
  exact .group (hderives (')' :: rest) rfl)

theorem Stands.plus (h : Stands .factor s value depth) :
    Stands .factor ('+' :: s) value (depth + 1) := by
  obtain ⟨e, hvalue, hdepth, hderives⟩ := h
  exact ⟨.plus e, hvalue, congrArg (· + 1) hdepth, fun rest hrest => .plus (hderives rest hrest)⟩

theorem Stands.minus (h : Stands .factor s value depth) :
    Stands .factor ('-' :: s) (value.map (-·)) (depth + 1) := by
  obtain ⟨e, hvalue, hdepth, hderives⟩ := h
  exact ⟨.minus e, congrArg (Option.map (-·)) hvalue, congrArg (· + 1) hdepth,
    fun rest hrest => .minus (hderives rest hrest)⟩

theorem Stands.call (h : Stands .sum s value depth) {name : Text} {f : Float → Float}
    (hne : name ≠ []) (hname : ∀ c ∈ name, Text.isLetter c = true)
    (hf : functionOf? name = some f) :
    Stands .factor (name ++ ('(' :: s ++ [')'])) (value.map f) (depth + 5) := by
  obtain ⟨e, hvalue, hdepth, hderives⟩ := h
  refine ⟨.call f e, congrArg (Option.map f) hvalue, congrArg (· + 5) hdepth, fun rest _ => ?_⟩
  rw [List.append_assoc, List.cons_append, List.cons_append, List.append_assoc]
  exact .call hne hname hf (hderives (')' :: rest) rfl)

theorem stopsBefore_operator (o : Operator) (t : Text) :
    StopsBefore isNumberPart (o.sign ++ t) := by
  cases o <;> rfl

theorem Stands.operation {o : Operator} (hs : Stands o.level s value depth)
    (ht : Stands o.level.operand t other room) :
    Stands o.level (s ++ (o.sign ++ t))
      (value.bind fun x => other.bind fun y => o.result? x y) (max depth room) := by
  obtain ⟨e, rfl, rfl, hleft⟩ := hs
  obtain ⟨e', rfl, rfl, hright⟩ := ht
  refine ⟨.operation o e e', rfl, rfl, fun rest hrest => ?_⟩
  rw [List.append_assoc, List.append_assoc]
  exact .operation (hleft _ (stopsBefore_operator o _)) (hright rest hrest)

theorem stands_spelling (n : Spelling) : Stands .factor n.text (some n.numeral.value) 0 :=
  ⟨.number n.numeral, rfl, rfl, fun _ hrest => .number (n.literal hrest)⟩

/-! ## Numbers in the places of names -/

/-- The text of a finite number, zero without its sign, is a factor with that value. -/
theorem stands_numberText {x : Float} (hx : x.isFinite = true) :
    Stands .factor (Number.numberText x) (some (plainZero x)) (Term.signDepth (plainZero x)) := by
  have hsign : decide (plainZero x < 0) = decide (x < 0) := by
    rw [plainZero]
    split
    next hzero =>
      have hbits := (Number.beq_zero_iff hx).mp hzero
      rw [Bool.eq_iff_iff, decide_eq_true_iff, decide_eq_true_iff, Number.lt_zero_iff hx,
        Number.lt_zero_iff Number.isFinite_zero]
      constructor
      · rintro ⟨-, hne⟩
        exact absurd (by decide) hne
      · rintro ⟨-, hne⟩
        exact absurd hbits hne
    · rfl
  obtain ⟨n, htext, hvalue⟩ := Expression.exists_spelling hx
  have hdepth : Term.signDepth (plainZero x) = if decide (x < 0) then 1 else 0 := by
    rw [Term.signDepth, ← hsign]
    simp
  rw [htext, hdepth, ← hvalue]
  cases decide (x < 0) with
  | true => exact (stands_spelling n).minus
  | false => exact stands_spelling n

/-- How the names and the last result are written: variables and constants by their numbers, and
what is called by its name. -/
structure Writes (bindings : List (String × Json)) (nameText : Identifier → Text)
    (lastText : Text) : Prop where
  last : Stands .factor lastText (some (lastValue bindings)) (Term.signDepth (lastValue bindings))
  names : ∀ n x, nameValue? bindings n.text = some x →
    Stands .factor (nameText n) (some x) (Term.signDepth x)
  functions : ∀ f, (functionOf? f.text).isSome = true →
    bindings.lookup (String.ofList f.text) = none → nameText f = f.text

/-! ## Functions -/

/-- Functions have names of letters. -/
theorem isLetter_of_functionOf? {name : Text} (h : (functionOf? name).isSome = true) :
    name ≠ [] ∧ ∀ c ∈ name, Text.isLetter c = true := by
  rw [functionOf?, Expression.standardTable, Expression.tableOf, Option.isSome_map,
    List.find?_isSome] at h
  obtain ⟨f, hf, hname⟩ := h
  have hlower : f.name.toList = name.map Char.toLower := by simpa using hname
  have hletters : ∀ f ∈ Expression.Function.standard,
      f.name.toList ≠ [] ∧ f.name.toList.all Text.isLetter = true := by decide
  obtain ⟨hne, hall⟩ := hletters f hf
  rw [hlower] at hne hall
  refine ⟨fun hnil => hne (by rw [hnil]; rfl), fun c hc => ?_⟩
  exact Text.isLetter_of_toLower (List.all_eq_true.mp hall _ (List.mem_map_of_mem hc))

/-! ## Terms -/

variable {bindings : List (String × Json)} {nameText : Identifier → Text} {lastText : Text}

/-- Tokens written one behind the other. -/
def joinTokens (nameText : Identifier → Text) (lastText : Text) (tokens : List Token) : Text :=
  tokens.flatMap (Token.text nameText lastText)

theorem joinTokens_cons (k : Token) (tokens : List Token) :
    joinTokens nameText lastText (k :: tokens) =
      k.text nameText lastText ++ joinTokens nameText lastText tokens :=
  List.flatMap_cons

theorem joinTokens_append (tokens more : List Token) :
    joinTokens nameText lastText (tokens ++ more) =
      joinTokens nameText lastText tokens ++ joinTokens nameText lastText more :=
  List.flatMap_append

theorem joinTokens_bracketed (tokens : List Token) :
    joinTokens nameText lastText (Term.bracketed true tokens) =
      '(' :: joinTokens nameText lastText tokens ++ [')'] := by
  rw [Term.bracketed, if_pos rfl, List.cons_append, joinTokens_cons, joinTokens_append]
  rfl

/-- At a level where it may need parentheses, a term stands with them if it does. -/
theorem stands_bracketed {t : Term} (level : Level)
    (h : Stands t.level (joinTokens nameText lastText t.tokens) value depth) :
    Stands level (joinTokens nameText lastText (Term.bracketed (t.needsGroup level) t.tokens)) value
      (Term.groupDepth (t.needsGroup level) depth) := by
  cases hgroup : t.needsGroup level with
  | true =>
    rw [joinTokens_bracketed, Term.groupDepth, if_pos rfl]
    have hsum : Stands .sum (joinTokens nameText lastText t.tokens) value depth :=
      h.lower (Nat.zero_le _)
    exact hsum.group.lower (by cases level <;> decide)
  | false =>
    rw [Term.bracketed, Term.groupDepth, if_neg Bool.false_ne_true, if_neg Bool.false_ne_true]
    refine h.lower ?_
    simpa [Term.needsGroup] using hgroup

/-- A printed term stands for its value. -/
theorem stands_term (hwrites : Writes bindings nameText lastText) (t : Term)
    (ht : t.Resolves bindings) :
    Stands t.level (joinTokens nameText lastText t.tokens) (t.value? bindings)
      (t.depth bindings) := by
  have hsingle (k : Token) : joinTokens nameText lastText [k] = k.text nameText lastText := by
    rw [joinTokens_cons]
    exact List.append_nil _
  induction t with
  | number n =>
    rw [Term.tokens, hsingle]
    exact stands_spelling n
  | last =>
    rw [Term.tokens, hsingle]
    exact hwrites.last
  | name n =>
    obtain ⟨x, hx⟩ := Option.isSome_iff_exists.mp ht
    rw [Term.tokens, hsingle, Term.value?, Term.depth, hx]
    exact hwrites.names n x hx
  | group t ih =>
    rw [Term.tokens, joinTokens_bracketed]
    exact ((ih ht).lower (Nat.zero_le _)).group
  | plus t ih => exact (stands_bracketed .factor (ih ht)).plus
  | minus t ih => exact (stands_bracketed .factor (ih ht)).minus
  | call f t ih =>
    obtain ⟨hf, hfree, ht⟩ := ht
    obtain ⟨g, hg⟩ := Option.isSome_iff_exists.mp hf
    obtain ⟨hne, hname⟩ := isLetter_of_functionOf? hf
    rw [Term.tokens, joinTokens_cons, joinTokens_bracketed, Term.value?, hg,
      Token.text, hwrites.functions f hf hfree]
    have hsum : Stands .sum (joinTokens nameText lastText t.tokens) (t.value? bindings)
        (t.depth bindings) := (ih ht).lower (Nat.zero_le _)
    have hcall := hsum.call hne hname hg
    rwa [Option.map_eq_bind] at hcall
  | operation o left right ihleft ihright =>
    rw [Term.tokens, joinTokens_append, joinTokens_cons]
    exact (stands_bracketed o.level (ihleft ht.1)).operation
      (stands_bracketed o.level.operand (ihright ht.2))

end DeskCalc.Session
