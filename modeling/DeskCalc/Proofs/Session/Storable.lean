import DeskCalc.Proofs.Expression.Messages
import DeskCalc.Proofs.Json.Plain
import DeskCalc.Proofs.Query.Rules
import DeskCalc.Proofs.Session.Run
import DeskCalc.Proofs.Session.Substitution

/-!
# Storable sessions

A session is storable if a document can hold all that is in it, apart from the position of the
cursor.  Submitting texts that documents can hold keeps a session storable: what it writes into its
history and its log are such texts, stripped, or wordings, names, numbers and units without marks,
or a sign of the expression at which reading stopped.
-/

namespace DeskCalc

open Json (nestingRoom)
open Text (mark Aligned Shape)

/-! ## What is storable -/

/-- A position that a document can hold. -/
def Mark.Storable (m : Mark) : Prop :=
  Json.Storable 0 m.toJson

/-- An entry of the log that a document can hold.  Its error lies three levels deep in the document
of a session. -/
structure Entry.Storable (e : Entry) : Prop where
  input : Text.Storable e.input.toList
  output : Text.Storable e.output.toList
  kind : Text.Storable e.kind.toList
  error : Json.Storable (nestingRoom - 3) e.error

/-- What a user does, where every line is a text that a document can hold. -/
def Action.Storable : Action → Prop
  | .submit line => Text.Storable line.toList
  | .older => True
  | .newer => True

theorem Text.storable_ofList {s : Text} (h : Text.Storable s) :
    Text.Storable (String.ofList s).toList := by
  rwa [String.toList_ofList]

theorem Text.storable_append {s t : String} (hs : mark ∉ s.toList) (ht : Text.Storable t.toList) :
    Text.Storable (s ++ t).toList := by
  rw [String.toList_append]
  exact .append hs ht

namespace Session

/-- Everything in the session but the cursor can be held by a document. -/
structure Storable (s : Session) : Prop where
  history : ∀ line ∈ s.history, Text.Storable line.toList
  distinct : (s.bindings.map Prod.fst).Nodup
  names : ∀ name ∈ s.bindings.map Prod.fst, Text.Storable name.toList
  results : ∀ e ∈ s.results, e.Storable
  inputValue : Text.Storable s.inputValue.toList
  cursorStart : s.cursorStart.Storable
  cursorEnd : s.cursorEnd.Storable

variable {s : Session}

theorem storable_lastName : Text.Storable lastName.toList :=
  Text.storable_of_mark_not_mem (by decide)

theorem storable_origin : Mark.Storable (.at 0) :=
  .int (by decide)

theorem storable_fresh (limits : Limits) : Storable (fresh limits) where
  history := List.forall_mem_nil _
  distinct := List.nodup_singleton _
  names := List.forall_mem_singleton.mpr storable_lastName
  results := List.forall_mem_nil _
  inputValue := Text.storable_nil
  cursorStart := storable_origin
  cursorEnd := storable_origin

/-! ## Operations -/

theorem mem_of_mem_lastOf {α : Type} {n : Nat} {xs : List α} {x : α} (h : x ∈ lastOf n xs) :
    x ∈ xs :=
  List.mem_of_mem_drop h

theorem Storable.setVariable (h : Storable s) {name : String} (hname : Text.Storable name.toList)
    (value : Json) : Storable (s.setVariable name value) :=
  { h with
    distinct := Json.nodup_setMember h.distinct
    names := fun n hn => (Json.mem_names_setMember hn).elim (fun heq => heq ▸ hname) (h.names n) }

theorem Storable.setLast (h : Storable s) (x : Float) : Storable (s.setLast x) :=
  h.setVariable storable_lastName _

theorem Storable.addResult (h : Storable s) {e : Entry} (he : e.Storable) :
    Storable (s.addResult e) := by
  refine { h with results := fun f hf => ?_ }
  rcases List.mem_append.mp (mem_of_mem_lastOf hf) with hf | hf
  · exact h.results f hf
  · rwa [List.mem_singleton.mp hf]

theorem Storable.addHistory (h : Storable s) {line : String} (hline : Text.Storable line.toList) :
    Storable (s.addHistory line) := by
  refine { h with history := fun l hl => ?_ }
  rcases List.mem_append.mp (mem_of_mem_lastOf hl) with hl | hl
  · exact h.history l hl
  · rwa [List.mem_singleton.mp hl]

theorem Storable.limitVariables (h : Storable s) : Storable s.limitVariables := by
  have hsublist := (List.filter_sublist (l := s.bindings) (p := fun v =>
    !(s.sortedNames.take (s.sortedNames.length - s.limits.bindings)).contains v.1)).map Prod.fst
  exact { h with
    distinct := h.distinct.sublist hsublist
    names := fun n hn => h.names n (hsublist.subset hn) }

theorem Storable.navigate (h : Storable s) (step : Int) : Storable (s.navigate step).1 := by
  rw [Session.navigate]
  split
  · exact h
  · refine { h with inputValue := ?_ }
    simp only
    cases hline : s.history[(min (max (s.cursor.place + step) 0) s.history.length).toNat]? with
    | none => exact Text.storable_nil
    | some line => exact h.history line (List.mem_of_getElem? hline)

/-! ## Entries -/

theorem storable_failure {line message : String} (hline : Text.Storable line.toList)
    (hmessage : Text.Storable message.toList) : (Entry.ofFailure line message).Storable where
  input := hline
  output := Text.storable_append (by decide) hmessage
  kind := by
    have hkind : mark ∉ Entry.failure.toList := by decide
    exact Text.storable_of_mark_not_mem hkind
  error := .str hmessage

/-- An entry without an error, of one of the kinds that lines give. -/
theorem storable_entry {line output kind : String} (hline : Text.Storable line.toList)
    (houtput : Text.Storable output.toList)
    (hkind : kind ∈ [Entry.normal, Entry.units, Entry.assignment]) :
    Entry.Storable ⟨line, output, kind, .null⟩ where
  input := hline
  output := houtput
  kind := by
    have hall : ∀ k ∈ [Entry.normal, Entry.units, Entry.assignment], mark ∉ k.toList := by decide
    exact Text.storable_of_mark_not_mem (hall kind hkind)
  error := .null

theorem storable_answer {query answer : Text} (h : queryAnswer? query = some answer) :
    Text.Storable (String.ofList answer).toList :=
  Text.storable_ofList (Text.storable_of_mark_not_mem (answer_of_queryAnswer? h).mark_not_mem)

theorem storable_numberText (x : Float) :
    Text.Storable (String.ofList (Number.numberText x)).toList :=
  Text.storable_ofList
    (Text.storable_of_mark_not_mem (Number.isNumberText_numberText x).mark_not_mem)

/-- The message of an expression that has no value. -/
theorem storable_message {expression : Text} {e : Expression.Error} (hs : Aligned expression)
    (h : s.evaluate expression = .error (.expression e)) : Text.Storable e.message.toList := by
  rw [evaluate] at h
  split at h
  · cases h
  next prepared hprepared =>
    split at h
    next err hvalue =>
      cases h
      exact (Expression.quotable_evaluate (aligned_substitute hs hprepared) hvalue).storable
    · cases h

/-! ## Assignments -/

theorem low_isPlainBlank : Text.Low Text.isPlainBlank := by
  intro c hc
  rw [Text.isPlainBlank, Bool.or_eq_true, beq_iff_eq, Bool.and_eq_true, decide_eq_true_eq,
    decide_eq_true_eq] at hc
  rcases hc with rfl | hc
  · decide
  · omega

theorem low_break : Text.Low fun c => !Query.isOnLine c := by
  intro c hc
  obtain rfl : c = '\n' := by simpa [Query.isOnLine] using hc
  decide

/-- The parts of an assignment: a sign, a name, blanks, an equality sign, blanks and a value. -/
theorem assignment?_parts {line : Text} {name : String} {value : Text}
    (h : assignment? line = some (name, value)) :
    ∃ (sign : Option Char) (word blanks given : Text),
      line = sign.toList ++ word ∧ (∀ c ∈ sign, c = '@') ∧
      name.toList = sign.toList ++ word.takeWhile isNameChar ∧
      (word.dropWhile isNameChar).dropWhile Text.isPlainBlank = '=' :: (blanks ++ given) ∧
      (∀ c ∈ blanks, Text.isPlainBlank c = true) ∧
      value = Text.strip (given.takeWhile Query.isOnLine) := by
  obtain ⟨⟨letters, found⟩, hread, heq⟩ := Option.map_eq_some_iff.mp h
  cases heq
  obtain ⟨rest, hfits⟩ := Shape.fits_of_read? hread
  simp only [assignmentShape, Shape.fits_bind, Shape.fits_pure, Prod.mk.injEq] at hfits
  obtain ⟨sign, t₁, hsign, word, t₂, hword, _, t₃, hblanks, _, t₄, hequal, _, t₅, hmore, _, t₆,
    hgiven, _, _, -, ⟨rfl, rfl⟩, -⟩ := hfits
  have hat : line = sign.toList ++ t₁ ∧ ∀ c ∈ sign, c = '@' := by
    rcases Shape.fits_opt.mp hsign with ⟨c, rfl, hc⟩ | ⟨rfl, rfl⟩
    · obtain ⟨rfl, rfl⟩ := Shape.fits_char.mp hc
      exact ⟨rfl, fun c hc => (Option.mem_some_iff.mp hc).symm⟩
    · exact ⟨rfl, nofun⟩
  obtain ⟨-, rfl, rfl⟩ := Shape.fits_run1.mp hword
  obtain ⟨-, rfl⟩ := Shape.fits_run.mp hblanks
  obtain ⟨hrest, -⟩ := Shape.fits_char.mp hequal
  obtain ⟨hplain, hsplit⟩ := Shape.of_fits_many hmore
  obtain ⟨-, rfl, -⟩ := Shape.fits_run1.mp hgiven
  exact ⟨sign, t₁, _, t₅, hat.1, hat.2, String.toList_ofList, hrest.trans (by rw [hsplit]), hplain,
    rfl⟩

theorem mark_not_mem_sign {sign : Option Char} (h : ∀ c ∈ sign, c = '@') :
    mark ∉ sign.toList := by
  have hat : mark ≠ '@' := by decide
  intro hmem
  exact hat (h mark (Option.mem_toList.mp hmem))

/-- The name of an assignment has no mark. -/
theorem assignment?_name {line : Text} {name : String} {value : Text}
    (h : assignment? line = some (name, value)) : mark ∉ name.toList := by
  obtain ⟨sign, word, _, _, -, hsign, hname, -⟩ := assignment?_parts h
  have hword : mark ∉ word.takeWhile isNameChar :=
    low_isNameChar.mark_not_mem fun c hc => List.mem_takeWhile_imp hc
  rw [hname, List.mem_append, not_or]
  exact ⟨mark_not_mem_sign hsign, hword⟩

/-- The value of an assignment is cut out at signs. -/
theorem aligned_assignment? {line : Text} {name : String} {value : Text} (hline : Aligned line)
    (h : assignment? line = some (name, value)) : Aligned value := by
  obtain ⟨sign, word, blanks, given, rfl, hsign, -, hsplit, hblanks, rfl⟩ := assignment?_parts h
  have hword : Aligned word := .of_append (mark_not_mem_sign hsign) hline
  have hafter := (hword.dropWhile low_isNameChar).dropWhile low_isPlainBlank
  rw [hsplit] at hafter
  have hgiven : Aligned given :=
    .of_append (low_isPlainBlank.mark_not_mem hblanks) (hafter.of_cons (by decide))
  exact (hgiven.takeWhile low_break).strip

/-! ## Submitting lines -/

theorem Storable.conclude (h : Storable s) {e : Entry} (he : e.Storable) :
    Storable (s.conclude e).1 :=
  h.addResult he

theorem storable_equation {name : String} {t : Text} (hname : mark ∉ name.toList)
    (ht : mark ∉ t) : Text.Storable (name ++ " = " ++ String.ofList t).toList := by
  refine Text.storable_append ?_ (Text.storable_ofList (Text.storable_of_mark_not_mem ht))
  have hequal : mark ∉ " = ".toList := by decide
  rw [String.toList_append, List.mem_append, not_or]
  exact ⟨hname, hequal⟩

variable {line : String}

theorem Storable.assignAnswer (h : Storable s) (hline : Text.Storable line.toList) {name : String}
    (hname : mark ∉ name.toList) {query answer : Text} (hanswer : queryAnswer? query = some answer) :
    Storable (s.assignAnswer line name answer).1 := by
  have hentry : Entry.Storable ⟨line, name ++ " = " ++ String.ofList answer, Entry.units, .null⟩ :=
    storable_entry hline (storable_equation hname (answer_of_queryAnswer? hanswer).mark_not_mem)
      (by decide)
  rw [Session.assignAnswer]
  cases finiteAnswer answer with
  | error f => exact h
  | ok number =>
    cases number with
    | none => exact (h.setLast 0).conclude hentry
    | some x =>
      exact ((h.setVariable (Text.storable_of_mark_not_mem hname) _).setLast x).conclude hentry

theorem Storable.assignValue (h : Storable s) (hline : Text.Storable line.toList) {name : String}
    (hname : mark ∉ name.toList) {expression : Text} (hs : Aligned expression) :
    Storable (s.assignValue line name expression).1 := by
  rw [Session.assignValue]
  split
  · exact h
  next hvalue => exact h.conclude (storable_failure hline (storable_message hs hvalue))
  next x _ =>
    refine ((h.setVariable (Text.storable_of_mark_not_mem hname) _).setLast x).conclude ?_
    exact storable_entry hline
      (storable_equation hname (Number.isNumberText_numberText x).mark_not_mem) (by decide)

variable {text : Text}

theorem Storable.assign (h : Storable s) (htext : Text.Storable text) :
    Storable (s.assign text).1 := by
  rw [Session.assign]
  split
  · exact h
  next hassignment =>
    have hname := assignment?_name hassignment
    have hvalue := aligned_assignment? htext.aligned hassignment
    split
    next hanswer => exact h.assignAnswer (Text.storable_ofList htext) hname hanswer
    · exact h.assignValue (Text.storable_ofList htext) hname hvalue

theorem Storable.concludeAnswer (h : Storable s) (hline : Text.Storable line.toList)
    {query answer : Text} (hanswer : queryAnswer? query = some answer) :
    Storable (s.concludeAnswer line answer).1 := by
  rw [Session.concludeAnswer]
  cases finiteAnswer answer with
  | error f => exact h
  | ok number =>
    exact (h.setLast _).conclude (storable_entry hline (storable_answer hanswer) (by decide))

theorem Storable.mendLast {t : Session} (h : Storable s) (ht : s.mendLast = .ok t) :
    Storable t := by
  rw [Session.mendLast] at ht
  split at ht
  · cases ht
    exact h
  · cases ht
    exact h.setLast 0
  · cases ht

theorem Storable.concludeExpression (h : Storable s) (htext : Text.Storable text) :
    Storable (s.concludeExpression text).1 := by
  have hexpression : Aligned (if continuesLast text then '@' :: text else text) := by
    split
    · exact .char (by decide) htext.aligned
    · exact htext.aligned
  have hline := Text.storable_ofList htext
  rw [Session.concludeExpression]
  split
  · exact h
  next hvalue =>
    split
    next hmend =>
      exact (h.mendLast hmend).conclude
        (storable_failure hline (storable_message hexpression hvalue))
    · exact h
  next x _ =>
    exact (h.setLast x).conclude (storable_entry hline (storable_numberText x) (by decide))

theorem Storable.answerLine (h : Storable s) (htext : Text.Storable text) :
    Storable (s.answerLine text).1 := by
  rw [Session.answerLine]
  split
  next hanswer => exact h.concludeAnswer (Text.storable_ofList htext) hanswer
  · exact h.concludeExpression htext

/-- Submitting a text that documents can hold keeps a session storable. -/
theorem Storable.submit (h : Storable s) {raw : String} (hraw : Text.Storable raw.toList) :
    Storable (s.submit raw).1 := by
  have htext := hraw.strip
  have hentered : Storable
      { s.addHistory (String.ofList (Text.strip raw.toList)) with inputValue := "" } :=
    { h.addHistory (Text.storable_ofList htext) with inputValue := Text.storable_nil }
  simp only [Session.submit]
  split
  · exact h
  · split
    · exact storable_fresh _
    · have hassign := hentered.assign htext
      split
      next heq =>
        rw [heq] at hassign
        exact hassign.limitVariables
      next heq =>
        rw [heq] at hassign
        exact hassign
      next heq =>
        rw [heq] at hassign
        exact hassign.answerLine htext

/-! ## Runs -/

theorem Storable.act (h : Storable s) {a : Action} (ha : a.Storable) : Storable (s.act a).1 := by
  cases a with
  | submit line => exact h.submit ha
  | older => exact h.navigate _
  | newer => exact h.navigate _

theorem Storable.after (h : Storable s) {actions : List Action}
    (hactions : ∀ a ∈ actions, a.Storable) : Storable (s.after actions) :=
  after_induction (P := Storable) (fun _ a ha ht => ht.act (hactions a ha)) h

end Session
end DeskCalc
