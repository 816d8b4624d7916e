import DeskCalc.Proofs.Expression.Groups
import DeskCalc.Proofs.Query.Telltales
import DeskCalc.Proofs.Session.Splicing
import DeskCalc.Query.Resolve

/-!
# Calls with a name as their argument

A line such as `abs(x)` is offered to the rules for queries before the variable `x` is looked up.
Two rules can answer it, the one for calls and the one for expressions, and both replace constants
in the line.  What comes out is an expression only if the name is that of a constant, or if it
consists of a function's name and a constant or a number of degrees.  For any other name no rule has
an answer, so the line is left to the session and its variables.
-/

namespace DeskCalc.Query

open Expression (AreDigits Angles Closed Derives Function Grouped Names degreeWords extendedTable
  mayFollow prepare replaceDegrees)
open Session (Identifier isNameChar isNameStart)
open Text (Shape StopsBefore sameLetters)

/-- The names that queries take for something other than a variable. -/
inductive Captured (n : Text) : Prop
  | constant {c : String × Float} (hc : c ∈ Constant.all) (h : sameLetters n c.1.toList = true) :
    Captured n
  | pi {f : Function} {name piece : Text} (hf : f ∈ Function.extended) (h : n = name ++ piece)
    (hname : name.map Char.toLower = f.name.toList)
    (hpiece : sameLetters piece ['p', 'i'] = true) : Captured n
  | degrees {f : Function} {name digits word : Text} (hf : f ∈ Function.extended)
    (h : n = name ++ (digits ++ word)) (hname : name.map Char.toLower = f.name.toList)
    (hne : digits ≠ []) (hdigits : AreDigits digits) (hword : word ∈ degreeWords) : Captured n

/-- A name that is shorter than any function's name with a constant behind it is captured only if it
is that of a constant. -/
theorem not_captured_of_short {n : Text} (hshort : n.length < 4)
    (hconstant : ∀ c ∈ Constant.all, sameLetters n c.1.toList = false) : ¬Captured n := by
  intro h
  cases h with
  | constant hc h =>
    rw [hconstant _ hc] at h
    cases h
  | pi hf h hname hpiece =>
    have hfunctions : ∀ f ∈ Function.extended, 2 ≤ f.name.toList.length := by decide
    have hlength := hfunctions _ hf
    have hpi := Shape.length_of_sameLetters hpiece
    rw [← hname, List.length_map] at hlength
    rw [h, List.length_append, hpi] at hshort
    simp only [List.length_cons, List.length_nil] at hshort
    omega
  | degrees hf h hname hne hdigits hword =>
    have hwords : ∀ w ∈ degreeWords, 4 ≤ w.length := by decide
    have hlength := hwords _ hword
    rw [h, List.length_append, List.length_append] at hshort
    omega

/-- The call of a function at a name. -/
def callLine (f : Function) (n : Identifier) : Text :=
  f.name.toList ++ '(' :: (n.text ++ [')'])

variable {f : Function} {n : Identifier} {front s t u Y Z T : Text}

/-! ## What replacing constants makes of a name -/

/-- The text of a constant in a group. -/
abbrev piText : Text :=
  Number.numberText Constant.pi

theorem mayFollow_of_isNameChar {c : Char} (h : isNameChar c = true) : mayFollow c = false := by
  rw [Bool.eq_false_iff]
  intro hfollow
  have hall : ")+-*/^".toList.all (fun c => !isNameChar c) = true := by decide
  have hnot := List.all_eq_true.mp hall c (List.contains_iff_mem.mp hfollow)
  rw [h] at hnot
  cases hnot

/-- Of all digits, names have those of the basic alphabet only. -/
theorem isDigit_of_isNameChar {c : Char} (h : isNameChar c = true) (hdigit : Text.isDigit c = true) :
    c.isDigit = true := by
  rw [Text.isDigit, Text.digitValue?, if_pos (Session.lt_128_of_isNameChar h)] at hdigit
  split at hdigit
  next hc => exact hc
  · cases hdigit

theorem no_letter_piText : ∀ c ∈ piText, Text.isLetterAnyCase c = false := by
  have hall : piText.all (fun c => !Text.isLetterAnyCase c) = true := by decide +kernel
  intro c hc
  simpa using List.all_eq_true.mp hall c hc

theorem wordy_pi (inside : Text) : Expression.Wordy (Names true ['p', 'i'] inside) :=
  Expression.wordy_names (w := ['p']) (by decide) (List.all_eq_true.mp (by decide))

theorem wordy_euler (inside : Text) : Expression.Wordy (Names true ['e'] inside) :=
  Expression.wordy_names (w := []) (by decide) (List.all_eq_true.mp (by decide))

/-- If a name becomes a text that keeps to the rule for groups, all of it is left, or only a piece
at its end is replaced. -/
theorem of_replaced {euler : Text} (hs : ∀ c ∈ s, isNameChar c = true)
    (hpi : Grouped (Names true ['p', 'i'] piText) s Y)
    (heuler : Grouped (Names true ['e'] euler) Y Z) (hsame : Y = s → Z = s)
    (hangles : Grouped Angles Z T) (hT : Closed T) :
    T = s ∨ ∃ front piece inside, s = front ++ piece ∧ T = front ++ ('(' :: inside ++ [')']) ∧
      (sameLetters piece ['p', 'i'] = true ∨ Angles piece inside) := by
  have hnone : ∀ c ∈ s, mayFollow c = false := fun c hc => mayFollow_of_isNameChar (hs c hc)
  have hZ : Closed Z := hangles.closed Expression.wordy_angles hT
  have hY : Closed Y := heuler.closed (wordy_euler euler) hZ
  rcases hpi.eq_or_end (wordy_pi _) hY hnone with rfl | ⟨front, piece, inside, rfl, rfl, hnamed⟩
  · rw [hsame rfl] at hangles
    rcases hangles.eq_or_end Expression.wordy_angles hT hnone with rfl | ⟨front, piece, inside, hend⟩
    · exact .inl rfl
    · exact .inr ⟨front, piece, inside, hend.1, hend.2.1, .inr hend.2.2⟩
  · -- The letters of the name go on up to the group, and the group has none.
    have hgoes : Grouped.GoesOn (front ++ ('(' :: inside ++ [')'])) := by
      refine .append (Grouped.goesOn_of_no_letter ?_) ⟨'(', rfl, by decide⟩ fun c hc =>
        hnone c (List.mem_append_left _ hc)
      obtain ⟨-, rfl⟩ := hnamed
      simp only [List.cons_append, List.mem_cons, List.mem_append, List.not_mem_nil, or_false]
      rintro c (rfl | hc | rfl)
      · decide
      · exact no_letter_piText c hc
      · decide
    obtain rfl := heuler.eq_self (wordy_euler euler) hZ hgoes
    obtain rfl := hangles.eq_self Expression.wordy_angles hT hgoes
    exact .inr ⟨front, piece, inside, rfl, rfl, .inl hnamed.1⟩

/-! ## Names that become expressions -/

/-- A name at the beginning of an expression is called, and it is that of a function. -/
theorem called_of_derives {table : Expression.FunctionTable} {level : Expression.Level}
    {e : Expression.Tree} {rest : Text} (hstart : ∃ c t, front = c :: t ∧ isNameStart c = true)
    (hfront : ∀ c ∈ front, isNameChar c = true) (hu : StopsBefore Text.isLetter u)
    (h : Derives table level e (front ++ u) rest) :
    u.head? = some '(' ∧ (table (front.map Char.toLower)).isSome = true := by
  obtain ⟨name, r, rfl, hname, hr⟩ := Text.exists_run Text.isLetter front
  have hne : name ≠ [] := by
    rintro rfl
    obtain ⟨c, t, rfl, hc⟩ := hstart
    have hletter : Text.isLetter c = false := Text.stopsBefore_cons.mp hr
    have hline : StopsBefore (· == '_') (c :: (t ++ u)) := h.stopsBefore
    rw [Text.stopsBefore_cons] at hline
    rw [isNameStart, hline, Bool.or_false] at hc
    rw [Text.isLetter, hc] at hletter
    cases hletter
  have hstop : StopsBefore Text.isLetter (r ++ u) := by
    cases r with
    | nil => exact hu
    | cons c r => exact hr
  rw [List.append_assoc] at h
  obtain ⟨g, v, _, _, htable, hopening, -⟩ := h.of_name hne hname hstop
  cases r with
  | nil =>
    rw [List.nil_append] at hopening
    rw [List.append_nil, hopening, htable]
    exact ⟨rfl, rfl⟩
  | cons c r =>
    cases hopening
    cases hfront '(' (by simp)

theorem exists_function_of_extendedTable {name : Text} (h : (extendedTable name).isSome = true) :
    ∃ f ∈ Function.extended, name = f.name.toList := by
  rw [extendedTable, Expression.tableOf, Option.isSome_map] at h
  obtain ⟨f, hf⟩ := Option.isSome_iff_exists.mp h
  have hname := List.find?_some hf
  rw [beq_iff_eq] at hname
  exact ⟨f, List.mem_of_find?_eq_some hf, hname.symm⟩

/-- A name that becomes an expression is captured. -/
theorem captured_of_derives {level : Expression.Level} {e : Expression.Tree} {rest : Text}
    (hu : u = [] ∨ u = [')'])
    (hT : T = n.text ∨ ∃ front piece inside, n.text = front ++ piece ∧
      T = front ++ ('(' :: inside ++ [')']) ∧
      (sameLetters piece ['p', 'i'] = true ∨ Angles piece inside))
    (h : Derives extendedTable level e (T ++ u) rest) : Captured n.text := by
  rcases hT with rfl | ⟨front, piece, inside, hsplit, rfl, hpiece⟩
  · have hstop : StopsBefore Text.isLetter u := by
      rcases hu with rfl | rfl <;> rfl
    obtain ⟨hopening, -⟩ := called_of_derives n.head n.chars hstop h
    rcases hu with rfl | rfl <;> cases hopening
  · have hfront : ∀ c ∈ front, isNameChar c = true :=
      fun c hc => n.chars c (hsplit ▸ List.mem_append_left _ hc)
    have hpieceChars : ∀ c ∈ piece, isNameChar c = true :=
      fun c hc => n.chars c (hsplit ▸ List.mem_append_right _ hc)
    cases front with
    | nil =>
      rw [List.nil_append] at hsplit
      rcases hpiece with hpi | ⟨digits, fraction, word, rfl, hne, hdigits, -⟩
      · exact .constant (c := ("pi", Constant.pi)) List.mem_cons_self (hsplit ▸ hpi)
      · obtain ⟨c, t, hcons, hc⟩ := n.head
        obtain ⟨d, ds, rfl⟩ := List.exists_cons_of_ne_nil hne
        rw [hsplit] at hcons
        obtain ⟨rfl, -⟩ := List.cons.inj hcons
        have hdigit := isDigit_of_isNameChar (Session.isNameChar_of_isNameStart hc)
          (hdigits d List.mem_cons_self)
        rw [Session.isDigit_of_isNameStart hc] at hdigit
        cases hdigit
    | cons c front =>
      have hstart : ∃ d t, c :: front = d :: t ∧ isNameStart d = true := by
        obtain ⟨d, t, hcons, hd⟩ := n.head
        rw [hsplit] at hcons
        obtain ⟨rfl, -⟩ := List.cons.inj hcons
        exact ⟨c, front, rfl, hd⟩
      rw [List.append_assoc] at h
      have hstop : StopsBefore Text.isLetter (('(' :: inside ++ [')']) ++ u) := rfl
      obtain ⟨-, hfunction⟩ := called_of_derives hstart hfront hstop h
      obtain ⟨g, hg, hname⟩ := exists_function_of_extendedTable hfunction
      rcases hpiece with hpi | ⟨digits, fraction, word, rfl, hne, hdigits, hfraction, hword⟩
      · exact .pi hg hsplit hname hpi
      · obtain rfl : fraction = [] := by
          rcases hfraction with rfl | ⟨ds, rfl, -⟩
          · rfl
          · cases hpieceChars '.' (by simp)
        refine .degrees hg hsplit hname hne (fun d hd => ?_) hword
        exact isDigit_of_isNameChar (hpieceChars d (List.mem_append_left _ hd)) (hdigits d hd)

/-! ## Replacing constants -/

theorem isWord_parentheses : Text.isWord '(' = false ∧ Text.isWord ')' = false := by
  constructor <;> decide

theorem name_ne_nil (f : Function) : f.name.toList ≠ [] := by
  cases f <;> decide

theorem isLetter_name (f : Function) : ∀ c ∈ f.name.toList, Text.isLetter c = true := by
  cases f <;> exact List.all_eq_true.mp (by decide)

theorem isNameChar_name (f : Function) : ∀ c ∈ f.name.toList, isNameChar c = true := by
  intro c hc
  have hletter : c.isAlpha = true := isLetter_name f c hc
  simp [isNameChar, Char.isAlphanum, hletter]

theorem isWord_name (f : Function) : ∀ c ∈ f.name.toList, Text.isWord c = true :=
  fun c hc => Session.isWord_of_isNameChar (isNameChar_name f c hc)

theorem isWord_text (n : Identifier) : ∀ c ∈ n.text, Text.isWord c = true :=
  n.isIdentifier.isWord

theorem grouped_pi (s : Text) : Grouped (Names true ['p', 'i'] piText) s
    (Text.replaceAnywhere ['p', 'i'] (bracketed Constant.pi) s) :=
  Expression.grouped_replace (n := ⟨['p', 'i'], true, false⟩) (List.cons_ne_nil _ _) _ s

theorem grouped_euler (s : Text) :
    Grouped (Names true ['e'] (Number.numberText Constant.euler)) s (replaceEuler s) :=
  Expression.grouped_replace (n := ⟨['e'], true, true⟩) (List.cons_ne_nil _ _) _ s

theorem replaceEuler_append {c : Char} (hc : Text.isWord c = false) (s t : Text) :
    replaceEuler (s ++ c :: t) = replaceEuler s ++ c :: replaceEuler t :=
  Text.replaceWordAnyCase_append (List.cons_ne_nil _ _) (List.all_eq_true.mp (by decide)) hc s t

theorem replaceEuler_word (hs : ∀ c ∈ s, Text.isWord c = true)
    (hne : sameLetters s ['e'] = false) : replaceEuler s = s := by
  rw [replaceEuler, Text.replaceWordAnyCase_word (List.cons_ne_nil _ _)
    (List.all_eq_true.mp (by decide)) hs, hne, if_neg Bool.false_ne_true]

theorem sameLetters_constant (hn : ¬Captured n.text) {c : String × Float} (hc : c ∈ Constant.all) :
    sameLetters n.text c.1.toList = false := by
  rw [Bool.eq_false_iff]
  exact fun h => hn (.constant hc h)

theorem replaceEuler_name (hn : ¬Captured n.text) : replaceEuler n.text = n.text :=
  replaceEuler_word (isWord_text n)
    (sameLetters_constant hn (List.mem_cons_of_mem _ List.mem_cons_self))

/-- The characters of the texts that calls become. -/
theorem isKept_replaced {euler : Float}
    (hY : Grouped (Names true ['p', 'i'] piText) s Y)
    (hZ : Grouped (Names true ['e'] (Number.numberText euler)) Y Z)
    (hs : ∀ c ∈ s, Session.isKept c = true) : ∀ c ∈ Z, Session.isKept c = true := by
  have hnumber (x : Float) : ∀ c ∈ Number.numberText x, Session.isKept c = true :=
    fun c hc => Session.isKept_of_isTextChar ((Number.isNumberText_numberText x).chars c hc)
  refine hZ.forall_mem (hY.forall_mem hs ?_ (by decide) (by decide)) ?_ (by decide) (by decide)
  · rintro _ _ ⟨-, rfl⟩
    exact hnumber _
  · rintro _ _ ⟨-, rfl⟩
    exact hnumber _

theorem derives_of_value? {x : Float} (h : value? s = some x) :
    ∃ e, Derives extendedTable .sum e (prepare s) [] := by
  rw [value?, Expression.evaluateWith] at h
  cases hvalue : Expression.valueOf extendedTable (prepare s) with
  | error err =>
    rw [hvalue] at h
    cases h
  | ok y =>
    obtain ⟨e, he, -⟩ := Expression.denotes_of_valueOf hvalue
    exact ⟨e, he.1⟩

/-! ## The rules that evaluate -/

/-- A name that is not captured is no expression. -/
theorem value?_name (hn : ¬Captured n.text) : value? (replacePiAnywhere n.text) = none := by
  rw [Option.eq_none_iff_forall_ne_some]
  intro x hx
  obtain ⟨e, he⟩ := derives_of_value? hx
  have hkept := isKept_replaced (grouped_pi n.text) (grouped_euler _)
    fun c hc => Session.isKept_of_isNameChar (n.chars c hc)
  rw [@Session.prepare_eq (replacePiAnywhere n.text) hkept] at he
  have hT := of_replaced n.chars (grouped_pi n.text) (grouped_euler _)
    (fun hsame => by rw [hsame, replaceEuler_name hn])
    (Expression.grouped_replaceDegrees _ _) (he.closed .nil nofun)
  rw [← List.append_nil (replaceDegrees _ _)] at he
  exact hn (captured_of_derives (.inl rfl) hT he)

theorem sameLetter_hyphen {c : Char} (hc : isNameChar c = true) :
    Text.sameLetter c '-' = false := by
  rw [Bool.eq_false_iff]
  intro h
  have hsame : Text.sameLetter '-' c = true := by
    rw [Text.sameLetter, beq_iff_eq] at h ⊢
    exact h.symm
  have hhyphen : Text.isWord '-' = false := by decide
  rw [Text.isWord_of_sameLetter hsame (Session.isWord_of_isNameChar hc)] at hhyphen
  cases hhyphen

/-- No constant stands in a call with a name that is not captured. -/
theorem replaceWordAnyCase_callLine (hn : ¬Captured n.text) {c : String × Float}
    (hc : c ∈ Constant.all) (value : Text) :
    Text.replaceWordAnyCase c.1.toList value (callLine f n) = callLine f n := by
  have hspelling : Constant.all.all (fun c =>
      c.1.toList.all Text.isWord && !c.1.toList.isEmpty || c.1.toList.contains '-') = true := by
    decide
  have hnames : Constant.all.all (fun c => !sameLetters f.name.toList c.1.toList) = true := by
    cases f <;> decide
  obtain ⟨hopening, hclosing⟩ := isWord_parentheses
  replace hspelling := List.all_eq_true.mp hspelling c hc
  simp only [Bool.or_eq_true, Bool.and_eq_true, List.all_eq_true, List.contains_iff_mem,
    Bool.not_eq_true', List.isEmpty_eq_false_iff] at hspelling
  rcases hspelling with ⟨hword, hne⟩ | hhyphen
  · have hfunction : sameLetters f.name.toList c.1.toList = false := by
      simpa using List.all_eq_true.mp hnames c hc
    have hempty : Text.replaceWordAnyCase c.1.toList value [] = [] := rfl
    rw [callLine, Text.replaceWordAnyCase_append hne hword hopening,
      Text.replaceWordAnyCase_append hne hword hclosing,
      Text.replaceWordAnyCase_word hne hword (isWord_name f),
      Text.replaceWordAnyCase_word hne hword (isWord_text n), hfunction,
      sameLetters_constant hn hc, hempty, if_neg Bool.false_ne_true, if_neg Bool.false_ne_true]
  · refine Text.replaceWordAnyCase_of_not_mem hhyphen ?_
    have hparentheses : Text.sameLetter '(' '-' = false ∧ Text.sameLetter ')' '-' = false := by
      constructor <;> decide
    simp only [callLine, List.mem_append, List.mem_cons, List.not_mem_nil, or_false]
    rintro d (hd | rfl | hd | rfl)
    · exact sameLetter_hyphen (isNameChar_name f d hd)
    · exact hparentheses.1
    · exact sameLetter_hyphen (n.chars d hd)
    · exact hparentheses.2

theorem foldl_constants (hn : ¬Captured n.text) :
    Constant.byLength.foldl
      (fun t c => Text.replaceWordAnyCase c.1.toList (bracketed c.2) t) (callLine f n) =
        callLine f n := by
  have hall : ∀ c ∈ Constant.byLength, c ∈ Constant.all := fun c hc => List.mem_mergeSort.mp hc
  generalize Constant.byLength = constants at hall ⊢
  induction constants with
  | nil => rfl
  | cons c constants ih =>
    obtain ⟨hc, hrest⟩ := List.forall_mem_cons.mp hall
    rw [List.foldl_cons, replaceWordAnyCase_callLine hn hc]
    exact ih hrest

/-- What becomes of a call when constants are replaced. -/
theorem exists_replaced (hf : f ∈ Function.standard) (hn : ¬Captured n.text) :
    ∃ Y Z, replacePiAnywhere (callLine f n) = f.name.toList ++ '(' :: (Z ++ [')']) ∧
      Grouped (Names true ['p', 'i'] piText) n.text Y ∧
      Grouped (Names true ['e'] (Number.numberText Constant.euler)) Y Z ∧
      (Y = n.text → Z = n.text) := by
  obtain ⟨hopening, hclosing⟩ := isWord_parentheses
  obtain ⟨Y, hpi, hY⟩ := (grouped_pi (n.text ++ [')'])).of_concat (wordy_pi _)
  obtain ⟨Z, heuler, hZ⟩ := (grouped_euler (Y ++ [')'])).of_concat (wordy_euler _)
  have hfront : Text.replaceAnywhere ['p', 'i'] (bracketed Constant.pi) (callLine f n) =
      f.name.toList ++ '(' :: (Y ++ [')']) := by
    have hletters : (Function.standard.all fun f =>
        (f.name.toList ++ ['(']).all fun c => !Text.sameLetter c 'p') = true := by
      decide
    have hrun : ∀ c ∈ f.name.toList ++ ['('], Text.sameLetter c 'p' = false := by
      simpa using List.all_eq_true.mp (List.all_eq_true.mp hletters f hf)
    have hcall : callLine f n = (f.name.toList ++ ['(']) ++ (n.text ++ [')']) := by
      simp [callLine]
    rw [hcall, Text.replaceAnywhere_append hrun, hpi]
    simp
  have hfunction : replaceEuler f.name.toList = f.name.toList := by
    refine replaceEuler_word (isWord_name f) ?_
    cases f <;> decide
  refine ⟨Y, Z, ?_, hY, hZ, ?_⟩
  · rw [replacePiAnywhere, hfront, replaceEuler_append hopening, hfunction, heuler]
  · rintro rfl
    have hempty : replaceEuler [] = [] := rfl
    rw [replaceEuler_append hclosing, replaceEuler_name hn, hempty] at heuler
    exact (List.append_cancel_right heuler).symm

/-- A call with a name that is not captured is no expression either. -/
theorem value?_callLine (hf : f ∈ Function.standard) (hn : ¬Captured n.text) :
    value? (replacePiAnywhere (callLine f n)) = none := by
  rw [Option.eq_none_iff_forall_ne_some]
  intro x hx
  obtain ⟨e, he⟩ := derives_of_value? hx
  obtain ⟨Y, Z, hreplaced, hY, hZ, hsame⟩ := exists_replaced hf hn
  have hkept : ∀ c ∈ f.name.toList ++ '(' :: (Z ++ [')']), Session.isKept c = true := by
    have hname (c : Char) (hc : c ∈ f.name.toList) : Session.isKept c = true :=
      Session.isKept_of_isNameChar (isNameChar_name f c hc)
    have hZ := isKept_replaced hY hZ fun c hc => Session.isKept_of_isNameChar (n.chars c hc)
    refine List.forall_mem_append.mpr ⟨hname, List.forall_mem_cons.mpr ⟨by decide, ?_⟩⟩
    exact List.forall_mem_append.mpr ⟨hZ, List.forall_mem_singleton.mpr (by decide)⟩
  obtain ⟨T, hT, hangles⟩ := (Expression.grouped_replaceDegrees (Z ++ [')']).length
    (Z ++ [')'])).of_concat Expression.wordy_angles
  have hprepare : prepare (f.name.toList ++ '(' :: (Z ++ [')'])) =
      f.name.toList ++ '(' :: (T ++ [')']) := by
    have hrun : ∀ c ∈ f.name.toList ++ ['('], Text.isDigit c = false := by
      refine List.forall_mem_append.mpr ⟨fun c hc => ?_, List.forall_mem_singleton.mpr (by decide)⟩
      exact Expression.isDigit_of_isLetter (isLetter_name f c hc)
    have hsplit (u : Text) : f.name.toList ++ '(' :: u = (f.name.toList ++ ['(']) ++ u := by
      simp
    rw [Session.prepare_eq hkept, hsplit, List.length_append, Expression.replaceDegrees_append hrun, hT,
      ← hsplit]
  rw [hreplaced, hprepare] at he
  have hclosed : Closed (['('] ++ (T ++ [')'])) := (he.closed .nil nofun).of_append.2
  have hT := of_replaced n.chars hY hZ hsame hangles hclosed.of_append.2.of_append.1
  obtain ⟨_, u, argument, _, -, hopening, hargument⟩ :=
    he.of_name (name_ne_nil f) (isLetter_name f) (Text.stopsBefore_cons.mpr (by decide))
  obtain ⟨-, rfl⟩ := List.cons.inj hopening
  exact hn (captured_of_derives (.inr rfl) hT hargument)

/-! ## The characters of calls -/

theorem mem_callLine {c : Char} (h : c ∈ callLine f n) : isNameChar c = true ∨ c = '(' ∨ c = ')' := by
  simp only [callLine, List.mem_append, List.mem_cons, List.not_mem_nil, or_false] at h
  rcases h with hc | rfl | hc | rfl
  · exact .inl (isNameChar_name f c hc)
  · exact .inr (.inl rfl)
  · exact .inl (n.chars c hc)
  · exact .inr (.inr rfl)

/-- A property of the basic alphabet that names and parentheses do not have. -/
theorem not_of_mem_callLine {p : Char → Bool}
    (hname : ∀ c, isNameChar c = true → p c = false) (hopening : p '(' = false)
    (hclosing : p ')' = false) : ∀ c ∈ callLine f n, p c = false := by
  intro c hc
  rcases mem_callLine hc with hc | rfl | rfl
  · exact hname c hc
  · exact hopening
  · exact hclosing

theorem isBlank_of_mem_callLine : ∀ c ∈ callLine f n, Text.isBlank c = false := by
  refine not_of_mem_callLine (fun c hc => ?_) (by decide) (by decide)
  have hkept := Session.isKept_of_isNameChar hc
  simp only [Session.isKept, Bool.not_eq_true', Bool.or_eq_false_iff] at hkept
  exact hkept.1

theorem isOperatorChar_of_mem_callLine : ∀ c ∈ callLine f n, isOperatorChar c = false := by
  refine not_of_mem_callLine (fun c hc => ?_) (by decide) (by decide)
  have hfollow := mayFollow_of_isNameChar hc
  rw [Bool.eq_false_iff, mayFollow, Ne, List.contains_iff_mem] at hfollow
  rw [Bool.eq_false_iff, isOperatorChar, Ne, List.contains_iff_mem]
  intro hmem
  exact hfollow (List.mem_cons_of_mem _ hmem)

/-- A call begins with a letter. -/
theorem exists_cons_callLine (f : Function) (n : Identifier) :
    ∃ c t, callLine f n = c :: t ∧ Text.isLetter c = true := by
  obtain ⟨c, t, hname⟩ := List.exists_cons_of_ne_nil (name_ne_nil f)
  refine ⟨c, t ++ '(' :: (n.text ++ [')']), by rw [callLine, hname]; rfl, ?_⟩
  exact isLetter_name f c (by rw [hname]; exact List.mem_cons_self)

theorem stopsBefore_callLine {p : Char → Bool} (hp : ∀ c, Text.isLetter c = true → p c = false) :
    StopsBefore p (callLine f n) := by
  obtain ⟨c, t, hline, hc⟩ := exists_cons_callLine f n
  rw [hline, Text.stopsBefore_cons]
  exact hp c hc

/-! ## The rules one by one -/

/-- Only the digits of a decimal matter here. -/
theorem not_fits_decimal {d : Number.Numeral} {rest : Text} (h : StopsBefore Text.isDigit s) :
    ¬Shape.Fits Measure.decimal s d rest := by
  intro hfits
  simp only [Measure.decimal, Shape.fits_bind] at hfits
  obtain ⟨w, t, hdigits, -⟩ := hfits
  exact Shape.not_fits_run1 h hdigits

theorem answerFixed_callLine (t : Text) : answerFixed (callLine f n) ≠ .answer t := by
  intro h
  obtain ⟨a, ha, -⟩ := Option.map_eq_some_iff.mp (Outcome.ofOption_eq_answer.mp h)
  have hblank : fixedAnswers.all (fun a => a.1.toList.any Text.isBlank) = true := by decide
  have hany := List.all_eq_true.mp hblank _ (Json.mem_of_lookup ha)
  rw [String.toList_ofList, List.any_eq_true] at hany
  obtain ⟨c, hc, hblank⟩ := hany
  rw [isBlank_of_mem_callLine c hc] at hblank
  cases hblank

theorem answerConstant_callLine (t : Text) : answerConstant (callLine f n) ≠ .answer t := by
  have hsmall : ∀ c ∈ callLine f n, c.toNat < 128 := by
    intro c hc
    rcases mem_callLine hc with hc | rfl | rfl
    · exact Session.lt_128_of_isNameChar hc
    · decide
    · decide
  have hnone : (Constant.all.find? fun c =>
      c.1.toList.map Char.toLower == Text.lower (callLine f n)) = none := by
    rw [List.find?_eq_none]
    intro c hc heq
    have hnames : Constant.all.all (fun c => !(c.1.toList.map Char.toLower).contains '(') =
        true := by
      decide
    have hopening : '(' ∈ (callLine f n).map Char.toLower :=
      List.mem_map.mpr ⟨'(', by simp [callLine], by decide⟩
    have hname := List.all_eq_true.mp hnames c hc
    rw [Text.lower_basic hsmall, beq_iff_eq] at heq
    rw [heq] at hname
    simp [hopening] at hname
  simp only [answerConstant, hnone]
  exact Outcome.noConfusion

theorem answerTemperature_callLine (t : Text) : answerTemperature (callLine f n) ≠ .answer t := by
  intro h
  have h := Outcome.ofOption_eq_answer.mp h
  obtain ⟨parts, hread, -⟩ := Option.bind_eq_some_iff.mp h
  obtain ⟨rest, hfits⟩ := Shape.fits_of_read? hread
  simp only [temperatureShape, Shape.fits_bind] at hfits
  obtain ⟨sign, u, hsign, d, v, hdecimal, -⟩ := hfits
  rcases Shape.fits_opt.mp hsign with ⟨c, -, hc⟩ | ⟨-, rfl⟩
  · obtain ⟨hline, -⟩ := Shape.fits_char.mp hc
    obtain ⟨b, w, hcons, hb⟩ := exists_cons_callLine f n
    rw [hcons] at hline
    cases hline
    cases hb
  · exact not_fits_decimal (stopsBefore_callLine fun c hc => Expression.isDigit_of_isLetter hc)
      hdecimal

theorem answerCurrency_callLine (t : Text) : answerCurrency (callLine f n) ≠ .answer t := by
  intro h
  have h := Outcome.ofOption_eq_answer.mp h
  obtain ⟨parts, hread, -⟩ := Option.bind_eq_some_iff.mp h
  obtain ⟨rest, hfits⟩ := Shape.fits_of_read? hread
  simp only [currencyShape, Shape.fits_bind] at hfits
  obtain ⟨d, u, hdecimal, -⟩ := hfits
  exact not_fits_decimal (stopsBefore_callLine fun c hc => Expression.isDigit_of_isLetter hc)
    hdecimal

theorem answerArithmetic_callLine (t : Text) : answerArithmetic (callLine f n) ≠ .answer t := by
  have hnone : (callLine f n).any isOperatorChar = false := by
    rw [List.any_eq_false]
    intro c hc
    rw [isOperatorChar_of_mem_callLine c hc]
    exact Bool.false_ne_true
  rw [answerArithmetic, hnone, Bool.and_false, if_neg Bool.false_ne_true]
  exact Outcome.noConfusion

theorem answerBase_callLine (t : Text) : answerBase (callLine f n) ≠ .answer t := by
  intro h
  rw [answerBase] at h
  split at h
  next hread =>
    obtain ⟨rest, hfits⟩ := Shape.fits_of_read? hread
    simp only [baseShape, keyword, Shape.fits_bind] at hfits
    obtain ⟨w, u, hw, _, _, ⟨gap, v, hgap, -⟩, -⟩ := hfits
    obtain ⟨-, -, hline⟩ := Shape.of_fits_many1 hw
    obtain ⟨hne, hblank, rfl⟩ := Shape.of_fits_run1 hgap
    obtain ⟨c, gap, rfl⟩ := List.exists_cons_of_ne_nil hne
    have hc : c ∈ callLine f n := by
      rw [← hline]
      simp
    have hblank := hblank c List.mem_cons_self
    rw [isBlank_of_mem_callLine c hc] at hblank
    cases hblank
  · cases h

theorem answerCompact_callLine (t : Text) : answerCompact (callLine f n) ≠ .answer t := by
  have hstop : StopsBefore (fun c => Text.isDigit c || c == '.') (callLine f n) := by
    refine stopsBefore_callLine fun c hc => ?_
    rw [Expression.isDigit_of_isLetter hc, Bool.false_or, beq_eq_false_iff_ne]
    rintro rfl
    cases hc
  have hin : compactIn.read? (callLine f n) = none := by
    rw [Option.eq_none_iff_forall_ne_some]
    intro parts hread
    obtain ⟨rest, hfits⟩ := Shape.fits_of_read? hread
    simp only [compactIn, pointedDigits, Shape.fits_bind] at hfits
    obtain ⟨w, u, hw, -⟩ := hfits
    exact Shape.not_fits_run1 hstop hw
  have hto : compactTo.read? (callLine f n) = none := by
    rw [Option.eq_none_iff_forall_ne_some]
    intro parts hread
    obtain ⟨rest, hfits⟩ := Shape.fits_of_read? hread
    simp only [compactTo, pointedDigits, Shape.fits_bind] at hfits
    obtain ⟨w, u, hw, -⟩ := hfits
    exact Shape.not_fits_run1 hstop hw
  simp only [answerCompact, hin, hto]
  exact Outcome.noConfusion

theorem isLetterAnyCase_name (f : Function) : ∀ c ∈ f.name.toList, Text.isLetterAnyCase c = true := by
  cases f <;> exact List.all_eq_true.mp (by decide)

theorem isInside_text (n : Identifier) : ∀ c ∈ n.text, isInside c = true := by
  intro c hc
  rw [isInside, decide_eq_true_eq]
  rintro rfl
  cases n.chars _ hc

/-- A call is read as the function and the name. -/
theorem fits_functionCall {rest : Text} :
    Shape.Fits functionCall (callLine f n) (s, t) rest ↔
      (s = f.name.toList ∧ t = n.text) ∧ rest = [] := by
  have htext : n.text ≠ [] := by
    obtain ⟨c, t, hn, -⟩ := n.head
    exact hn ▸ List.cons_ne_nil c t
  have hopening : StopsBefore Text.isLetterAnyCase ('(' :: (n.text ++ [')'])) :=
    Text.stopsBefore_cons.mpr (by decide)
  have hclosing : StopsBefore isInside [')'] := rfl
  simp only [functionCall, loneGroup, group, callLine, Shape.fits_bind, Shape.fits_pure,
    Shape.fits_char, Shape.fits_atEnd, Prod.mk.injEq]
  constructor
  · rintro ⟨name, u, hcalled, argument, _, ⟨_, _, ⟨_, v, ⟨rfl, -⟩, inside, w, hinside, _, _,
      ⟨hcloses, -⟩, rfl, rfl⟩, _, _, ⟨-, rfl⟩, rfl, rfl⟩, ⟨rfl, rfl⟩, rfl⟩
    obtain ⟨-, rfl, hgroup⟩ := Shape.fits_run1.mp hcalled
    rw [Text.dropWhile_run (isLetterAnyCase_name f) hopening] at hgroup
    obtain ⟨-, rfl⟩ := List.cons.inj hgroup
    obtain ⟨-, rfl, hrest⟩ := Shape.fits_run1.mp hinside
    rw [Text.dropWhile_run (isInside_text n) hclosing, hcloses] at hrest
    rw [Text.takeWhile_run (isLetterAnyCase_name f) hopening,
      Text.takeWhile_run (isInside_text n) hclosing]
    exact ⟨⟨rfl, rfl⟩, (List.cons.inj hrest).2⟩
  · rintro ⟨⟨rfl, rfl⟩, rfl⟩
    refine ⟨_, _, Shape.fits_run1_append (name_ne_nil f) (isLetterAnyCase_name f) hopening, _, _, ?_,
      ⟨rfl, rfl⟩, rfl⟩
    refine ⟨_, _, ⟨_, _, ⟨rfl, rfl⟩, _, _,
      Shape.fits_run1_append htext (isInside_text n) hclosing, _, _, ⟨rfl, rfl⟩, rfl, rfl⟩, ?_⟩
    exact ⟨(), _, ⟨.inl rfl, rfl⟩, rfl, rfl⟩

theorem callValue_name (f : Function) (argument : Text) :
    callValue (f.name.toList.map Char.toLower) argument =
      Attempt.ofOption (applyTo? (f.name.toList.map Char.toLower) argument) := by
  cases f <;> rfl

theorem answerCall_callLine (hn : ¬Captured n.text) (t : Text) :
    answerCall (callLine f n) ≠ .answer t := by
  intro h
  rw [answerCall] at h
  split at h
  · cases h
  next name argument hread =>
    obtain ⟨_, hfits⟩ := Shape.fits_of_read? hread
    obtain ⟨⟨rfl, rfl⟩, -⟩ := fits_functionCall.mp hfits
    have hsmall : ∀ c ∈ f.name.toList, c.toNat < 128 :=
      fun c hc => Session.lt_128_of_isNameChar (isNameChar_name f c hc)
    have hnothing (name : Text) : applyTo? name n.text = none := by
      simp [applyTo?, value?_name hn]
    rw [Text.lower_basic hsmall, callValue_name, hnothing] at h
    cases h

theorem answerExpression_callLine (hf : f ∈ Function.standard) (hn : ¬Captured n.text) (t : Text) :
    answerExpression (callLine f n) ≠ .answer t := by
  intro h
  rw [answerExpression] at h
  split at h
  · simp only [foldl_constants hn, shownValue, value?_callLine hf hn] at h
    cases h
  · cases h

theorem answerDoubleStar_callLine (t : Text) : answerDoubleStar (callLine f n) ≠ .answer t := by
  rw [answerDoubleStar]
  split <;> exact Outcome.noConfusion

theorem answerBareQuantity_callLine (t : Text) :
    answerBareQuantity (callLine f n) ≠ .answer t := by
  rw [answerBareQuantity]
  split <;> exact Outcome.noConfusion

/-- A call names no quantities. -/
theorem conversions_callLine {rule : Rule} (hrule : rule ∈ Rule.conversions) (t : Text) :
    rule.apply (callLine f n) ≠ .answer t := by
  intro h
  obtain ⟨value, target, us, hus, hasks, hquantities, -⟩ := asks_of_apply hrule h
  have hnot := not_functionCall hus hasks hquantities
  rw [Shape.fits_iff.mpr ⟨_, _, fits_functionCall.mpr ⟨⟨rfl, rfl⟩, rfl⟩⟩] at hnot
  cases hnot

/-! ## All rules -/

/-- No rule has an answer to a call with a name that is not captured. -/
theorem apply_callLine (hf : f ∈ Function.standard) (hn : ¬Captured n.text) (rule : Rule)
    (t : Text) : rule.apply (callLine f n) ≠ .answer t := by
  cases rule with
  | fixedAnswer => exact answerFixed_callLine t
  | doubleStar => exact answerDoubleStar_callLine t
  | functionCall => exact answerCall_callLine hn t
  | constant => exact answerConstant_callLine t
  | temperature => exact answerTemperature_callLine t
  | currency => exact answerCurrency_callLine t
  | feetInches => exact conversions_callLine (by decide) t
  | arithmetic => exact answerArithmetic_callLine t
  | base => exact answerBase_callLine t
  | product => exact conversions_callLine (by decide) t
  | group => exact conversions_callLine (by decide) t
  | compact => exact answerCompact_callLine t
  | twoUnits => exact conversions_callLine (by decide) t
  | conversion => exact conversions_callLine (by decide) t
  | bareQuantity => exact answerBareQuantity_callLine t
  | sum => exact conversions_callLine (by decide) t
  | expression => exact answerExpression_callLine hf hn t

theorem resolve_callLine (hf : f ∈ Function.standard) (hn : ¬Captured n.text) :
    resolve (callLine f n) = none := by
  rw [resolve_eq, Option.map_eq_none_iff, Option.eq_none_iff_forall_ne_some]
  rintro ⟨rule, t⟩ h
  have happly := apply_of_answeredBy? h
  rw [strip_eq_self isBlank_of_mem_callLine] at happly
  exact apply_callLine hf hn rule t happly

end DeskCalc.Query
