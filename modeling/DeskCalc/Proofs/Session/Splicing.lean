import DeskCalc.Proofs.Expression.Degrees
import DeskCalc.Proofs.Expression.Reading
import DeskCalc.Proofs.Session.Printing
import DeskCalc.Proofs.Session.Safety
import DeskCalc.Proofs.Session.Substitution
import DeskCalc.Proofs.Text.Alphabet

/-!
# Substituting values into printed terms

The values of variables are put into an expression as text, name by name and without parentheses.
Blanks keep the tokens of a printed term apart, so each token is treated on its own: a name is found
where it is a token, the texts of numbers contain no names, and what is put in is not touched again.
What comes out has the value of the term.
-/

namespace DeskCalc.Session

open Expression (Spelling plainZero)
open Text (Nameless replaceWord spaced)

variable {bindings : List (String × Json)}

/-- All variables are finite doubles. -/
def AllFinite (bindings : List (String × Json)) : Prop :=
  ∀ name j, (name, j) ∈ bindings → IsFiniteFloat j

theorem AllFinite.lookup (h : AllFinite bindings) {name : String} {j : Json}
    (hj : bindings.lookup name = some j) : ∃ x : Float, j = .float x ∧ x.isFinite = true :=
  h name j (Json.mem_of_lookup hj)

/-! ## Names in a text -/

theorem lt_128_of_isNameChar {c : Char} (h : isNameChar c = true) : c.toNat < 128 := by
  rw [isNameChar, Bool.or_eq_true, beq_iff_eq] at h
  rcases h with h | rfl
  · have hranges := Text.isAlphanum_iff.mp h
    omega
  · decide

theorem isWord_of_isNameChar {c : Char} (h : isNameChar c = true) : Text.isWord c = true := by
  rw [Text.isWord, if_pos (lt_128_of_isNameChar h)]
  exact h

theorem isDigit_of_isNameStart {c : Char} (h : isNameStart c = true) : c.isDigit = false := by
  rw [isNameStart, Bool.or_eq_true, beq_iff_eq] at h
  rcases h with h | rfl
  · have hranges := Text.isAlpha_iff.mp h
    rw [Bool.eq_false_iff, Ne, Text.basicDigit_iff]
    omega
  · decide

/-- The form of a name: it begins like one, and goes on so. -/
def IsIdentifier (name : Text) : Prop :=
  (∃ c rest, name = c :: rest ∧ isNameStart c = true) ∧ ∀ c ∈ name, isNameChar c = true

namespace IsIdentifier

variable {name value s : Text}

theorem ne_nil (h : IsIdentifier name) : name ≠ [] := by
  obtain ⟨c, rest, rfl, -⟩ := h.1
  exact List.cons_ne_nil c rest

theorem isWord (h : IsIdentifier name) : ∀ c ∈ name, Text.isWord c = true :=
  fun c hc => isWord_of_isNameChar (h.2 c hc)

theorem replaceWord_nameless (h : IsIdentifier name) (hs : Nameless s) :
    replaceWord name value s = s := by
  obtain ⟨c, rest, hcons, hc⟩ := h.1
  exact hs.replaceWord_eq h.isWord ⟨c, rest, hcons, isDigit_of_isNameStart hc⟩

end IsIdentifier

theorem Identifier.isIdentifier (n : Identifier) : IsIdentifier n.text :=
  ⟨n.head, n.chars⟩

theorem isIdentifier_of_mem_namesFrom {taken s name : Text}
    (htaken : taken = [] ∨ IsIdentifier taken.reverse) (h : name ∈ namesFrom taken s) :
    IsIdentifier name := by
  have hwhole {taken : Text} (htaken : taken = [] ∨ IsIdentifier taken.reverse)
      (hne : ¬taken.isEmpty = true) : IsIdentifier taken.reverse := by
    rcases htaken with rfl | htaken
    · exact absurd rfl hne
    · exact htaken
  induction s generalizing taken with
  | nil =>
    rw [namesFrom] at h
    split at h
    · cases h
    next hne =>
      rw [List.mem_singleton.mp h]
      exact hwhole htaken hne
  | cons c s ih =>
    rw [namesFrom] at h
    split at h
    · refine ih ?_ h
      split
      next hstart =>
        exact .inr ⟨⟨c, [], rfl, hstart⟩,
          List.forall_mem_singleton.mpr (isNameChar_of_isNameStart hstart)⟩
      · exact .inl rfl
    next hne =>
      obtain ⟨⟨d, rest, hcons, hd⟩, hchars⟩ := hwhole htaken hne
      split at h
      next hc =>
        refine ih (.inr ⟨⟨d, rest ++ [c], ?_, hd⟩, ?_⟩) h
        · rw [List.reverse_cons, hcons]
          rfl
        · rw [List.reverse_cons]
          exact List.forall_mem_append.mpr ⟨hchars, List.forall_mem_singleton.mpr hc⟩
      · rcases List.mem_cons.mp h with rfl | h
        · exact ⟨⟨d, rest, hcons, hd⟩, hchars⟩
        · exact ih (.inl rfl) h

theorem isIdentifier_of_mem_mentionedNames {s : Text} {name : String}
    (h : name ∈ mentionedNames s) : IsIdentifier name.toList := by
  rw [mentionedNames, List.mem_eraseDups] at h
  obtain ⟨n, hn, rfl⟩ := List.mem_map.mp h
  rw [String.toList_ofList]
  exact isIdentifier_of_mem_namesFrom (.inl rfl) hn

/-- Whatever is no character of names ends a name, and the names behind it are found as if nothing
stood in front. -/
theorem namesFrom_append {c : Char} (hc : isNameChar c = false) (taken s t : Text) :
    namesFrom taken (s ++ c :: t) = namesFrom taken s ++ namesFrom [] t := by
  have hstart : isNameStart c = false := by
    rw [Bool.eq_false_iff]
    intro h
    rw [isNameChar_of_isNameStart h] at hc
    cases hc
  induction s generalizing taken with
  | nil =>
    rw [List.nil_append, namesFrom, namesFrom, hstart, hc]
    split
    · rfl
    · rfl
  | cons d s ih =>
    rw [List.cons_append, namesFrom, namesFrom]
    split
    · exact ih _
    · split
      · exact ih _
      · rw [ih]
        rfl

theorem namesFrom_taken {taken s : Text} (hne : taken ≠ []) (hs : ∀ c ∈ s, isNameChar c = true) :
    namesFrom taken s = [taken.reverse ++ s] := by
  induction s generalizing taken with
  | nil => simp [namesFrom, hne]
  | cons c s ih =>
    have hc := hs c List.mem_cons_self
    have hrest := fun d hd => hs d (List.mem_cons_of_mem c hd)
    have hempty : taken.isEmpty = false := List.isEmpty_eq_false_iff.mpr hne
    rw [namesFrom, hempty, if_neg Bool.false_ne_true, if_pos hc,
      ih (List.cons_ne_nil c taken) hrest]
    simp

theorem namesFrom_identifier (n : Identifier) : namesFrom [] n.text = [n.text] := by
  obtain ⟨c, rest, hcons, hc⟩ := n.head
  have hrest : ∀ d ∈ rest, isNameChar d = true :=
    fun d hd => n.chars d (by rw [hcons]; exact List.mem_cons_of_mem c hd)
  rw [hcons, namesFrom, if_pos (by rfl), if_pos hc, namesFrom_taken (List.cons_ne_nil c []) hrest]
  rfl

theorem mem_mentionedNames {s n : Text} (h : n ∈ namesFrom [] s) :
    String.ofList n ∈ mentionedNames s := by
  rw [mentionedNames, List.mem_eraseDups]
  exact List.mem_map_of_mem h

/-- A name that is a part of a spaced text is mentioned there. -/
theorem mem_mentionedNames_spaced {n : Identifier} {parts : List Text} (h : n.text ∈ parts) :
    String.ofList n.text ∈ mentionedNames (spaced parts) := by
  refine mem_mentionedNames ?_
  induction parts with
  | nil => cases h
  | cons s parts ih =>
    cases parts with
    | nil =>
      rw [List.mem_singleton.mp h, spaced, ← List.mem_singleton.mp h, namesFrom_identifier]
      exact List.mem_singleton.mpr rfl
    | cons t parts =>
      rw [spaced, namesFrom_append (by decide), List.mem_append]
      rcases List.mem_cons.mp h with rfl | h
      · rw [namesFrom_identifier]
        exact .inl (List.mem_singleton.mpr rfl)
      · exact .inr (ih h)

/-! ## Replacing variables in the parts of a text -/

/-- What replacing a variable makes of a text. -/
def replaceVariable (bindings : List (String × Json)) (s : Text) (name : String) : Text :=
  match bindings.lookup name with
  | some (.float x) => replaceWord name.toList (Number.numberText x) s
  | _ => s

theorem replaceVariables_eq_foldl (h : AllFinite bindings) (s : Text) (names : List String) :
    replaceVariables bindings s names = .ok (names.foldl (replaceVariable bindings) s) := by
  induction names generalizing s with
  | nil => rfl
  | cons name names ih =>
    rw [replaceVariables, List.foldl_cons, replaceVariable]
    cases hj : bindings.lookup name with
    | none => exact ih s
    | some j =>
      obtain ⟨x, rfl, -⟩ := h.lookup hj
      exact ih _

variable {names : List String}

theorem foldl_replaceVariable_append (hnames : ∀ name ∈ names, IsIdentifier name.toList) {c : Char}
    (hc : Text.isWord c = false) (s t : Text) :
    names.foldl (replaceVariable bindings) (s ++ c :: t) =
      names.foldl (replaceVariable bindings) s ++ c :: names.foldl (replaceVariable bindings) t := by
  induction names generalizing s t with
  | nil => rfl
  | cons name names ih =>
    have hname := hnames name List.mem_cons_self
    have hstep : replaceVariable bindings (s ++ c :: t) name =
        replaceVariable bindings s name ++ c :: replaceVariable bindings t name := by
      unfold replaceVariable
      split
      · exact Text.replaceWord_append hname.ne_nil hname.isWord hc s t
      · rfl
    rw [List.foldl_cons, hstep, ih fun n hn => hnames n (List.mem_cons_of_mem name hn)]
    rfl

theorem foldl_replaceVariable_nameless (hnames : ∀ name ∈ names, IsIdentifier name.toList)
    {s : Text} (hs : Nameless s) : names.foldl (replaceVariable bindings) s = s := by
  induction names with
  | nil => rfl
  | cons name names ih =>
    have hname := hnames name List.mem_cons_self
    have hstep : replaceVariable bindings s name = s := by
      unfold replaceVariable
      split
      · exact hname.replaceWord_nameless hs
      · rfl
    rw [List.foldl_cons, hstep, ih fun n hn => hnames n (List.mem_cons_of_mem name hn)]

theorem nameless_numberText {x : Float} (hx : x.isFinite = true) :
    Nameless (Number.numberText x) := by
  obtain ⟨n, htext, -⟩ := Expression.exists_spelling hx
  rw [htext, Number.signed]
  split
  · exact n.nameless_text.cons (by decide)
  · exact n.nameless_text

/-- A variable that is replaced gets the text of its number. -/
theorem foldl_replaceVariable_bound (hnames : ∀ name ∈ names, IsIdentifier name.toList)
    {n : Identifier} {x : Float} (hx : x.isFinite = true)
    (hbound : bindings.lookup (String.ofList n.text) = some (.float x))
    (hmem : String.ofList n.text ∈ names) :
    names.foldl (replaceVariable bindings) n.text = Number.numberText x := by
  induction names with
  | nil => cases hmem
  | cons name names ih =>
    have hname := hnames name List.mem_cons_self
    have hrest := fun m hm => hnames m (List.mem_cons_of_mem name hm)
    rw [List.foldl_cons]
    by_cases heq : name = String.ofList n.text
    · have hstep : replaceVariable bindings n.text name = Number.numberText x := by
        simp only [replaceVariable, heq, hbound, String.toList_ofList]
        rw [Text.replaceWord_word n.isIdentifier.ne_nil n.isIdentifier.isWord n.isIdentifier.isWord,
          if_pos rfl]
      rw [hstep, foldl_replaceVariable_nameless hrest (nameless_numberText hx)]
    · have hstep : replaceVariable bindings n.text name = n.text := by
        unfold replaceVariable
        split
        · rw [Text.replaceWord_word hname.ne_nil hname.isWord n.isIdentifier.isWord, if_neg]
          rintro htext
          exact heq (by rw [htext, String.ofList_toList])
        · rfl
      rw [hstep]
      exact ih hrest ((List.mem_cons.mp hmem).resolve_left (Ne.symm heq))

/-- A name that is no variable stays. -/
theorem foldl_replaceVariable_free (hnames : ∀ name ∈ names, IsIdentifier name.toList)
    {n : Identifier} (hfree : bindings.lookup (String.ofList n.text) = none) :
    names.foldl (replaceVariable bindings) n.text = n.text := by
  induction names with
  | nil => rfl
  | cons name names ih =>
    have hname := hnames name List.mem_cons_self
    have hstep : replaceVariable bindings n.text name = n.text := by
      unfold replaceVariable
      split
      next hbound =>
        rw [Text.replaceWord_word hname.ne_nil hname.isWord n.isIdentifier.isWord, if_neg]
        intro htext
        rw [htext, String.ofList_toList, hbound] at hfree
        cases hfree
      · rfl
    rw [List.foldl_cons, hstep]
    exact ih fun m hm => hnames m (List.mem_cons_of_mem name hm)

/-! ## Tokens -/

/-- What is put in the place of the last result. -/
def lastNumber (bindings : List (String × Json)) : Text :=
  match bindings.lookup lastName with
  | some (.float x) => Number.numberText x
  | _ => ['0']

/-- What is put in the place of a name: the number of a variable or of a constant, or the name
itself. -/
def writtenName (bindings : List (String × Json)) (n : Identifier) : Text :=
  match bindings.lookup (String.ofList n.text) with
  | some (.float x) => Number.numberText x
  | _ => ((constantValue? n.text).map Number.numberText).getD n.text

theorem lastText_eq (h : AllFinite bindings) : lastText bindings = .ok (lastNumber bindings) := by
  rw [lastText, lastNumber, lastName]
  cases hj : bindings.lookup "@" with
  | none => rfl
  | some j =>
    obtain ⟨x, rfl, hx⟩ := h.lookup hj
    simp only [Option.getD_some, Json.leadingNumber, hx, if_true]

theorem nameless_lastNumber (h : AllFinite bindings) : Nameless (lastNumber bindings) := by
  unfold lastNumber
  split
  next hj =>
    obtain ⟨y, heq, hy⟩ := h.lookup hj
    cases heq
    exact nameless_numberText hy
  · exact .word (List.forall_mem_singleton.mpr (by decide)) (by simp)

theorem nameless_of_not_isWord {s : Text} (hs : ∀ c ∈ s, Text.isWord c = false) : Nameless s := by
  induction s with
  | nil => exact Text.nameless_nil
  | cons c s ih =>
    exact (ih fun d hd => hs d (List.mem_cons_of_mem c hd)).cons (hs c List.mem_cons_self)

/-- The tokens that are no names contain none. -/
theorem nameless_token {nameText : Identifier → Text} {last : Text} (hlast : Nameless last)
    {k : Token} (hk : ∀ n, k ≠ .name n) : Nameless (k.text nameText last) := by
  have hsign (o : Expression.Operator) : ∀ c ∈ o.sign, Text.isWord c = false := by
    cases o <;> simp [Expression.Operator.sign] <;> decide
  have hopening : Text.isWord '(' = false := by decide
  have hclosing : Text.isWord ')' = false := by decide
  cases k with
  | operator o => exact nameless_of_not_isWord (hsign o)
  | opening => exact nameless_of_not_isWord (List.forall_mem_singleton.mpr hopening)
  | closing => exact nameless_of_not_isWord (List.forall_mem_singleton.mpr hclosing)
  | number n => exact n.nameless_text
  | last => exact hlast
  | name n => exact absurd rfl (hk n)

/-- A text without the sign of the last result stays when that is put in. -/
theorem flatMap_eq_self (last : Text) {s : Text} (hs : '@' ∉ s) :
    (s.flatMap fun c => if c == '@' then last else [c]) = s := by
  induction s with
  | nil => rfl
  | cons c s ih =>
    have hc : (c == '@') = false :=
      beq_eq_false_iff_ne.mpr fun heq => hs (by rw [heq]; exact List.mem_cons_self)
    rw [List.flatMap_cons, hc, ih fun hmem => hs (List.mem_cons_of_mem c hmem)]
    rfl

/-- Putting the last result in changes the token for it and no other. -/
theorem flatMap_token (last : Text) (k : Token) :
    ((k.text Identifier.text lastName.toList).flatMap fun c => if c == '@' then last else [c]) =
      k.text Identifier.text last := by
  cases k with
  | operator o => exact flatMap_eq_self last (by cases o <;> decide)
  | opening => exact flatMap_eq_self last (by decide)
  | closing => exact flatMap_eq_self last (by decide)
  | number n =>
    refine flatMap_eq_self last fun hmem => ?_
    cases n.isChar_text '@' hmem
  | last => exact List.append_nil last
  | name n =>
    refine flatMap_eq_self last fun hmem => ?_
    cases n.chars '@' hmem

/-- All that is replaced in one part of an expression after the last result. -/
def replaceNames (bindings : List (String × Json)) (names : List String) (s : Text) : Text :=
  replaceWord ['e'] (Number.numberText Constant.euler)
    (replaceWord ['p', 'i'] (Number.numberText Constant.pi)
      (names.foldl (replaceVariable bindings) s))

theorem isIdentifier_constants : IsIdentifier ['p', 'i'] ∧ IsIdentifier ['e'] :=
  ⟨⟨⟨'p', ['i'], rfl, by decide⟩, List.all_eq_true.mp (by decide)⟩,
    ⟨'e', [], rfl, by decide⟩, List.all_eq_true.mp (by decide)⟩

theorem replaceNames_nameless (hnames : ∀ name ∈ names, IsIdentifier name.toList) {s : Text}
    (hs : Nameless s) : replaceNames bindings names s = s := by
  rw [replaceNames, foldl_replaceVariable_nameless hnames hs,
    isIdentifier_constants.1.replaceWord_nameless hs,
    isIdentifier_constants.2.replaceWord_nameless hs]

/-- The parts of a text around a character that belongs to no word are treated on their own. -/
theorem replaceNames_append (hnames : ∀ name ∈ names, IsIdentifier name.toList) {c : Char}
    (hc : Text.isWord c = false) (s t : Text) :
    replaceNames bindings names (s ++ c :: t) =
      replaceNames bindings names s ++ c :: replaceNames bindings names t := by
  obtain ⟨hpi, he⟩ := isIdentifier_constants
  rw [replaceNames, foldl_replaceVariable_append hnames hc,
    Text.replaceWord_append hpi.ne_nil hpi.isWord hc,
    Text.replaceWord_append he.ne_nil he.isWord hc]
  rfl

theorem replaceNames_spaced (hnames : ∀ name ∈ names, IsIdentifier name.toList)
    (parts : List Text) :
    replaceNames bindings names (spaced parts) =
      spaced (parts.map (replaceNames bindings names)) := by
  induction parts with
  | nil => exact replaceNames_nameless hnames Text.nameless_nil
  | cons s parts ih =>
    cases parts with
    | nil => rfl
    | cons t parts =>
      rw [spaced, replaceNames_append hnames Text.isWord_blank, ih]
      rfl

theorem isFinite_constants : Constant.pi.isFinite = true ∧ Constant.euler.isFinite = true := by
  constructor <;> decide

/-- Where the names that are variables are among those replaced, a token becomes what is written for
it. -/
theorem replaceNames_token (h : AllFinite bindings)
    (hnames : ∀ name ∈ names, IsIdentifier name.toList) {k : Token}
    (hk : ∀ n, k = .name n → String.ofList n.text ∈ names) :
    replaceNames bindings names (k.text Identifier.text (lastNumber bindings)) =
      k.text (writtenName bindings) (lastNumber bindings) := by
  obtain ⟨hpi, he⟩ := isIdentifier_constants
  by_cases hname : ∃ n, k = .name n
  · obtain ⟨n, rfl⟩ := hname
    simp only [Token.text, writtenName]
    cases hj : bindings.lookup (String.ofList n.text) with
    | some j =>
      obtain ⟨x, rfl, hx⟩ := h.lookup hj
      rw [replaceNames, foldl_replaceVariable_bound hnames hx hj (hk n rfl),
        hpi.replaceWord_nameless (nameless_numberText hx),
        he.replaceWord_nameless (nameless_numberText hx)]
    | none =>
      obtain ⟨hpiFinite, heFinite⟩ := isFinite_constants
      rw [replaceNames, foldl_replaceVariable_free hnames hj,
        Text.replaceWord_word hpi.ne_nil hpi.isWord n.isIdentifier.isWord]
      simp only [constantValue?]
      split
      · rw [he.replaceWord_nameless (nameless_numberText hpiFinite)]
        rfl
      · rw [Text.replaceWord_word he.ne_nil he.isWord n.isIdentifier.isWord]
        split <;> rfl
  · have hnone : ∀ n, k ≠ .name n := fun n heq => hname ⟨n, heq⟩
    have hsame : k.text Identifier.text (lastNumber bindings) =
        k.text (writtenName bindings) (lastNumber bindings) := by
      cases k with
      | name n => exact absurd rfl (hnone n)
      | _ => rfl
    rw [replaceNames_nameless hnames (nameless_token (nameless_lastNumber h) hnone), hsame]

theorem replaceNames_identifier (h : AllFinite bindings)
    (hnames : ∀ name ∈ names, IsIdentifier name.toList) {n : Identifier}
    (hn : String.ofList n.text ∈ names) :
    replaceNames bindings names n.text = writtenName bindings n := by
  refine @replaceNames_token bindings names h hnames (.name n) fun m hm => ?_
  cases hm
  exact hn

/-- A text with the last result put in. -/
def putLast (bindings : List (String × Json)) (s : Text) : Text :=
  s.flatMap fun c => if c == '@' then lastNumber bindings else [c]

/-- The names in a text in the order in which they are replaced. -/
def sortedNamesIn (s : Text) : List String :=
  (mentionedNames s).mergeSort fun a b => b.length ≤ a.length

theorem isIdentifier_of_mem_sortedNamesIn {s : Text} :
    ∀ name ∈ sortedNamesIn s, IsIdentifier name.toList :=
  fun _ hmem => isIdentifier_of_mem_mentionedNames (List.mem_mergeSort.mp hmem)

/-- Where all variables are finite, substitution succeeds, and replaces one name after the other. -/
theorem substitute_eq (h : AllFinite bindings) (s : Text) :
    substitute bindings s =
      .ok (replaceNames bindings (sortedNamesIn (putLast bindings s)) (putLast bindings s)) := by
  simp only [substitute, lastText_eq h, bind, Except.bind, replaceVariables_eq_foldl h]
  rfl

/-- Substitution changes tokens, and nothing between them. -/
theorem substitute_spaced (h : AllFinite bindings) (tokens : List Token) :
    substitute bindings (spaced (tokens.map (Token.text Identifier.text lastName.toList))) =
      .ok (spaced (tokens.map (Token.text (writtenName bindings) (lastNumber bindings)))) := by
  have hlast : putLast bindings (spaced (tokens.map (Token.text Identifier.text lastName.toList))) =
      spaced (tokens.map (Token.text Identifier.text (lastNumber bindings))) := by
    rw [putLast, Text.flatMap_spaced (by rfl), List.map_map]
    exact congrArg spaced (List.map_congr_left fun k _ => flatMap_token _ k)
  set parts := tokens.map (Token.text Identifier.text (lastNumber bindings)) with hparts
  rw [substitute_eq h, hlast, replaceNames_spaced isIdentifier_of_mem_sortedNamesIn, hparts,
    List.map_map]
  refine congrArg (fun parts => Except.ok (spaced parts)) (List.map_congr_left fun k hk => ?_)
  refine replaceNames_token h isIdentifier_of_mem_sortedNamesIn fun n hn =>
    List.mem_mergeSort.mpr (mem_mentionedNames_spaced ?_)
  exact List.mem_map.mpr ⟨k, hk, by rw [hn]; rfl⟩

/-! ## The value of a printed term -/

theorem plainZero_constants :
    plainZero Constant.pi = Constant.pi ∧ plainZero Constant.euler = Constant.euler := by
  constructor <;> exact if_neg (by decide)

/-- The text of a constant stands for it. -/
theorem stands_constant {name : Text} {x : Float} (h : constantValue? name = some x) :
    Stands .factor (Number.numberText x) (some x) (Term.signDepth x) := by
  obtain ⟨hpi, he⟩ := plainZero_constants
  obtain ⟨hpiFinite, heFinite⟩ := isFinite_constants
  rw [constantValue?] at h
  split at h
  · obtain rfl := Option.some.inj h
    have hstands := stands_numberText hpiFinite
    rwa [hpi] at hstands
  · split at h
    · obtain rfl := Option.some.inj h
      have hstands := stands_numberText heFinite
      rwa [he] at hstands
    · cases h

/-- The texts of the values stand for them. -/
theorem writes_values (h : AllFinite bindings) :
    Writes bindings (writtenName bindings) (lastNumber bindings) where
  last := by
    rw [lastNumber, lastValue, boundValue?, String.ofList_toList]
    cases hj : bindings.lookup lastName with
    | none => exact stands_numberText Number.isFinite_zero
    | some j =>
      obtain ⟨x, rfl, hx⟩ := h.lookup hj
      exact stands_numberText hx
  names := by
    intro n x hx
    rw [nameValue?, boundValue?] at hx
    rw [writtenName]
    cases hj : bindings.lookup (String.ofList n.text) with
    | some j =>
      obtain ⟨y, rfl, hy⟩ := h.lookup hj
      rw [hj] at hx
      cases hx
      exact stands_numberText hy
    | none =>
      rw [hj] at hx
      have hconstant : constantValue? n.text = some x := hx
      rw [hconstant]
      exact stands_constant hconstant
  functions := by
    intro f hf hfree
    have hpi : f.text ≠ ['p', 'i'] := by
      intro heq
      rw [heq] at hf
      cases hf
    have he : f.text ≠ ['e'] := by
      intro heq
      rw [heq] at hf
      cases hf
    rw [writtenName, hfree, constantValue?, if_neg hpi, if_neg he]
    rfl

/-- A character that is not dropped from expressions. -/
def isKept (c : Char) : Bool :=
  !(Text.isBlank c || c == ',')

theorem isKept_of_visible {c : Char} (hc : 33 ≤ c.toNat ∧ c.toNat ≤ 126) (hcomma : c ≠ ',') :
    isKept c = true := by
  have hblank : Text.isBlank c = false := by
    simp only [Text.isBlank, Text.blankRanges, Text.Ranges.contains, List.any_cons, List.any_nil,
      Bool.or_false, Bool.or_eq_false_iff, Bool.and_eq_false_iff, decide_eq_false_iff_not]
    omega
  simp [isKept, hblank, hcomma]

theorem isKept_of_isDigit {c : Char} (h : c.isDigit = true) : isKept c = true := by
  have hbounds := Text.basicDigit_iff.mp h
  refine isKept_of_visible (by omega) ?_
  rintro rfl
  cases h

theorem isKept_of_isTextChar {c : Char} (h : Number.isTextChar c = true) : isKept c = true := by
  rw [Number.isTextChar, Bool.or_eq_true, List.contains_iff_mem] at h
  rcases h with hdigit | hmem
  · exact isKept_of_isDigit hdigit
  · have hall : "-+.eNaInfity".toList.all isKept = true := by decide
    exact List.all_eq_true.mp hall c hmem

theorem isKept_of_isChar {c : Char} (h : Spelling.isChar c = true) : isKept c = true := by
  simp only [Spelling.isChar, Bool.or_eq_true, beq_iff_eq] at h
  rcases h with (((hdigit | rfl) | rfl) | rfl) | rfl
  · exact isKept_of_isDigit hdigit
  all_goals decide

theorem isKept_of_isNameChar {c : Char} (h : isNameChar c = true) : isKept c = true := by
  rw [isNameChar, Bool.or_eq_true, beq_iff_eq] at h
  rcases h with h | rfl
  · have hranges := Text.isAlphanum_iff.mp h
    refine isKept_of_visible (by omega) ?_
    rintro rfl
    exact absurd h (by decide)
  · decide

/-- No token has characters that are dropped. -/
theorem isKept_token (k : Token) :
    ∀ c ∈ k.text (writtenName bindings) (lastNumber bindings), isKept c = true := by
  have hnumber (x : Float) : ∀ c ∈ Number.numberText x, isKept c = true :=
    fun c hc => isKept_of_isTextChar ((Number.isNumberText_numberText x).chars c hc)
  cases k with
  | operator o => cases o <;> exact List.all_eq_true.mp (by rfl)
  | opening => exact List.all_eq_true.mp (by rfl)
  | closing => exact List.all_eq_true.mp (by rfl)
  | number n => exact fun c hc => isKept_of_isChar (n.isChar_text c hc)
  | last =>
    rw [Token.text, lastNumber]
    split
    · exact hnumber _
    · exact List.all_eq_true.mp (by rfl)
  | name n =>
    rw [Token.text, writtenName]
    split
    · exact hnumber _
    · cases constantValue? n.text with
      | some x => exact hnumber x
      | none => exact fun c hc => isKept_of_isNameChar (n.chars c hc)

/-- Without its blanks, a spaced text is its tokens one behind the other. -/
theorem filter_tokens (tokens : List Token) :
    (spaced (tokens.map (Token.text (writtenName bindings) (lastNumber bindings)))).filter isKept =
      joinTokens (writtenName bindings) (lastNumber bindings) tokens := by
  rw [Text.filter_spaced (by decide), List.flatMap_map, joinTokens]
  exact List.flatMap_congr fun k _ => List.filter_eq_self.mpr (isKept_token k)

theorem prepare_eq {s : Text} (hs : ∀ c ∈ s, isKept c = true) :
    Expression.prepare s = Expression.replaceDegrees s.length s :=
  congrArg (fun t : Text => Expression.replaceDegrees t.length t) (List.filter_eq_self.mpr hs)

/-- A text that stands for a value is read as it. -/
theorem valueOf_of_stands {t : Text} {value : Option Float} {depth : Nat}
    (h : Stands .sum t value depth) (hdepth : depth ≤ Expression.nestingRoom) :
    (∀ fuel, Expression.replaceDegrees fuel t = t) ∧
      Expression.valueOf Expression.standardTable t = value.elim (.error .divisionByZero) .ok := by
  obtain ⟨e, rfl, rfl, hderives⟩ := h
  have htree := hderives [] rfl
  rw [List.append_nil] at htree
  exact ⟨Expression.replaceDegrees_of_derives htree, Expression.valueOf_of_denotes ⟨htree, hdepth⟩⟩

/-- A text comes to the value that what is kept of it stands for. -/
theorem evaluate_of_stands_kept {s : Text} {value : Option Float} {depth : Nat}
    (h : Stands .sum (s.filter isKept) value depth) (hdepth : depth ≤ Expression.nestingRoom) :
    Expression.evaluate s = value.elim (.error .divisionByZero) Expression.settle := by
  obtain ⟨hsame, hvalue⟩ := valueOf_of_stands h hdepth
  have hprepare : Expression.prepare s = s.filter isKept := hsame _
  rw [Expression.evaluate, Expression.evaluateWith, hprepare, hvalue]
  cases value <;> rfl

/-- A text that stands for a value comes to it. -/
theorem evaluate_of_stands {t : Text} {value : Option Float} {depth : Nat}
    (h : Stands .sum t value depth) (hdepth : depth ≤ Expression.nestingRoom)
    (hkept : ∀ c ∈ t, isKept c = true) :
    Expression.evaluate t = value.elim (.error .divisionByZero) Expression.settle := by
  rw [← List.filter_eq_self.mpr hkept] at h
  exact evaluate_of_stands_kept h hdepth

/-- Substituting the values of variables as text means what it should: where all variables are
finite, what comes out of a printed term has the value of the term, or is refused because a divisor
in the term is zero. -/
theorem evaluate_print {t : Term} (hfinite : AllFinite bindings) (hresolves : t.Resolves bindings)
    (hdepth : t.depth bindings ≤ Expression.nestingRoom) :
    ∃ prepared, substitute bindings t.print = .ok prepared ∧
      Expression.evaluate prepared =
        (t.value? bindings).elim (.error .divisionByZero) Expression.settle := by
  refine ⟨_, substitute_spaced hfinite t.tokens, ?_⟩
  have hstands : Stands .sum (joinTokens (writtenName bindings) (lastNumber bindings) t.tokens)
      (t.value? bindings) (t.depth bindings) :=
    (stands_term (writes_values hfinite) t hresolves).lower (Nat.zero_le _)
  obtain ⟨hsame, hvalue⟩ := valueOf_of_stands hstands hdepth
  have hprepare : Expression.prepare
      (spaced (t.tokens.map (Token.text (writtenName bindings) (lastNumber bindings)))) =
        joinTokens (writtenName bindings) (lastNumber bindings) t.tokens :=
    (congrArg (fun s : Text => Expression.replaceDegrees s.length s) (filter_tokens t.tokens)).trans
      (hsame _)
  rw [Expression.evaluate, Expression.evaluateWith, hprepare, hvalue]
  cases t.value? bindings <;> rfl

/-- A negative value in front of a power, a constant, and a last result that is written with an
exponent. -/
theorem evaluate_print_negative :
    ∃ t : Term, t.print = "x ^ 2 - e / @".toList ∧
      ∃ prepared, substitute [("@", .float 1e-7), ("x", .float (-3))] t.print = .ok prepared ∧
        Expression.evaluate prepared =
          (t.value? [("@", .float 1e-7), ("x", .float (-3))]).elim (.error .divisionByZero)
            Expression.settle := by
  have hfinite : AllFinite [("@", .float 1e-7), ("x", .float (-3))] := by
    intro name j hmem
    simp only [List.mem_cons, List.not_mem_nil, or_false, Prod.mk.injEq] at hmem
    rcases hmem with ⟨-, rfl⟩ | ⟨-, rfl⟩
    · exact ⟨_, rfl, by decide⟩
    · exact ⟨_, rfl, by decide⟩
  let x : Identifier := ⟨['x'], ⟨'x', [], rfl, by decide⟩, List.all_eq_true.mp (by decide)⟩
  let e : Identifier := ⟨['e'], ⟨'e', [], rfl, by decide⟩, List.all_eq_true.mp (by decide)⟩
  let two : Spelling := ⟨⟨['2'], by decide, List.all_eq_true.mp (by decide)⟩, none, none⟩
  refine ⟨.operation .minus (.operation .caret (.name x) (.number two))
    (.operation .slash (.name e) .last), rfl, ?_⟩
  exact evaluate_print hfinite ⟨⟨rfl, trivial⟩, rfl, trivial⟩ (by decide)

end DeskCalc.Session
