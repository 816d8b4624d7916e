import DeskCalc.Proofs.Session.Splicing
import Mathlib.Data.List.SplitBy

/-!
# Substitution in one pass

Names are replaced one after the other, each in the text that the previous ones have left.  Where all
values are finite numbers, this comes to one pass from left to right over the words of the text, in
which each word is looked up once.  Hence the order of the names does not matter, and what is put in
is never replaced again.
-/

namespace DeskCalc

/-! ## The words of a text -/

namespace Text

/-- The words of a text, which are its longest runs of word characters, and the characters between
them. -/
def words (s : Text) : List Text :=
  s.splitBy fun c d => isWord c && isWord d

variable {w : Text}

theorem words_word (hne : w ≠ []) (hw : ∀ c ∈ w, isWord c = true) : words w = [w] := by
  refine List.splitBy_of_isChain hne (List.Pairwise.isChain ?_)
  exact List.pairwise_of_forall_mem_list fun c hc d hd => by rw [hw c hc, hw d hd]; rfl

theorem words_append {c : Char} (hc : isWord c = false) (s t : Text) :
    words (s ++ c :: t) = words s ++ [c] :: words t := by
  have hafter : words (c :: t) = [c] :: words t := by
    rw [words, ← List.singleton_append, List.splitBy_append (by simp [hc]),
      List.splitBy_of_isChain (List.cons_ne_nil c []) (List.isChain_singleton c)]
    rfl
  rw [words, List.splitBy_append_cons _ (by simp [hc])]
  exact congrArg _ hafter

/-- A text is a word, or a word and a character of no word stand at its beginning. -/
theorem words_induction {motive : Text → Prop}
    (word : ∀ w, (∀ c ∈ w, isWord c = true) → motive w)
    (divided : ∀ w c t, (∀ c ∈ w, isWord c = true) → isWord c = false → motive t →
      motive (w ++ c :: t)) (s : Text) : motive s := by
  have hfrom (w : Text) (hw : ∀ c ∈ w, isWord c = true) : motive (w ++ s) := by
    induction s generalizing w with
    | nil => exact word _ (by rwa [List.append_nil])
    | cons c s ih =>
      cases hc : isWord c with
      | true =>
        have hlonger := ih (w ++ [c])
          (List.forall_mem_append.mpr ⟨hw, List.forall_mem_singleton.mpr hc⟩)
        rwa [List.append_assoc] at hlonger
      | false => exact divided w c s hw hc (ih [] (List.forall_mem_nil _))
  exact hfrom [] (List.forall_mem_nil _)

end Text

namespace Session

open Text (words Nameless replaceWord)

variable {bindings : List (String × Json)} {names : List String}

/-! ## Finite numbers -/

/-- The finite number that a document is. -/
def finite? : Json → Option Float
  | .int n => Number.ofInt? n
  | .float x => if x.isFinite then some x else none
  | _ => none

/-- All values of a table are finite numbers. -/
def AllNumbers (bindings : List (String × Json)) : Prop :=
  ∀ name j, (name, j) ∈ bindings → (finite? j).isSome = true

/-- The finite number under a name. -/
def number? (bindings : List (String × Json)) (name : String) : Option Float :=
  (bindings.lookup name).bind finite?

/-- The table with a double in the place of each number. -/
def inDoubles (bindings : List (String × Json)) : List (String × Json) :=
  bindings.map fun (name, j) => (name, ((finite? j).map Json.float).getD j)

theorem isFinite_of_finite? {j : Json} {x : Float} (h : finite? j = some x) : x.isFinite = true := by
  cases j with
  | int n =>
    rw [finite?, Number.ofInt?] at h
    split at h
    next hfinite =>
      cases h
      exact hfinite
    · cases h
  | float y =>
    rw [finite?] at h
    split at h
    next hfinite =>
      cases h
      exact hfinite
    · cases h
  | _ => cases h

theorem AllNumbers.exists_float (h : AllNumbers bindings) {name : String} {j : Json}
    (hj : bindings.lookup name = some j) : ∃ x, finite? j = some x :=
  Option.isSome_iff_exists.mp (h name j (Json.mem_of_lookup hj))

theorem AllNumbers.allFinite (h : AllNumbers bindings) : AllFinite (inDoubles bindings) := by
  intro name j hmem
  obtain ⟨⟨n, i⟩, hi, heq⟩ := List.mem_map.mp hmem
  obtain ⟨x, hx⟩ := Option.isSome_iff_exists.mp (h n i hi)
  simp only [hx, Option.map_some, Option.getD_some, Prod.mk.injEq] at heq
  exact ⟨x, heq.2.symm, isFinite_of_finite? hx⟩

theorem lookup_inDoubles (h : AllNumbers bindings) (name : String) :
    (inDoubles bindings).lookup name = (number? bindings name).map Json.float := by
  induction bindings with
  | nil => rfl
  | cons entry bindings ih =>
    obtain ⟨n, j⟩ := entry
    obtain ⟨x, hx⟩ := Option.isSome_iff_exists.mp (h n j List.mem_cons_self)
    have hrest := ih fun m i hmem => h m i (List.mem_cons_of_mem _ hmem)
    rw [number?] at hrest ⊢
    rw [inDoubles, List.map_cons, Json.lookup_cons_eq_ite, Json.lookup_cons_eq_ite]
    split
    · simp [hx]
    · exact hrest

/-- A number is used as the double nearest to it. -/
theorem numbers_of_finite? {j : Json} {x : Float} (h : finite? j = some x) :
    j.wholeNumber = .ok x ∧ j.leadingNumber = .found x := by
  cases j with
  | int n =>
    rw [finite?] at h
    simp only [Json.wholeNumber, Json.leadingNumber, h, Attempt.orBreak, and_self]
  | float y =>
    rw [finite?] at h
    split at h
    · cases h
      exact ⟨rfl, rfl⟩
    · cases h
  | _ => cases h

theorem lastText_inDoubles (h : AllNumbers bindings) :
    lastText (inDoubles bindings) = lastText bindings := by
  rw [lastText, lastText, lookup_inDoubles h, number?]
  cases hj : bindings.lookup "@" with
  | none => rfl
  | some j =>
    obtain ⟨x, hx⟩ := h.exists_float hj
    simp only [Option.bind_some, hx, Option.map_some, Option.getD_some, (numbers_of_finite? hx).2]
    rfl

theorem replaceVariables_inDoubles (h : AllNumbers bindings) (s : Text) (names : List String) :
    replaceVariables (inDoubles bindings) s names = replaceVariables bindings s names := by
  induction names generalizing s with
  | nil => rfl
  | cons name names ih =>
    rw [replaceVariables, replaceVariables, lookup_inDoubles h, number?]
    cases hj : bindings.lookup name with
    | none => exact ih s
    | some j =>
      obtain ⟨x, hx⟩ := h.exists_float hj
      simp only [Option.bind_some, hx, Option.map_some, (numbers_of_finite? hx).1]
      exact ih _

theorem substitute_inDoubles (h : AllNumbers bindings) (s : Text) :
    substitute (inDoubles bindings) s = substitute bindings s := by
  simp only [substitute, lastText_inDoubles h, replaceVariables_inDoubles h]

/-! ## One pass -/

/-- Whether a text has the form of a name. -/
def isIdentifier (w : Text) : Bool :=
  w.head?.any isNameStart && w.all isNameChar

theorem isIdentifier_iff {w : Text} : isIdentifier w = true ↔ IsIdentifier w := by
  cases w with
  | nil => simp [isIdentifier, IsIdentifier]
  | cons c w => simp [isIdentifier, IsIdentifier]

/-- The text with the last result put in, which is zero if there is none. -/
def withLast (bindings : List (String × Json)) (s : Text) : Text :=
  s.flatMap fun c =>
    if c == '@' then ((number? bindings lastName).map Number.numberText).getD ['0'] else [c]

/-- The number that a word stands for: that of a name in the table, or else a constant. -/
def wordNumber? (bindings : List (String × Json)) (w : Text) : Option Float :=
  (if isIdentifier w then number? bindings (String.ofList w) else none).or (constantValue? w)

/-- What a word is replaced by: the number that it stands for, or the word itself. -/
def writtenWord (bindings : List (String × Json)) (w : Text) : Text :=
  ((wordNumber? bindings w).map Number.numberText).getD w

/-- The text with the last result put in and each word then replaced once. -/
def simultaneous (bindings : List (String × Json)) (s : Text) : Text :=
  (words (withLast bindings s)).flatMap (writtenWord bindings)

theorem withLast_eq (h : AllNumbers bindings) (s : Text) :
    withLast bindings s = putLast (inDoubles bindings) s := by
  rw [withLast, putLast, lastNumber, lookup_inDoubles h]
  cases number? bindings lastName <;> rfl

/-! ## One name after the other -/

/-- A word that is no name stays. -/
theorem foldl_replaceVariable_word (hnames : ∀ name ∈ names, IsIdentifier name.toList) {w : Text}
    (hw : ∀ c ∈ w, Text.isWord c = true) (hnot : ¬IsIdentifier w) :
    names.foldl (replaceVariable bindings) w = w := by
  induction names with
  | nil => rfl
  | cons name names ih =>
    have hname := hnames name List.mem_cons_self
    have hstep : replaceVariable bindings w name = w := by
      unfold replaceVariable
      split
      · rw [Text.replaceWord_word hname.ne_nil hname.isWord hw, if_neg]
        rintro rfl
        exact hnot hname
      · rfl
    rw [List.foldl_cons, hstep]
    exact ih fun m hm => hnames m (List.mem_cons_of_mem name hm)

theorem writtenWord_eq (h : AllNumbers bindings) (n : Identifier) :
    writtenWord bindings n.text = writtenName (inDoubles bindings) n := by
  rw [writtenWord, wordNumber?, if_pos (isIdentifier_iff.mpr n.isIdentifier), writtenName,
    lookup_inDoubles h]
  cases number? bindings (String.ofList n.text) <;> rfl

theorem ne_constants {w : Text} (hnot : ¬IsIdentifier w) : w ≠ ['p', 'i'] ∧ w ≠ ['e'] := by
  obtain ⟨hpi, he⟩ := isIdentifier_constants
  constructor
  · rintro rfl
    exact hnot hpi
  · rintro rfl
    exact hnot he

theorem writtenWord_of_not {w : Text} (hnot : ¬IsIdentifier w) : writtenWord bindings w = w := by
  obtain ⟨hpi, he⟩ := ne_constants hnot
  rw [writtenWord, wordNumber?, if_neg (mt isIdentifier_iff.mp hnot), constantValue?, if_neg hpi,
    if_neg he]
  rfl

theorem not_isIdentifier_singleton {c : Char} (hc : Text.isWord c = false) :
    ¬IsIdentifier [c] := by
  intro hidentifier
  rw [hidentifier.isWord c (List.mem_singleton.mpr rfl)] at hc
  cases hc

/-- A word is replaced as it is in one pass. -/
theorem replaceNames_word (h : AllNumbers bindings)
    (hnames : ∀ name ∈ names, IsIdentifier name.toList) {w : Text}
    (hw : ∀ c ∈ w, Text.isWord c = true)
    (hmentioned : ∀ name ∈ namesFrom [] w, String.ofList name ∈ names) :
    replaceNames (inDoubles bindings) names w = writtenWord bindings w := by
  by_cases hidentifier : IsIdentifier w
  · obtain ⟨n, rfl⟩ : ∃ n : Identifier, n.text = w := ⟨⟨w, hidentifier.1, hidentifier.2⟩, rfl⟩
    rw [writtenWord_eq h]
    refine replaceNames_identifier h.allFinite hnames (hmentioned n.text ?_)
    rw [namesFrom_identifier]
    exact List.mem_singleton.mpr rfl
  · obtain ⟨hpi, he⟩ := isIdentifier_constants
    obtain ⟨hnotpi, hnote⟩ := ne_constants hidentifier
    rw [writtenWord_of_not hidentifier, replaceNames,
      foldl_replaceVariable_word hnames hw hidentifier,
      Text.replaceWord_word hpi.ne_nil hpi.isWord hw, if_neg hnotpi,
      Text.replaceWord_word he.ne_nil he.isWord hw, if_neg hnote]

/-- What the words of a text are replaced by is put together at any character of no word. -/
theorem flatMap_words_append {c : Char} (hc : Text.isWord c = false) (s t : Text) :
    (words (s ++ c :: t)).flatMap (writtenWord bindings) =
      (words s).flatMap (writtenWord bindings) ++
        c :: (words t).flatMap (writtenWord bindings) := by
  rw [Text.words_append hc, List.flatMap_append, List.flatMap_cons,
    writtenWord_of_not (not_isIdentifier_singleton hc)]
  rfl

theorem flatMap_words_word {w : Text} (hw : ∀ c ∈ w, Text.isWord c = true) :
    (words w).flatMap (writtenWord bindings) = writtenWord bindings w := by
  by_cases hne : w = []
  · subst hne
    exact (writtenWord_of_not fun hidentifier => hidentifier.ne_nil rfl).symm
  · rw [Text.words_word hne hw, List.flatMap_singleton]

/-- Whatever the order of the names, replacing one after the other comes to one pass, if all names
that the text mentions are among them. -/
theorem replaceNames_eq (h : AllNumbers bindings)
    (hnames : ∀ name ∈ names, IsIdentifier name.toList) {s : Text}
    (hmentioned : ∀ name ∈ namesFrom [] s, String.ofList name ∈ names) :
    replaceNames (inDoubles bindings) names s = (words s).flatMap (writtenWord bindings) := by
  induction s using Text.words_induction with
  | word w hw => rw [replaceNames_word h hnames hw hmentioned, flatMap_words_word hw]
  | divided w c t hw hc ih =>
    have hchar : isNameChar c = false := by
      rw [Bool.eq_false_iff]
      intro hname
      rw [isWord_of_isNameChar hname] at hc
      cases hc
    rw [namesFrom_append hchar] at hmentioned
    obtain ⟨hfirst, hrest⟩ := List.forall_mem_append.mp hmentioned
    rw [replaceNames_append hnames hc, replaceNames_word h hnames hw hfirst, ih hrest,
      flatMap_words_append hc, flatMap_words_word hw]

/-! ## What is put in -/

/-- Numbers are not changed. -/
theorem flatMap_words_nameless (h : AllNumbers bindings) {s : Text} (hs : Nameless s) :
    (words s).flatMap (writtenWord bindings) = s := by
  have hnames : ∀ name ∈ mentionedNames s, IsIdentifier name.toList :=
    fun name hmem => isIdentifier_of_mem_mentionedNames hmem
  rw [← replaceNames_eq h hnames fun name hname => mem_mentionedNames hname,
    replaceNames_nameless hnames hs]

theorem isFinite_of_wordNumber? {w : Text} {x : Float} (h : wordNumber? bindings w = some x) :
    x.isFinite = true := by
  obtain ⟨hpi, he⟩ := isFinite_constants
  rcases Option.or_eq_some_iff.mp h with hbound | ⟨-, hconstant⟩
  · split at hbound
    · obtain ⟨j, -, hj⟩ := Option.bind_eq_some_iff.mp hbound
      exact isFinite_of_finite? hj
    · cases hbound
  · rw [constantValue?] at hconstant
    split at hconstant
    · cases hconstant
      exact hpi
    · split at hconstant
      · cases hconstant
        exact he
      · cases hconstant

/-- What a word is replaced by is not replaced again. -/
theorem flatMap_words_writtenWord (h : AllNumbers bindings) {w : Text}
    (hw : ∀ c ∈ w, Text.isWord c = true) :
    (words (writtenWord bindings w)).flatMap (writtenWord bindings) = writtenWord bindings w := by
  have hword : writtenWord bindings w = w ∨ Nameless (writtenWord bindings w) := by
    rw [writtenWord]
    cases hx : wordNumber? bindings w with
    | none => exact .inl rfl
    | some x => exact .inr (nameless_numberText (isFinite_of_wordNumber? hx))
  rcases hword with hsame | hnameless
  · rw [hsame, flatMap_words_word hw, hsame]
  · exact flatMap_words_nameless h hnameless

theorem flatMap_words_idem (h : AllNumbers bindings) (s : Text) :
    (words ((words s).flatMap (writtenWord bindings))).flatMap (writtenWord bindings) =
      (words s).flatMap (writtenWord bindings) := by
  induction s using Text.words_induction with
  | word w hw => rw [flatMap_words_word hw, flatMap_words_writtenWord h hw]
  | divided w c t hw hc ih =>
    rw [flatMap_words_append hc, flatMap_words_append hc, ih, flatMap_words_word hw,
      flatMap_words_writtenWord h hw]

theorem at_not_mem_numberText (x : Float) : '@' ∉ Number.numberText x := by
  intro hmem
  have hchar := (Number.isNumberText_numberText x).chars '@' hmem
  revert hchar
  decide

theorem at_not_mem_withLast (bindings : List (String × Json)) (s : Text) :
    '@' ∉ withLast bindings s := by
  intro hmem
  obtain ⟨c, -, hc⟩ := List.mem_flatMap.mp hmem
  split at hc
  · cases hlast : number? bindings lastName with
    | none =>
      rw [hlast] at hc
      revert hc
      decide
    | some x =>
      rw [hlast] at hc
      exact at_not_mem_numberText x hc
  next hne => exact hne (beq_iff_eq.mpr (List.mem_singleton.mp hc).symm)

theorem at_not_mem_simultaneous (bindings : List (String × Json)) (s : Text) :
    '@' ∉ simultaneous bindings s := by
  intro hmem
  obtain ⟨w, hw, hmem⟩ := List.mem_flatMap.mp hmem
  rw [writtenWord] at hmem
  cases hnumber : wordNumber? bindings w with
  | none =>
    rw [hnumber] at hmem
    apply at_not_mem_withLast bindings s
    rw [← List.flatten_splitBy (fun c d => Text.isWord c && Text.isWord d) (withLast bindings s)]
    exact List.mem_flatten.mpr ⟨w, hw, hmem⟩
  | some x =>
    rw [hnumber] at hmem
    exact at_not_mem_numberText x hmem

theorem withLast_eq_self {s : Text} (hs : '@' ∉ s) : withLast bindings s = s :=
  flatMap_eq_self _ hs

/-! ## The main statement -/

/-- The constants put into a text in which the variables have been replaced. -/
def withConstants (s : Text) : Text :=
  replaceWord ['e'] (Number.numberText Constant.euler)
    (replaceWord ['p', 'i'] (Number.numberText Constant.pi) s)

theorem replaceVariables_eq (h : AllNumbers bindings) {s : Text}
    (hperm : names.Perm (mentionedNames s)) :
    (replaceVariables bindings s names).map withConstants =
      .ok ((words s).flatMap (writtenWord bindings)) := by
  have hnames : ∀ name ∈ names, IsIdentifier name.toList :=
    fun name hmem => isIdentifier_of_mem_mentionedNames (hperm.mem_iff.mp hmem)
  rw [← replaceNames_eq h hnames fun name hname => hperm.mem_iff.mpr (mem_mentionedNames hname),
    ← replaceVariables_inDoubles h, replaceVariables_eq_foldl h.allFinite]
  rfl

theorem substitute_eq_simultaneous (h : AllNumbers bindings) (s : Text) :
    substitute bindings s = .ok (simultaneous bindings s) := by
  rw [← substitute_inDoubles h, substitute_eq h.allFinite, ← withLast_eq h,
    replaceNames_eq h isIdentifier_of_mem_sortedNamesIn fun name hname =>
      List.mem_mergeSort.mpr (mem_mentionedNames hname)]
  rfl

/-- Where all values are finite numbers, substitution replaces each word once, in whatever order the
names are taken, and a second substitution changes nothing. -/
theorem substitute_simultaneous (h : AllNumbers bindings) (s : Text) :
    substitute bindings s = .ok (simultaneous bindings s) ∧
    (∀ names : List String, names.Perm (mentionedNames (withLast bindings s)) →
      (replaceVariables bindings (withLast bindings s) names).map withConstants =
        .ok (simultaneous bindings s)) ∧
    substitute bindings (simultaneous bindings s) = .ok (simultaneous bindings s) := by
  refine ⟨substitute_eq_simultaneous h s, fun names hperm => replaceVariables_eq h hperm, ?_⟩
  have hagain : simultaneous bindings (simultaneous bindings s) = simultaneous bindings s := by
    rw [simultaneous, withLast_eq_self (at_not_mem_simultaneous bindings s)]
    exact flatMap_words_idem h (withLast bindings s)
  rw [substitute_eq_simultaneous h, hagain]

/-- A variable of the name `e`, and one whose name comes about when the last result is put in. -/
def captured : List (String × Json) :=
  [("@", .int 2), ("e", .float 1e21), ("x2", .float 0.5), ("é", .int 7)]

/-- The letter in the text of a number is no name, and neither is a part of a longer word. -/
theorem substitute_simultaneous_captured :
    (AllNumbers captured ∧ ["e", "pi", "x2"].Perm (mentionedNames "pi*e-x2+é+é2".toList)) ∧
    (substitute captured "pi*e-x@+é+é@".toList =
        .ok "3.141592653589793*1e+21-0.5+é+é2".toList ∧
      (replaceVariables captured "pi*e-x2+é+é2".toList ["e", "pi", "x2"]).map withConstants =
        .ok "3.141592653589793*1e+21-0.5+é+é2".toList ∧
      substitute captured "3.141592653589793*1e+21-0.5+é+é2".toList =
        .ok "3.141592653589793*1e+21-0.5+é+é2".toList) := by
  have hnumbers : AllNumbers captured := by
    intro name j hmem
    simp only [captured, List.mem_cons, Prod.mk.injEq, List.not_mem_nil, or_false] at hmem
    rcases hmem with ⟨-, rfl⟩ | ⟨-, rfl⟩ | ⟨-, rfl⟩ | ⟨-, rfl⟩ <;> rfl
  have hshown : simultaneous captured "pi*e-x@+é+é@".toList =
      "3.141592653589793*1e+21-0.5+é+é2".toList := by
    rfl
  have hlast : withLast captured "pi*e-x@+é+é@".toList = "pi*e-x2+é+é2".toList := by
    rfl
  have hperm : ["e", "pi", "x2"].Perm (mentionedNames "pi*e-x2+é+é2".toList) := by
    decide
  obtain ⟨honce, horder, htwice⟩ := substitute_simultaneous hnumbers "pi*e-x@+é+é@".toList
  rw [hshown] at honce horder htwice
  rw [hlast] at horder
  exact ⟨⟨hnumbers, hperm⟩, honce, horder _ hperm, htwice⟩

end Session
end DeskCalc
