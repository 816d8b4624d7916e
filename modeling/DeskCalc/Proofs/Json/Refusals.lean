import DeskCalc.Proofs.Json.Readable

/-!
# Texts that break reading off

A text that has the form of a document may still be refused.  This has its reason in the text: there
are more digits side by side than are read as an integer, or more lists and objects are opened than
may be nested.  A text without either is read, or it only has the form of no document.
-/

namespace DeskCalc

namespace Text

theorem Passes.isSuffix {s rest : Text} (h : Passes s rest) : rest <:+ s := by
  obtain ⟨w, rfl, -⟩ := h
  exact List.suffix_append w rest

variable {c : Char} {part s : List Char}

theorem ofChars_mark_cons (s : List Char) : ofChars (mark :: s) = mark :: mark :: ofChars s := by
  rw [ofChars, List.map_cons, ofCodes_cons, mark_toNat]
  rfl

theorem ofChars_cons_of_ne (hc : c ≠ mark) (s : List Char) : ofChars (c :: s) = c :: ofChars s := by
  rw [ofChars, List.map_cons, ofCodes_cons, ofCode_toNat hc]
  rfl

theorem prefix_of_ofChars (hpart : mark ∉ part) (h : part <+: ofChars s) : part <+: s := by
  induction s generalizing part with
  | nil => exact h
  | cons c s ih =>
    cases part with
    | nil => exact List.nil_prefix
    | cons d part =>
      rw [List.mem_cons, not_or] at hpart
      by_cases hc : c = mark
      · rw [hc, ofChars_mark_cons, List.cons_prefix_cons] at h
        exact absurd h.1.symm hpart.1
      · rw [ofChars_cons_of_ne hc, List.cons_prefix_cons] at h
        exact List.cons_prefix_cons.mpr ⟨h.1, ih hpart.2 h.2⟩

/-- What stands side by side in the text of some characters stands so among the characters, unless
it has a mark. -/
theorem infix_of_ofChars (hpart : mark ∉ part) (h : part <:+: ofChars s) : part <:+: s := by
  induction s with
  | nil => exact h
  | cons c s ih =>
    by_cases hc : c = mark
    · rw [hc, ofChars_mark_cons, List.infix_cons_iff, List.infix_cons_iff] at h
      -- A part that begins with a mark has one.
      have hnil {rest : Text} (hstart : part <+: mark :: rest) : part = [] := by
        cases part with
        | nil => rfl
        | cons d part =>
          rw [List.cons_prefix_cons] at hstart
          exact absurd (hstart.1 ▸ List.mem_cons_self) hpart
      rcases h with hstart | hstart | hinfix
      · exact hnil hstart ▸ List.nil_infix
      · exact hnil hstart ▸ List.nil_infix
      · exact (ih hinfix).trans (List.suffix_cons c s).isInfix
    · have hsplit := h
      rw [ofChars_cons_of_ne hc, List.infix_cons_iff] at hsplit
      rcases hsplit with hstart | hinfix
      · rw [← ofChars_cons_of_ne hc] at hstart
        exact (prefix_of_ofChars hpart hstart).isInfix
      · exact (ih hinfix).trans (List.suffix_cons c s).isInfix

theorem countP_ofChars {p : Char → Bool} (hp : p mark = false) (s : List Char) :
    (ofChars s).countP p = s.countP p := by
  have hmark : ¬p mark = true := Bool.eq_false_iff.mp hp
  induction s with
  | nil => rfl
  | cons c s ih =>
    by_cases hc : c = mark
    · subst hc
      rw [ofChars_mark_cons, List.countP_cons_of_neg hmark, List.countP_cons_of_neg hmark,
        List.countP_cons_of_neg hmark, ih]
    · rw [ofChars_cons_of_ne hc, List.countP_cons, List.countP_cons, ih]

end Text

namespace Json

open Number (digitLimit)

/-! ## Reasons -/

/-- A text with more digits side by side than are read. -/
def HasLongDigits (s : Text) : Prop :=
  ∃ digits, digits <:+: s ∧ (∀ c ∈ digits, c.isDigit = true) ∧ digitLimit < digits.length

/-- Whether a character opens a list or an object. -/
def isOpening (c : Char) : Bool :=
  c == '[' || c == '\x7b'

/-- The reason that a text gives for an error, if lists and objects may be nested in `room`
levels. -/
def Justifies (room : Nat) (s : Text) : ReadError → Prop
  | .malformed => True
  | .tooLong => HasLongDigits s
  | .tooDeep => room < s.countP isOpening

variable {α β : Type} {room : Nat} {s t : Text} {e : ReadError}

theorem Justifies.of_suffix (h : Justifies room t e) (ht : t <:+ s) : Justifies room s e := by
  cases e with
  | malformed => trivial
  | tooLong =>
    obtain ⟨digits, hinfix, hdigits⟩ := h
    exact ⟨digits, hinfix.trans ht.isInfix, hdigits⟩
  | tooDeep => exact lt_of_lt_of_le h (ht.sublist.countP_le)

/-- Behind an opening character there is room for one level less. -/
theorem Justifies.of_opening {c : Char} (h : Justifies room t e) (ht : t <:+ s)
    (hc : isOpening c = true) : Justifies (room + 1) (c :: s) e := by
  cases e with
  | malformed => trivial
  | tooLong => exact h.of_suffix (ht.trans (List.suffix_cons c s))
  | tooDeep =>
    have hle : t.countP isOpening ≤ s.countP isOpening := ht.sublist.countP_le
    have hlt : room < t.countP isOpening := h
    simp only [Justifies, List.countP_cons_of_pos hc]
    omega

theorem justifies_tooDeep {c : Char} (hc : isOpening c = true) :
    Justifies 0 (c :: s) .tooDeep := by
  simp only [Justifies, List.countP_cons_of_pos hc]
  exact Nat.succ_pos _

/-- Reading a text leaves an end of it, or the text gives a reason against it. -/
inductive Reads (room : Nat) (s : Text) : Except ReadError (α × Text) → Prop
  | ok (a : α) {rest : Text} (h : rest <:+ s) : Reads room s (.ok (a, rest))
  | error {e : ReadError} (h : Justifies room s e) : Reads room s (.error e)

theorem reads_malformed (room : Nat) (s : Text) :
    Reads room s (.error .malformed : Except ReadError (α × Text)) :=
  .error trivial

variable {r : Except ReadError (α × Text)}

theorem Reads.of_suffix (h : Reads room t r) (ht : t <:+ s) : Reads room s r := by
  cases h with
  | ok a h => exact .ok a (h.trans ht)
  | error h => exact .error (h.of_suffix ht)

theorem Reads.of_opening {c : Char} (h : Reads room t r) (ht : t <:+ s)
    (hc : isOpening c = true) : Reads (room + 1) (c :: s) r := by
  cases h with
  | ok a h => exact .ok a (h.trans (ht.trans (List.suffix_cons c s)))
  | error h => exact .error (h.of_opening ht hc)

theorem Reads.map {f : α × Text → β × Text} (h : Reads room s r)
    (hf : ∀ a rest, (f (a, rest)).2 = rest) : Reads room s (r.map f) := by
  cases h with
  | error h => exact .error h
  | @ok a rest h =>
    have heq : f (a, rest) = ((f (a, rest)).1, rest) := Prod.ext rfl (hf a rest)
    rw [Except.map, heq]
    exact .ok _ h

theorem Reads.bind {f : α × Text → Except ReadError (β × Text)} (h : Reads room s r)
    (hf : ∀ a rest, rest <:+ s → Reads room s (f (a, rest))) : Reads room s (r >>= f) := by
  cases h with
  | error h => exact .error h
  | ok a h => exact hf a _ h

theorem skipSpace_suffix (s : Text) : skipSpace s <:+ s :=
  List.dropWhile_suffix _

/-! ## Strings and atoms -/

theorem reads_stringBody (fuel room : Nat) (s : Text) : Reads room s (readStringBody fuel s) := by
  induction fuel generalizing s with
  | zero => exact reads_malformed room s
  | succ fuel ih =>
    cases s with
    | nil => exact reads_malformed room []
    | cons c rest =>
      have hrest : rest <:+ c :: rest := List.suffix_cons c rest
      unfold readStringBody
      split
      · exact .ok [] hrest
      · split
        · split
          next more =>
            split
            next n after hhex =>
              obtain ⟨sign, tail, hpair⟩ : ∃ sign tail, pairUp n after = (sign, tail) :=
                ⟨_, _, rfl⟩
              have hmore : more <:+ c :: 'u' :: more := (List.suffix_cons 'u' more).trans hrest
              have htail : tail <:+ more :=
                ((of_readHex? hhex).2.trans (passes_pairUp hpair)).isSuffix
              rw [hpair]
              exact ((ih tail).of_suffix (htail.trans hmore)).map fun _ _ => rfl
            · exact reads_malformed room _
          next escape more _ =>
            split
            · exact ((ih more).of_suffix ((List.suffix_cons escape more).trans hrest)).map
                fun _ _ => rfl
            · exact reads_malformed room _
          · exact reads_malformed room _
        · split
          · exact reads_malformed room _
          · exact ((ih rest).of_suffix hrest).map fun _ _ => rfl

theorem reads_string (room : Nat) (s : Text) : Reads room s (readString s) :=
  (reads_stringBody _ room s).map fun _ _ => rfl

theorem readWhole?_isPrefix {digits rest : Text} (h : readWhole? s = some (digits, rest)) :
    digits <+: s := by
  unfold readWhole? at h
  split at h
  · cases h
    exact ⟨rest, rfl⟩
  · split at h
    · cases h
    · cases h
      exact List.takeWhile_prefix _

/-- An integer is refused only if its digits are too many. -/
theorem reads_magnitude (negative : Bool) (room : Nat) (s : Text) :
    Reads room s (readMagnitude negative s) := by
  cases hread : readMagnitude negative s with
  | ok found =>
    obtain ⟨j, rest⟩ := found
    obtain ⟨-, hpass⟩ : Storable 0 j ∧ Text.Passes s rest := readMagnitude_storable hread
    exact .ok j hpass.isSuffix
  | error e =>
    apply Reads.error
    unfold readMagnitude at hread
    split at hread
    · cases hread
      trivial
    next whole rest hwhole =>
      simp only at hread
      split at hread
      · split at hread
        · cases hread
        next hlong =>
          cases hread
          refine ⟨whole, ?_, (of_readWhole? hwhole).2, ?_⟩
          · exact (readWhole?_isPrefix hwhole).isInfix
          · by_contra hle
            rw [Number.readNat?, if_neg hle] at hlong
            cases hlong
      · cases hread

theorem reads_atom (room : Nat) (s : Text) : Reads room s (readAtom s) := by
  cases hread : readAtom s with
  | ok found =>
    obtain ⟨j, rest⟩ := found
    obtain ⟨-, hpass⟩ : Storable 0 j ∧ Text.Passes s rest := readAtom_storable hread
    exact .ok j hpass.isSuffix
  | error e =>
    rw [← hread]
    unfold readAtom at hread ⊢
    split
    next w j hword =>
      simp only [hword] at hread
      cases hread
    · split
      next rest _ => exact (reads_magnitude true room rest).of_suffix (List.suffix_cons '-' rest)
      · exact reads_magnitude false room s

/-! ## Documents -/

/-- What one more step of reading does. -/
structure ReadsAll (fuel : Nat) : Prop where
  value : ∀ room s, Reads room s (readValue fuel room s)
  items : ∀ room s, Reads room s (readItems fuel room s)
  members : ∀ room given s, Reads room s (readMembers fuel room given s)

theorem readsAll_zero : ReadsAll 0 where
  value room s := reads_malformed room s
  items room s := reads_malformed room s
  members room _ s := reads_malformed room s

section Steps

variable {fuel : Nat}

theorem reads_value (ih : ReadsAll fuel) (room : Nat) (s : Text) :
    Reads room s (readValue (fuel + 1) room s) := by
  cases s with
  | nil => exact reads_malformed room []
  | cons c rest =>
    have hrest : rest <:+ c :: rest := List.suffix_cons c rest
    have hskip : skipSpace rest <:+ rest := skipSpace_suffix rest
    rw [readValue]
    split
    · exact ((reads_string room rest).of_suffix hrest).map fun _ _ => rfl
    · split
      next hopen =>
        subst hopen
        split
        next hroom =>
          subst hroom
          exact .error (justifies_tooDeep rfl)
        next hroom =>
          obtain ⟨n, rfl⟩ : ∃ n, room = n + 1 := ⟨room - 1, by omega⟩
          split
          next after heq =>
            rw [heq] at hskip
            exact .ok _ (((List.suffix_cons _ after).trans hskip).trans hrest)
          · exact (((ih.items n _).of_opening hskip rfl)).map fun _ _ => rfl
      · split
        next hopen =>
          subst hopen
          split
          next hroom =>
            subst hroom
            exact .error (justifies_tooDeep rfl)
          next hroom =>
            obtain ⟨n, rfl⟩ : ∃ n, room = n + 1 := ⟨room - 1, by omega⟩
            split
            next after heq =>
              rw [heq] at hskip
              exact .ok _ (((List.suffix_cons _ after).trans hskip).trans hrest)
            · exact (((ih.members n [] _).of_opening hskip rfl)).map fun _ _ => rfl
        · exact reads_atom room _

theorem reads_items (ih : ReadsAll fuel) (room : Nat) (s : Text) :
    Reads room s (readItems (fuel + 1) room s) := by
  rw [readItems]
  apply (ih.value room s).bind
  intro item rest hrest
  have hskip : skipSpace rest <:+ s := (skipSpace_suffix rest).trans hrest
  simp only
  split
  next after heq =>
    rw [heq] at hskip
    have hafter := ((skipSpace_suffix after).trans (List.suffix_cons ',' after)).trans hskip
    exact ((ih.items room _).of_suffix hafter).map fun _ _ => rfl
  next after heq =>
    rw [heq] at hskip
    exact .ok _ ((List.suffix_cons ']' after).trans hskip)
  · exact reads_malformed room s

theorem reads_members (ih : ReadsAll fuel) (room : Nat) (given : List (String × Json)) (s : Text) :
    Reads room s (readMembers (fuel + 1) room given s) := by
  unfold readMembers
  split
  next rest =>
    apply ((reads_string room rest).of_suffix (List.suffix_cons '"' rest)).bind
    intro name behind hbehind
    have hskip := (skipSpace_suffix behind).trans hbehind
    simp only
    split
    next first heq =>
      rw [heq] at hskip
      have hfirst := ((skipSpace_suffix first).trans (List.suffix_cons ':' first)).trans hskip
      apply ((ih.value room _).of_suffix hfirst).bind
      intro value behind hbehind
      have hskip := (skipSpace_suffix behind).trans hbehind
      simp only
      split
      next after heq =>
        rw [heq] at hskip
        have hafter := ((skipSpace_suffix after).trans (List.suffix_cons ',' after)).trans hskip
        exact (ih.members room _ _).of_suffix hafter
      next after heq =>
        rw [heq] at hskip
        exact .ok _ ((List.suffix_cons _ after).trans hskip)
      · exact reads_malformed room _
    · exact reads_malformed room _
  · exact reads_malformed room s

end Steps

theorem readsAll (fuel : Nat) : ReadsAll fuel := by
  induction fuel with
  | zero => exact readsAll_zero
  | succ fuel ih => exact ⟨reads_value ih, reads_items ih, reads_members ih⟩

/-- A text that is refused has a reason for it. -/
theorem justifies_of_read (h : read s = .error e) : Justifies nestingRoom s e := by
  have hreads : Reads nestingRoom s (readValue (s.length + 1) nestingRoom (skipSpace s)) :=
    ((readsAll _).value nestingRoom _).of_suffix (skipSpace_suffix s)
  rw [read] at h
  generalize readValue (s.length + 1) nestingRoom (skipSpace s) = found at h hreads
  cases hreads with
  | error hjustified =>
    cases h
    exact hjustified
  | @ok j rest _ =>
    simp only [bind, Except.bind] at h
    split at h
    · cases h
    · cases h
      trivial

/-- A row of characters that is refused has the reason for it among its characters. -/
theorem justifies_of_read_ofChars {s : List Char} (h : read (Text.ofChars s) = .error e) :
    Justifies nestingRoom s e := by
  have hjustified := justifies_of_read h
  cases e with
  | malformed => trivial
  | tooLong =>
    obtain ⟨digits, hinfix, hdigits, hlength⟩ := hjustified
    have hmark : Text.mark ∉ digits := by
      intro hmem
      exact absurd (hdigits _ hmem) (by decide)
    exact ⟨digits, Text.infix_of_ofChars hmark hinfix, hdigits, hlength⟩
  | tooDeep =>
    have hcount := Text.countP_ofChars (p := isOpening) (by decide) s
    rwa [Justifies, hcount] at hjustified

end Json
end DeskCalc
