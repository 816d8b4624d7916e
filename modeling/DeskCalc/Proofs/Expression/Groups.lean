import DeskCalc.Proofs.Expression.Degrees
import DeskCalc.Proofs.Expression.Reading
import DeskCalc.Proofs.Text.Words

/-!
# Texts with groups put in

Constants and numbers of degrees are replaced in the text of an expression by groups in parentheses.
Behind a group an expression goes on with an operator or with another closing parenthesis, or it
ends.  So if an expression has come out of a name in this way, only one piece of the name has been
replaced, and the name ends with that piece.

`Grouped p s t` says that `t` comes out of `s` when some pieces are replaced, and `Closed` what an
expression keeps to behind its groups.
-/

namespace DeskCalc.Expression

open Text (StopsBefore NameSearch IsNamed takeWhile_run)

variable {table : FunctionTable} {level : Level} {e : Tree} {s t run rest : Text}

/-! ## Behind a group -/

/-- The characters that may follow a closing parenthesis in an expression. -/
def mayFollow (c : Char) : Bool :=
  ")+-*/^".toList.contains c

/-- No closing parenthesis is followed by anything else. -/
def Closed (s : Text) : Prop :=
  s.IsChain fun a b => a = ')' → mayFollow b = true

theorem Closed.append (hrest : Closed rest) (hrun : ')' ∉ run) : Closed (run ++ rest) := by
  induction run with
  | nil => exact hrest
  | cons c run ih =>
    refine List.isChain_cons.mpr ⟨fun d _ hc => ?_, ih fun h => hrun (List.mem_cons_of_mem c h)⟩
    rw [hc] at hrun
    exact absurd List.mem_cons_self hrun

theorem Closed.of_append (h : Closed (s ++ t)) : Closed s ∧ Closed t :=
  ⟨h.left_of_append, h.right_of_append⟩

theorem closed_parenthesis :
    Closed (')' :: s) ↔ (∀ c ∈ s.head?, mayFollow c = true) ∧ Closed s := by
  rw [Closed, List.isChain_cons]
  simp only [forall_const]
  rfl

theorem mayFollow_sign (o : Operator) (s : Text) :
    ')' ∉ o.sign ∧ ∀ c ∈ (o.sign ++ s).head?, mayFollow c = true := by
  cases o <;> exact ⟨by decide, by simp [Operator.sign]; decide⟩

/-- What a text derives keeps to the rule if what follows does. -/
theorem Derives.closed (h : Derives table level e s rest) (hrest : Closed rest)
    (hhead : ∀ c ∈ rest.head?, mayFollow c = true) : Closed s := by
  have hparenthesis {t : Text} (ht : Closed t) (hhead : ∀ c ∈ t.head?, mayFollow c = true) :
      Closed (')' :: t) ∧ ∀ c ∈ (')' :: t).head?, mayFollow c = true :=
    ⟨closed_parenthesis.mpr ⟨hhead, ht⟩, by simp; decide⟩
  have hcons {c : Char} {t : Text} (hc : ')' ∉ [c]) (ht : Closed t) : Closed (c :: t) :=
    ht.append hc
  induction h with
  | number hliteral =>
    obtain ⟨run, rfl, hrun⟩ := hliteral.exists_run
    exact hrest.append fun hmem => by cases hrun ')' hmem
  | group _ ih =>
    obtain ⟨hclosed, hnext⟩ := hparenthesis hrest hhead
    exact hcons (by decide) (ih hclosed hnext)
  | minus _ ih => exact hcons (by decide) (ih hrest hhead)
  | plus _ ih => exact hcons (by decide) (ih hrest hhead)
  | call _ hname _ _ ih =>
    obtain ⟨hclosed, hnext⟩ := hparenthesis hrest hhead
    refine Closed.append (hcons (by decide) (ih hclosed hnext)) fun hmem => ?_
    cases hname ')' hmem
  | operand _ ih => exact ih hrest hhead
  | @operation o _ _ _ t _ _ _ ihleft ihright =>
    obtain ⟨hsign, hnext⟩ := mayFollow_sign o t
    exact ihleft ((ihright hrest hhead).append hsign) hnext

/-! ## The beginning of an expression -/

/-- No expression begins with an underscore. -/
theorem Derives.stopsBefore (h : Derives table level e s rest) : StopsBefore (· == '_') s := by
  induction h with
  | number hliteral =>
    obtain ⟨c, t, rfl, hc⟩ := hliteral.head
    rw [Text.stopsBefore_cons, beq_eq_false_iff_ne]
    rintro rfl
    cases hc
  | @call name _ _ _ _ hne hname _ _ _ =>
    obtain ⟨c, t, rfl⟩ := List.exists_cons_of_ne_nil hne
    rw [List.cons_append, Text.stopsBefore_cons, beq_eq_false_iff_ne]
    rintro rfl
    cases hname '_' List.mem_cons_self
  | operand _ ih => exact ih
  | operation _ _ ih _ => exact ih
  | _ => rfl

/-- An expression that begins with a name begins with a call of a function. -/
theorem Derives.of_name {name : Text} (h : Derives table level e (name ++ s) rest)
    (hne : name ≠ []) (hname : ∀ c ∈ name, Text.isLetter c = true)
    (hs : StopsBefore Text.isLetter s) :
    ∃ f u argument t, table (name.map Char.toLower) = some f ∧ s = '(' :: u ∧
      Derives table .sum argument u (')' :: t) := by
  have hhead {c : Char} {u : Text} (hsplit : name ++ s = c :: u) : Text.isLetter c = true := by
    obtain ⟨d, ds, rfl⟩ := List.exists_cons_of_ne_nil hne
    cases hsplit
    exact hname c List.mem_cons_self
  generalize hsplit : name ++ s = whole at h
  induction h with
  | number hliteral =>
    obtain ⟨c, u, rfl, hc⟩ := hliteral.head
    have hletter := hhead hsplit
    rw [isLetter_of_isNumberChar hc] at hletter
    cases hletter
  | group _ _ => cases hhead hsplit
  | minus _ _ => cases hhead hsplit
  | plus _ _ => cases hhead hsplit
  | @call other f _ u t _ hother htable hderives _ =>
    have htake := takeWhile_run hname hs
    rw [hsplit, takeWhile_run hother (Text.stopsBefore_cons.mpr (by decide))] at htake
    subst htake
    exact ⟨f, u, _, t, htable, List.append_cancel_left hsplit, hderives⟩
  | operand _ ih => exact ih hsplit
  | operation _ _ ih _ => exact ih hsplit

theorem exists_mayFollow (o : Operator) (s : Text) :
    ∃ c ∈ (o.sign ++ s).head?, mayFollow c = true := by
  cases o <;> exact ⟨_, rfl, by decide⟩

/-- What begins with neither mark has no exponent at its beginning. -/
theorem not_exponent (hmark : StopsBefore (fun c => c == 'e' || c == 'E') s) {power : Int}
    {written after : Text} (hpower : Exponent power written) : s ≠ written ++ after := by
  rintro rfl
  obtain ⟨c, t, rfl, hc⟩ := hpower.head
  rw [List.cons_append, Text.stopsBefore_cons] at hmark
  rcases hc with rfl | rfl <;> cases hmark

section Behind

variable {body : Text} (hne : body ≠ []) (hbody : ∀ c ∈ body, isNumberChar c = true)
  (hs : StopsBefore isNumberChar s)
  (hnone : ∀ power written after, Exponent power written → s ≠ written ++ after)

include hne hbody

theorem isNumberChar_head {c : Char} {u : Text} (hsplit : body ++ s = c :: u) :
    isNumberChar c = true := by
  obtain ⟨d, ds, rfl⟩ := List.exists_cons_of_ne_nil hne
  cases hsplit
  exact hbody c List.mem_cons_self

include hs hnone

/-- What stands behind a number at the beginning of an expression is left over, or it goes on with an
operator. -/
theorem Derives.behind_number (h : Derives table level e (body ++ s) rest) :
    rest = s ∨ ∃ c ∈ s.head?, mayFollow c = true := by
  generalize hsplit : body ++ s = whole at h
  induction h with
  | number hliteral =>
    left
    have htail := Text.dropWhile_run hbody hs
    cases hliteral with
    | plain hrun hstop _ =>
      rw [hsplit, Text.dropWhile_run hrun.isNumberChar hstop] at htail
      exact htail
    | scientific hrun hpower _ =>
      rw [hsplit, Text.dropWhile_run hrun.isNumberChar (hpower.stops _).1] at htail
      exact absurd htail.symm (hnone _ _ _ hpower)
  | group _ _ => cases isNumberChar_head hne hbody hsplit
  | minus _ _ => cases isNumberChar_head hne hbody hsplit
  | plus _ _ => cases isNumberChar_head hne hbody hsplit
  | @call name _ _ _ _ hname hletters _ _ _ =>
    obtain ⟨c, name, rfl⟩ := List.exists_cons_of_ne_nil hname
    have hletter := isLetter_of_isNumberChar (isNumberChar_head hne hbody hsplit)
    rw [hletters c List.mem_cons_self] at hletter
    cases hletter
  | operand _ ih => exact ih hsplit
  | @operation o _ _ _ t _ _ _ ihleft _ =>
    right
    rcases ihleft hsplit with rfl | hnext
    · exact exists_mayFollow o t
    · exact hnext

/-- A zero divisor is met behind a number only if an operator follows the number. -/
theorem MeetsZero.behind_number {room : Nat} (h : MeetsZero table room level (body ++ s)) :
    ∃ c ∈ s.head?, mayFollow c = true := by
  have hbehind {o : Operator} {left : Tree} {t : Text}
      (hleft : Derives table o.level left (body ++ s) (o.sign ++ t)) :
      ∃ c ∈ s.head?, mayFollow c = true := by
    rcases hleft.behind_number hne hbody hs hnone with rfl | hnext
    · exact exists_mayFollow o t
    · exact hnext
  generalize hsplit : body ++ s = whole at h
  induction h with
  | divisor hleft => exact @hbehind .slash _ _ (hsplit ▸ hleft)
  | operand _ ih => exact ih hsplit
  | operation hleft => exact hbehind (hsplit ▸ hleft)
  | group _ => cases isNumberChar_head hne hbody hsplit
  | minus _ => cases isNumberChar_head hne hbody hsplit
  | plus _ => cases isNumberChar_head hne hbody hsplit
  | @call _ name _ hname hletters _ _ =>
    obtain ⟨c, name, rfl⟩ := List.exists_cons_of_ne_nil hname
    have hletter := isLetter_of_isNumberChar (isNumberChar_head hne hbody hsplit)
    rw [hletters c List.mem_cons_self] at hletter
    cases hletter

end Behind

/-! ## Putting groups in -/

/-- A text in which some pieces have been replaced by groups; `p` tells which pieces may be, and
what is then in the group. -/
inductive Grouped (p : Text → Text → Prop) : Text → Text → Prop
  | nil : Grouped p [] []
  | keep (c : Char) {s t : Text} : Grouped p s t → Grouped p (c :: s) (c :: t)
  | group {piece inside s t : Text} : p piece inside → Grouped p s t →
    Grouped p (piece ++ s) ('(' :: inside ++ ')' :: t)

/-- The pieces that are replaced end with a letter and have no parentheses. -/
structure Wordy (p : Text → Text → Prop) : Prop where
  letter : ∀ piece inside, p piece inside →
    ∃ w c, piece = w ++ [c] ∧ Text.isLetterAnyCase c = true
  closing : ∀ piece inside, p piece inside → ')' ∉ piece

namespace Grouped

variable {p : Text → Text → Prop}

theorem refl (p : Text → Text → Prop) (s : Text) : Grouped p s s := by
  induction s with
  | nil => exact .nil
  | cons c s ih => exact .keep c ih

theorem append (h : Grouped p s t) (run : Text) : Grouped p (run ++ s) (run ++ t) := by
  induction run with
  | nil => exact h
  | cons c run ih => exact .keep c ih

theorem head? (h : Grouped p s t) : t.head? = s.head? ∨ t.head? = some '(' := by
  cases h with
  | nil => exact .inl rfl
  | keep c _ => exact .inl rfl
  | group _ _ => exact .inr rfl

/-- What may follow a group has not been replaced. -/
theorem head?_eq (h : Grouped p s t) (hnext : ∀ c ∈ t.head?, mayFollow c = true) :
    t.head? = s.head? := by
  rcases h.head? with hsame | hopening
  · exact hsame
  · cases hnext '(' hopening

/-- Up to the first group, the beginning of the text that comes out is that of the text before. -/
theorem isPrefix (h : Grouped p s t) {w : Text} (hw : w <+: t) (hopening : '(' ∉ w) : w <+: s := by
  induction h generalizing w with
  | nil => exact hw
  | keep c _ ih =>
    rcases List.prefix_cons_iff.mp hw with rfl | ⟨v, rfl, hv⟩
    · exact List.nil_prefix
    · exact List.cons_prefix_cons.mpr ⟨rfl, ih hv fun hmem => hopening (List.mem_cons_of_mem c hmem)⟩
  | group _ _ _ =>
    rcases List.prefix_cons_iff.mp hw with rfl | ⟨v, rfl, -⟩
    · exact List.nil_prefix
    · exact absurd List.mem_cons_self hopening

/-- In front of a text, what no piece begins with is kept. -/
theorem of_append (h : Grouped p (run ++ s) t)
    (hrun : ∀ w, w <:+ run → w ≠ [] → ∀ piece inside after, p piece inside →
      w ++ s ≠ piece ++ after) : ∃ u, t = run ++ u ∧ Grouped p s u := by
  induction run generalizing t with
  | nil => exact ⟨t, rfl, h⟩
  | cons c run ih =>
    generalize hwhole : (c :: run) ++ s = whole at h
    cases h with
    | nil => cases hwhole
    | keep d h =>
      obtain ⟨rfl, rfl⟩ := List.cons.inj hwhole
      obtain ⟨u, rfl, hu⟩ := ih h fun w hw => hrun w (hw.trans (List.suffix_cons c run))
      exact ⟨u, rfl, hu⟩
    | group hpiece _ =>
      exact absurd hwhole (hrun (c :: run) List.suffix_rfl (List.cons_ne_nil c run) _ _ _ hpiece)

theorem eq_nil (hp : Wordy p) (h : Grouped p [] t) : t = [] := by
  generalize hs : ([] : Text) = s at h
  cases h with
  | nil => rfl
  | keep c _ => cases hs
  | @group piece inside _ _ hpiece _ =>
    obtain ⟨w, c, rfl, -⟩ := hp.letter piece inside hpiece
    simp at hs

/-- A property of characters that holds in a text and in the groups holds in what comes out. -/
theorem forall_mem {q : Char → Prop} (h : Grouped p s t) (hs : ∀ c ∈ s, q c)
    (hinside : ∀ piece inside, p piece inside → ∀ c ∈ inside, q c) (hopening : q '(')
    (hclosing : q ')') : ∀ c ∈ t, q c := by
  induction h with
  | nil => exact hs
  | keep c _ ih =>
    obtain ⟨hc, hrest⟩ := List.forall_mem_cons.mp hs
    exact List.forall_mem_cons.mpr ⟨hc, ih hrest⟩
  | group hpiece _ ih =>
    have hrest := ih (List.forall_mem_append.mp hs).2
    refine List.forall_mem_append.mpr ⟨?_, List.forall_mem_cons.mpr ⟨hclosing, hrest⟩⟩
    exact List.forall_mem_cons.mpr ⟨hopening, hinside _ _ hpiece⟩

theorem closed (hp : Wordy p) (h : Grouped p s t) (ht : Closed t) : Closed s := by
  induction h with
  | nil => exact ht
  | @keep c s t h ih =>
    obtain ⟨hnext, hrest⟩ := List.isChain_cons.mp ht
    refine List.isChain_cons.mpr ⟨fun d hd hc => ?_, ih hrest⟩
    have hfollow : ∀ d ∈ t.head?, mayFollow d = true := fun d hd => hnext d hd hc
    rw [← h.head?_eq hfollow] at hd
    exact hfollow d hd
  | group hpiece _ ih =>
    have hrest := (closed_parenthesis.mp ht.of_append.2).2
    exact (ih hrest).append (hp.closing _ _ hpiece)

/-- Behind the first group of a text that keeps to the rule, the text goes on as before with what
may follow a group. -/
theorem eq_or_group (h : Grouped p s t) (ht : Closed t) :
    t = s ∨ ∃ front piece inside behind after, s = front ++ (piece ++ behind) ∧
      t = front ++ ('(' :: inside ++ ')' :: after) ∧ p piece inside ∧ Grouped p behind after ∧
      ∀ c ∈ behind.head?, mayFollow c = true := by
  induction h with
  | nil => exact .inl rfl
  | @keep c s t h ih =>
    rcases ih (List.isChain_cons.mp ht).2 with rfl | ⟨front, piece, inside, behind, after, hs⟩
    · exact .inl rfl
    · obtain ⟨rfl, rfl, hrest⟩ := hs
      exact .inr ⟨c :: front, piece, inside, behind, after, rfl, rfl, hrest⟩
  | @group piece inside s t hpiece h _ =>
    obtain ⟨hnext, -⟩ := closed_parenthesis.mp ht.of_append.2
    refine .inr ⟨[], piece, inside, s, t, rfl, rfl, hpiece, h, ?_⟩
    rwa [← h.head?_eq hnext]

/-- In a text without operators and parentheses only a piece at the end has been replaced. -/
theorem eq_or_end (hp : Wordy p) (h : Grouped p s t) (ht : Closed t)
    (hs : ∀ c ∈ s, mayFollow c = false) :
    t = s ∨ ∃ front piece inside, s = front ++ piece ∧ t = front ++ ('(' :: inside ++ [')']) ∧
      p piece inside := by
  rcases h.eq_or_group ht with rfl | ⟨front, piece, inside, behind, after, rfl, rfl, hgroup⟩
  · exact .inl rfl
  · obtain ⟨hpiece, hbehind, hnext⟩ := hgroup
    cases behind with
    | nil =>
      rw [hbehind.eq_nil hp, List.append_nil]
      exact .inr ⟨front, piece, inside, rfl, rfl, hpiece⟩
    | cons c behind =>
      have hc := hs c (by simp)
      rw [hnext c rfl] at hc
      cases hc

/-! ### Texts in which nothing can be replaced -/

/-- Every letter is followed by something that may not follow a group. -/
def GoesOn : Text → Prop
  | [] => True
  | c :: s => (Text.isLetterAnyCase c = true → ∃ d ∈ s.head?, mayFollow d = false) ∧ GoesOn s

theorem GoesOn.append (hrest : GoesOn rest) (hhead : ∃ d ∈ rest.head?, mayFollow d = false)
    (hrun : ∀ c ∈ run, mayFollow c = false) : GoesOn (run ++ rest) := by
  induction run with
  | nil => exact hrest
  | cons c run ih =>
    have hrun' := fun d hd => hrun d (List.mem_cons_of_mem c hd)
    refine ⟨fun _ => ?_, ih hrun'⟩
    cases run with
    | nil => exact hhead
    | cons d run => exact ⟨d, rfl, hrun' d List.mem_cons_self⟩

theorem goesOn_of_no_letter (hs : ∀ c ∈ s, Text.isLetterAnyCase c = false) : GoesOn s := by
  induction s with
  | nil => trivial
  | cons c s ih =>
    refine ⟨fun hc => ?_, ih fun d hd => hs d (List.mem_cons_of_mem c hd)⟩
    rw [hs c List.mem_cons_self] at hc
    cases hc

theorem GoesOn.of_append (h : GoesOn (s ++ t)) : GoesOn t := by
  induction s with
  | nil => exact h
  | cons c s ih => exact ih h.2

theorem eq_self (hp : Wordy p) (h : Grouped p s t) (ht : Closed t) (hs : GoesOn s) : t = s := by
  rcases h.eq_or_group ht with rfl | ⟨front, piece, inside, behind, after, rfl, rfl, hgroup⟩
  · rfl
  · obtain ⟨hpiece, -, hnext⟩ := hgroup
    obtain ⟨w, c, rfl, hc⟩ := hp.letter piece inside hpiece
    rw [List.append_assoc] at hs
    obtain ⟨d, hd, hnot⟩ := hs.of_append.of_append.1 hc
    rw [hnext d hd] at hnot
    cases hnot

/-! ### A closing parenthesis at the end -/

theorem of_concat (hp : Wordy p) (h : Grouped p (s ++ [')']) t) :
    ∃ u, t = u ++ [')'] ∧ Grouped p s u := by
  generalize hs : s ++ [')'] = whole at h
  induction h generalizing s with
  | nil => simp at hs
  | @keep c whole t h ih =>
    cases s with
    | nil =>
      cases hs
      exact ⟨[], by rw [h.eq_nil hp]; rfl, .nil⟩
    | cons d s =>
      obtain ⟨rfl, hrest⟩ := List.cons.inj hs
      obtain ⟨u, rfl, hu⟩ := ih hrest
      exact ⟨d :: u, rfl, .keep d hu⟩
  | @group piece inside whole t hpiece h ih =>
    obtain ⟨rest, rfl, hrest⟩ : ∃ rest, s = piece ++ rest ∧ rest ++ [')'] = whole := by
      rcases List.append_eq_append_iff.mp hs with ⟨rest, hsplit, hrest⟩ | ⟨rest, hsplit, hrest⟩
      · cases rest with
        | nil => exact ⟨[], by rw [hsplit, List.append_nil, List.append_nil], hrest⟩
        | cons c rest =>
          obtain ⟨rfl, -⟩ := List.cons.inj hrest
          exact absurd (by simp [hsplit]) (hp.closing piece inside hpiece)
      · exact ⟨rest, hsplit, hrest.symm⟩
    obtain ⟨u, rfl, hu⟩ := ih hrest
    exact ⟨'(' :: inside ++ ')' :: u, by simp, .group hpiece hu⟩

end Grouped

/-! ## What is replaced -/

/-- The pieces that are a name. -/
def Names (anyCase : Bool) (name inside piece group : Text) : Prop :=
  IsNamed anyCase piece name ∧ group = inside

theorem grouped_replaceFrom {n : NameSearch} (hne : n.name ≠ []) (inside s : Text)
    (before : Option Char) (skip : Nat) :
    Grouped (Names n.anyCase n.name inside) (s.drop skip)
      (n.replaceFrom ('(' :: inside ++ [')']) before skip s) := by
  induction s generalizing before skip with
  | nil =>
    rw [List.drop_nil]
    exact .nil
  | cons c s ih =>
    rw [NameSearch.replaceFrom]
    split
    next hskip =>
      obtain ⟨k, rfl⟩ : ∃ k, skip = k + 1 := ⟨skip - 1, by omega⟩
      exact ih _ _
    next hskip =>
      obtain rfl : skip = 0 := by omega
      split
      next hstands =>
        obtain ⟨k, hk⟩ : ∃ k, n.name.length = k + 1 :=
          ⟨n.name.length - 1, by have := List.length_pos_iff.mpr hne; omega⟩
        have hpiece : IsNamed n.anyCase ((c :: s).take (k + 1)) n.name := by
          rw [NameSearch.standsAt, Bool.and_eq_true, hk] at hstands
          exact hstands.1
        have hsplit : List.drop 0 (c :: s) = (c :: s).take (k + 1) ++ s.drop k :=
          (List.take_append_drop (k + 1) (c :: s)).symm
        rw [hsplit, hk, Nat.add_sub_cancel, List.append_assoc]
        exact .group ⟨hpiece, rfl⟩ (ih _ _)
      · exact .keep c (ih _ 0)

theorem grouped_replace {n : NameSearch} (hne : n.name ≠ []) (inside s : Text) :
    Grouped (Names n.anyCase n.name inside) s (n.replace ('(' :: inside ++ [')']) s) :=
  grouped_replaceFrom hne inside s none 0

theorem exists_last_of_sameLetters {w : Text} {c : Char} (h : Text.sameLetters s (w ++ [c]) = true) :
    ∃ v d, s = v ++ [d] ∧ Text.sameLetter d c = true := by
  induction w generalizing s with
  | nil =>
    obtain ⟨d, rfl⟩ := List.length_eq_one_iff.mp (Text.Shape.length_of_sameLetters h)
    exact ⟨[], d, rfl, (Bool.and_eq_true _ _ ▸ h).1⟩
  | cons b w ih =>
    cases s with
    | nil => cases h
    | cons a s =>
      obtain ⟨v, d, rfl, hd⟩ := ih (Bool.and_eq_true _ _ ▸ h).2
      exact ⟨a :: v, d, rfl, hd⟩

theorem wordy_names {w inside : Text} {c : Char} (hc : Text.isLetterAnyCase c = true)
    (hword : ∀ d ∈ w ++ [c], Text.isWord d = true) : Wordy (Names true (w ++ [c]) inside) where
  letter := by
    rintro piece _ ⟨hnamed, -⟩
    obtain ⟨v, d, rfl, hd⟩ := exists_last_of_sameLetters hnamed
    refine ⟨v, d, rfl, ?_⟩
    rw [Text.sameLetter, beq_iff_eq] at hd
    rwa [Text.isLetterAnyCase, hd]
  closing := by
    rintro piece _ ⟨hnamed, -⟩ hmem
    cases hnamed.areWord hword ')' hmem

/-- The words for degrees. -/
def degreeWords : List Text :=
  ["degrees".toList, "degree".toList]

/-- The pieces that are a number of degrees. -/
def Angles (piece _group : Text) : Prop :=
  ∃ digits fraction word, piece = digits ++ (fraction ++ word) ∧ digits ≠ [] ∧
    (∀ c ∈ digits, Text.isDigit c = true) ∧
    (fraction = [] ∨ ∃ ds, fraction = '.' :: ds ∧ ∀ c ∈ ds, Text.isDigit c = true) ∧
    word ∈ degreeWords

theorem wordy_angles : Wordy Angles where
  letter := by
    rintro piece _ ⟨digits, fraction, word, rfl, -, -, -, hword⟩
    have hlast : ∃ w c, word = w ++ [c] ∧ Text.isLetterAnyCase c = true := by
      simp only [degreeWords, List.mem_cons, List.not_mem_nil, or_false] at hword
      rcases hword with rfl | rfl
      · exact ⟨"degree".toList, 's', rfl, by decide⟩
      · exact ⟨"degre".toList, 'e', rfl, by decide⟩
    obtain ⟨w, c, rfl, hc⟩ := hlast
    exact ⟨digits ++ (fraction ++ w), c, by simp, hc⟩
  closing := by
    rintro piece _ ⟨digits, fraction, word, rfl, -, hdigits, hfraction, hword⟩ hmem
    have hdigit : Text.isDigit ')' = false := by decide
    rcases List.mem_append.mp hmem with hmem | hmem
    · rw [hdigits ')' hmem] at hdigit
      cases hdigit
    · rcases List.mem_append.mp hmem with hmem | hmem
      · rcases hfraction with rfl | ⟨ds, rfl, hds⟩
        · cases hmem
        · have hpoint : ')' ≠ '.' := by decide
          rw [hds ')' ((List.mem_cons.mp hmem).resolve_left hpoint)] at hdigit
          cases hdigit
      · simp only [degreeWords, List.mem_cons, List.not_mem_nil, or_false] at hword
        rcases hword with rfl | rfl
        · exact absurd hmem (by decide)
        · exact absurd hmem (by decide)

theorem of_afterDegrees? (h : afterDegrees? s = some rest) :
    ∃ word ∈ degreeWords, s = word ++ rest := by
  have hprefix {word : Text} (hword : word.isPrefixOf s = true) :
      s = word ++ s.drop word.length := by
    obtain ⟨t, rfl⟩ := List.isPrefixOf_iff_prefix.mp hword
    rw [List.drop_left]
  rw [afterDegrees?] at h
  split at h
  next hword =>
    cases h
    exact ⟨_, List.mem_cons_self, hprefix hword⟩
  · split at h
    next hword =>
      cases h
      exact ⟨_, List.mem_cons_of_mem _ List.mem_cons_self, hprefix hword⟩
    · cases h

theorem of_fractionAndDegrees? {fraction : Text}
    (h : fractionAndDegrees? s = some (fraction, rest)) :
    (fraction = [] ∨ ∃ ds, fraction = '.' :: ds ∧ ∀ c ∈ ds, Text.isDigit c = true) ∧
      ∃ word ∈ degreeWords, s = fraction ++ (word ++ rest) := by
  unfold fractionAndDegrees? at h
  split at h
  next hafter =>
    cases h
    exact ⟨.inl rfl, of_afterDegrees? hafter⟩
  · split at h
    · simp only at h
      split at h
      · cases h
      · obtain ⟨after, hafter, heq⟩ := Option.map_eq_some_iff.mp h
        cases heq
        obtain ⟨word, hword, hsplit⟩ := of_afterDegrees? hafter
        refine ⟨.inr ⟨_, rfl, fun c hc => List.mem_takeWhile_imp hc⟩, word, hword, ?_⟩
        rw [List.cons_append, ← hsplit, List.takeWhile_append_dropWhile]
    · cases h

theorem grouped_replaceDegrees (fuel : Nat) (s : Text) :
    Grouped Angles s (replaceDegrees fuel s) := by
  induction fuel generalizing s with
  | zero => exact .refl _ s
  | succ fuel ih =>
    cases s with
    | nil => exact .nil
    | cons c s =>
      rw [replaceDegrees]
      split
      next hc =>
        have hsplit : c :: s = (c :: s.takeWhile Text.isDigit) ++ s.dropWhile Text.isDigit := by
          rw [List.cons_append, List.takeWhile_append_dropWhile]
        have hrun : ∀ d ∈ c :: s.takeWhile Text.isDigit, Text.isDigit d = true :=
          List.forall_mem_cons.mpr ⟨hc, fun d hd => List.mem_takeWhile_imp hd⟩
        dsimp only
        split
        next fraction after hfound =>
          obtain ⟨hfraction, word, hword, hafter⟩ := of_fractionAndDegrees? hfound
          let digits := c :: s.takeWhile Text.isDigit
          let inside := digits ++ (fraction ++ '*' :: degreeText)
          have hpiece : Angles (digits ++ (fraction ++ word)) inside :=
            ⟨digits, fraction, word, rfl, List.cons_ne_nil _ _, hrun, hfraction, hword⟩
          have hgrouped := Grouped.group hpiece (ih after)
          have hbefore : c :: s = digits ++ (fraction ++ word) ++ after := by
            rw [hsplit, hafter, List.append_assoc, List.append_assoc]
          rw [hbefore]
          simpa [digits, inside] using hgrouped
        · rw [hsplit]
          exact (ih _).append _
      · exact .keep c (ih s)

/-- In front of a text without digits nothing is looked for. -/
theorem replaceDegrees_append (hrun : ∀ c ∈ run, Text.isDigit c = false) (fuel : Nat) (s : Text) :
    replaceDegrees (run.length + fuel) (run ++ s) = run ++ replaceDegrees fuel s := by
  induction run with
  | nil => rw [List.length_nil, Nat.zero_add, List.nil_append, List.nil_append]
  | cons c run ih =>
    have hc := hrun c List.mem_cons_self
    rw [List.length_cons, Nat.add_right_comm, List.cons_append, replaceDegrees, hc,
      if_neg Bool.false_ne_true, ih fun d hd => hrun d (List.mem_cons_of_mem c hd)]
    rfl

end DeskCalc.Expression
