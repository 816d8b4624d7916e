import DeskCalc.Proofs.Text.Run
import DeskCalc.Text.Shape

/-!
# What shapes read

`Fits x s a rest` says that the shape `x` may read `a` at the beginning of `s`, so that `rest` is
left.  For every way to put shapes together there is one lemma that tells when the whole fits.
-/

namespace DeskCalc.Text.Shape

variable {α β : Type} {x : Shape α} {s rest : Text} {a : α} {p : Char → Bool}

/-- One of the ways to read the shape yields `a` and leaves `rest`. -/
def Fits (x : Shape α) (s : Text) (a : α) (rest : Text) : Prop :=
  (a, rest) ∈ (x.ways s).toList

theorem fits_of_read? (h : x.read? s = some a) : ∃ rest, Fits x s a rest := by
  obtain ⟨r, hr, rfl⟩ := Option.map_eq_some_iff.mp h
  rw [Choices.first?_eq_head?] at hr
  exact ⟨r.2, List.mem_of_head? hr⟩

/-! ## Putting shapes together -/

theorem fits_pure {b : α} : Fits (pure b) s a rest ↔ a = b ∧ rest = s := by
  simp [Fits, pure]

theorem fits_bind {f : α → Shape β} {b : β} :
    Fits (x >>= f) s b rest ↔ ∃ a t, Fits x s a t ∧ Fits (f a) t b rest := by
  simp [Fits, bind]

theorem fits_orElse {y : Shape α} :
    Fits (x <|> y) s a rest ↔ Fits x s a rest ∨ Fits y s a rest := by
  simp [Fits, HOrElse.hOrElse, OrElse.orElse]

theorem fits_opt {o : Option α} :
    Fits (opt x) s o rest ↔ (∃ a, o = some a ∧ Fits x s a rest) ∨ o = none ∧ rest = s := by
  have hmap : (some <$> x) = x >>= fun a => pure (some a) := rfl
  rw [opt, fits_orElse, fits_pure, hmap, fits_bind]
  constructor
  · rintro (⟨a, t, hx, ha⟩ | h)
    · obtain ⟨rfl, rfl⟩ := fits_pure.mp ha
      exact .inl ⟨a, rfl, hx⟩
    · exact .inr h
  · rintro (⟨a, rfl, hx⟩ | h)
    · exact .inl ⟨a, rest, hx, fits_pure.mpr ⟨rfl, rfl⟩⟩
    · exact .inr h

/-! ## Characters and runs of them -/

theorem fits_one {c : Char} : Fits (one p) s c rest ↔ s = c :: rest ∧ p c = true := by
  cases s with
  | nil => simp [Fits, one]
  | cons d s =>
    cases hd : p d with
    | true =>
      simp only [Fits, one, hd, if_true, Choices.toList_one, List.mem_singleton, Prod.mk.injEq,
        List.cons.injEq]
      constructor
      · rintro ⟨rfl, rfl⟩
        exact ⟨⟨rfl, rfl⟩, hd⟩
      · rintro ⟨⟨rfl, rfl⟩, -⟩
        exact ⟨rfl, rfl⟩
    | false =>
      simp only [Fits, one, hd, Bool.false_eq_true, if_false, Choices.toList_none,
        List.not_mem_nil, List.cons.injEq, false_iff]
      rintro ⟨⟨rfl, rfl⟩, hc⟩
      rw [hd] at hc
      cases hc

theorem fits_char {c d : Char} : Fits (char c) s d rest ↔ s = c :: rest ∧ d = c := by
  rw [char, fits_one, beq_iff_eq]
  constructor
  · rintro ⟨rfl, rfl⟩
    exact ⟨rfl, rfl⟩
  · rintro ⟨rfl, rfl⟩
    exact ⟨rfl, rfl⟩

theorem fits_run {w : Text} :
    Fits (run p) s w rest ↔ w = s.takeWhile p ∧ rest = s.dropWhile p := by
  simp [Fits, run]

theorem fits_run1 {w : Text} :
    Fits (run1 p) s w rest ↔ w ≠ [] ∧ w = s.takeWhile p ∧ rest = s.dropWhile p := by
  simp only [Fits, run1]
  cases s.takeWhile p with
  | nil =>
    simp only [Choices.toList_none, List.not_mem_nil, false_iff]
    rintro ⟨hne, rfl, -⟩
    exact hne rfl
  | cons c t =>
    simp only [Choices.toList_one, List.mem_singleton, Prod.mk.injEq]
    constructor
    · rintro ⟨rfl, rfl⟩
      exact ⟨List.cons_ne_nil _ _, rfl, rfl⟩
    · rintro ⟨-, rfl, rfl⟩
      exact ⟨rfl, rfl⟩

theorem not_fits_run1 {w : Text} (h : StopsBefore p s) : ¬Fits (run1 p) s w rest := by
  intro hfits
  obtain ⟨hne, hw, -⟩ := fits_run1.mp hfits
  rw [takeWhile_of_stops h] at hw
  exact hne hw

theorem of_fits_run {w : Text} (h : Fits (run p) s w rest) :
    (∀ c ∈ w, p c = true) ∧ w ++ rest = s := by
  obtain ⟨rfl, rfl⟩ := fits_run.mp h
  exact ⟨fun c hc => List.mem_takeWhile_imp hc, List.takeWhile_append_dropWhile⟩

theorem of_fits_run1 {w : Text} (h : Fits (run1 p) s w rest) :
    w ≠ [] ∧ (∀ c ∈ w, p c = true) ∧ w ++ rest = s := by
  obtain ⟨hne, rfl, rfl⟩ := fits_run1.mp h
  exact ⟨hne, fun c hc => List.mem_takeWhile_imp hc, List.takeWhile_append_dropWhile⟩

theorem mem_backOff {taken tail w : Text} (h : (w, rest) ∈ (backOff taken tail).toList) :
    w ≠ [] ∧ (∀ c ∈ w, c ∈ taken) ∧ w ++ rest = taken.reverse ++ tail := by
  induction taken generalizing tail with
  | nil => cases h
  | cons c taken ih =>
    rw [backOff, Choices.toList_more, List.mem_cons] at h
    rcases h with h | h
    · cases h
      refine ⟨by simp, ?_, rfl⟩
      intro d hd
      exact List.mem_reverse.mp hd
    · obtain ⟨hne, hmem, happend⟩ := ih h
      refine ⟨hne, fun d hd => List.mem_cons_of_mem c (hmem d hd), ?_⟩
      rw [happend, List.reverse_cons, List.append_assoc, List.singleton_append]

theorem of_fits_many1 {w : Text} (h : Fits (many1 p) s w rest) :
    w ≠ [] ∧ (∀ c ∈ w, p c = true) ∧ w ++ rest = s := by
  obtain ⟨hne, hmem, happend⟩ := mem_backOff h
  refine ⟨hne, ?_, ?_⟩
  · intro c hc
    exact List.mem_takeWhile_imp (List.mem_reverse.mp (hmem c hc))
  · rw [happend, List.reverse_reverse, List.takeWhile_append_dropWhile]

theorem of_fits_many {w : Text} (h : Fits (many p) s w rest) :
    (∀ c ∈ w, p c = true) ∧ w ++ rest = s := by
  rcases fits_orElse.mp h with h | h
  · exact (of_fits_many1 h).2
  · obtain ⟨rfl, rfl⟩ := fits_pure.mp h
    exact ⟨nofun, rfl⟩

/-- A run is read whole where the text does not go on with another of its characters. -/
theorem fits_run_append {w : Text} (hw : ∀ c ∈ w, p c = true) (hrest : StopsBefore p rest) :
    Fits (run p) (w ++ rest) w rest :=
  fits_run.mpr ⟨(takeWhile_run hw hrest).symm, (dropWhile_run hw hrest).symm⟩

theorem fits_run1_append {w : Text} (hne : w ≠ []) (hw : ∀ c ∈ w, p c = true)
    (hrest : StopsBefore p rest) : Fits (run1 p) (w ++ rest) w rest :=
  fits_run1.mpr ⟨hne, (takeWhile_run hw hrest).symm, (dropWhile_run hw hrest).symm⟩

theorem mem_backOff_of {taken tail w u : Text} (hne : w ≠ []) (h : taken.reverse = w ++ u) :
    (w, u ++ tail) ∈ (backOff taken tail).toList := by
  induction taken generalizing tail u with
  | nil =>
    rw [List.reverse_nil] at h
    exact absurd (List.append_eq_nil_iff.mp h.symm).1 hne
  | cons c taken ih =>
    rw [backOff, Choices.toList_more, List.mem_cons]
    rw [List.reverse_cons] at h
    rcases List.eq_nil_or_concat u with rfl | ⟨v, d, rfl⟩
    · left
      rw [List.reverse_cons, h, List.append_nil, List.nil_append]
    · right
      rw [List.concat_eq_append, ← List.append_assoc] at h
      obtain ⟨htaken, hlast⟩ := List.append_inj' h rfl
      cases hlast
      rw [List.concat_eq_append, List.append_assoc]
      exact ih htaken

/-- A repetition can give back what follows it. -/
theorem fits_many1_append {w : Text} (hne : w ≠ []) (hw : ∀ c ∈ w, p c = true) (rest : Text) :
    Fits (many1 p) (w ++ rest) w rest := by
  have hmem := @mem_backOff_of (w ++ rest.takeWhile p).reverse (rest.dropWhile p) w
    (rest.takeWhile p) hne (List.reverse_reverse _)
  rw [List.takeWhile_append_dropWhile] at hmem
  simpa only [Fits, many1, List.takeWhile_append_of_pos hw, List.dropWhile_append_of_pos hw]
    using hmem

/-! ## Words -/

theorem of_fits_exactly {part w : Text} (h : Fits (exactly part) s w rest) :
    w = part ∧ part ++ rest = s := by
  simp only [Fits, exactly] at h
  split at h
  next hpart =>
    obtain ⟨t, rfl⟩ := List.isPrefixOf_iff_prefix.mp hpart
    rw [List.drop_left, Choices.toList_one, List.mem_singleton] at h
    cases h
    exact ⟨rfl, rfl⟩
  · cases h

theorem of_fits_word {v w : Text} (h : Fits (word v) s w rest) :
    sameLetters w v = true ∧ w ++ rest = s := by
  simp only [Fits, word] at h
  split at h
  next hsame =>
    rw [Choices.toList_one, List.mem_singleton] at h
    cases h
    exact ⟨hsame, List.take_append_drop _ _⟩
  · cases h

theorem fits_exactly_append (part rest : Text) : Fits (exactly part) (part ++ rest) part rest := by
  simp [Fits, exactly]

theorem length_of_sameLetters {v w : Text} (h : sameLetters w v = true) : w.length = v.length := by
  induction w generalizing v with
  | nil =>
    cases v with
    | nil => rfl
    | cons d v => cases h
  | cons c w ih =>
    cases v with
    | nil => cases h
    | cons d v =>
      rw [sameLetters, Bool.and_eq_true] at h
      rw [List.length_cons, List.length_cons, ih h.2]

theorem fits_word_append {v w : Text} (h : sameLetters w v = true) (rest : Text) :
    Fits (word v) (w ++ rest) w rest := by
  simp [Fits, word, ← length_of_sameLetters h, h]

theorem fits_anyWord {words : List Text} {w : Text} :
    Fits (anyWord words) s w rest ↔ ∃ v ∈ words, Fits (word v) s w rest := by
  induction words with
  | nil => simp [anyWord, Fits]
  | cons v words ih => simp [anyWord, fits_orElse, ih]

/-! ## Whether a shape fits -/

theorem fits_iff : x.fits s = true ↔ ∃ a rest, Fits x s a rest := by
  rw [fits, Choices.first?_eq_head?, List.isSome_head?]
  constructor
  · intro hne
    obtain ⟨r, hr⟩ := List.exists_mem_of_ne_nil _ hne
    exact ⟨r.1, r.2, hr⟩
  · rintro ⟨a, rest, hfits⟩
    exact List.ne_nil_of_mem hfits

theorem fitsWithin_iff : x.fitsWithin s = true ↔
    ∃ front behind, front ++ behind = s ∧ ∃ a rest, Fits x behind a rest := by
  induction s with
  | nil =>
    rw [fitsWithin, fits_iff]
    constructor
    · intro h
      exact ⟨[], [], rfl, h⟩
    · rintro ⟨front, behind, hsplit, h⟩
      rwa [(List.append_eq_nil_iff.mp hsplit).2] at h
  | cons c s ih =>
    rw [fitsWithin, Bool.or_eq_true, ih, fits_iff]
    constructor
    · rintro (h | ⟨front, behind, rfl, h⟩)
      · exact ⟨[], c :: s, rfl, h⟩
      · exact ⟨c :: front, behind, rfl, h⟩
    · rintro ⟨front, behind, hsplit, h⟩
      cases front with
      | nil =>
        left
        rwa [← hsplit]
      | cons d front =>
        cases hsplit
        exact .inr ⟨front, behind, rfl, h⟩

/-! ## The end of the text -/

theorem fits_atEnd {u : Unit} : Fits atEnd s u rest ↔ (s = [] ∨ s = ['\n']) ∧ rest = s := by
  simp only [Fits, atEnd]
  split
  next h =>
    simp only [Bool.or_eq_true, List.isEmpty_iff, beq_iff_eq] at h
    simp [h]
  next h =>
    simp only [Bool.or_eq_true, List.isEmpty_iff, beq_iff_eq] at h
    simp [h]

/-! ## Shapes that fit in one way -/

/-- There is exactly one way to read the shape: it yields `a` and leaves `rest`. -/
def FitsOnly (x : Shape α) (s : Text) (a : α) (rest : Text) : Prop :=
  (x.ways s).toList = [(a, rest)]

theorem FitsOnly.read? (h : FitsOnly x s a rest) : x.read? s = some a := by
  rw [Shape.read?, Choices.first?_eq_head?, h]
  rfl

theorem FitsOnly.fits_iff {b : α} {t : Text} (h : FitsOnly x s a rest) :
    Fits x s b t ↔ b = a ∧ t = rest := by
  rw [Fits, h, List.mem_singleton, Prod.mk.injEq]

theorem fitsOnly_pure (a : α) (s : Text) : FitsOnly (pure a) s a s :=
  rfl

theorem FitsOnly.bind {f : α → Shape β} {b : β} {t : Text} (h : FitsOnly x s a t)
    (hf : FitsOnly (f a) t b rest) : FitsOnly (x >>= f) s b rest := by
  have hways : ((x >>= f).ways s).toList =
      (x.ways s).toList.flatMap fun r => ((f r.1).ways r.2).toList := Choices.toList_bind _ _
  rw [FitsOnly, hways, h, List.flatMap_singleton]
  exact hf

theorem fitsOnly_char (c : Char) (rest : Text) : FitsOnly (char c) (c :: rest) c rest := by
  simp [FitsOnly, char, one]

theorem fitsOnly_run {w : Text} (hw : ∀ c ∈ w, p c = true) (hrest : StopsBefore p rest) :
    FitsOnly (run p) (w ++ rest) w rest := by
  simp only [FitsOnly, run, takeWhile_run hw hrest, dropWhile_run hw hrest, Choices.toList_one]

theorem fitsOnly_run1 {w : Text} (hne : w ≠ []) (hw : ∀ c ∈ w, p c = true)
    (hrest : StopsBefore p rest) : FitsOnly (run1 p) (w ++ rest) w rest := by
  obtain ⟨c, t, rfl⟩ := List.exists_cons_of_ne_nil hne
  simp only [FitsOnly, run1, takeWhile_run hw hrest, dropWhile_run hw hrest, Choices.toList_one]

theorem fitsOnly_atEnd (h : s = [] ∨ s = ['\n']) : FitsOnly atEnd s () s := by
  rcases h with rfl | rfl <;> rfl

/-! ## The preferred way to read -/

/-- The preferred way to read the shape yields `a` and leaves `rest`. -/
def FitsFirst (x : Shape α) (s : Text) (a : α) (rest : Text) : Prop :=
  (x.ways s).toList.head? = some (a, rest)

theorem FitsFirst.read? (h : FitsFirst x s a rest) : x.read? s = some a := by
  rw [Shape.read?, Choices.first?_eq_head?, h]
  rfl

theorem FitsOnly.fitsFirst (h : FitsOnly x s a rest) : FitsFirst x s a rest := by
  rw [FitsFirst, h]
  rfl

theorem FitsFirst.bind {f : α → Shape β} {b : β} {t : Text} (h : FitsFirst x s a t)
    (hf : FitsFirst (f a) t b rest) : FitsFirst (x >>= f) s b rest := by
  have hways : ((x >>= f).ways s).toList =
      (x.ways s).toList.flatMap fun r => ((f r.1).ways r.2).toList := Choices.toList_bind _ _
  obtain ⟨others, hothers⟩ := List.head?_eq_some_iff.mp h
  rw [FitsFirst, hways, hothers, List.flatMap_cons, List.head?_append]
  exact Option.or_of_isSome (Option.isSome_of_eq_some hf) |>.trans hf

theorem fitsFirst_opt (h : FitsFirst x s a rest) : FitsFirst (opt x) s (some a) rest := by
  have hsome : FitsFirst (some <$> x) s (some a) rest := h.bind (fitsOnly_pure _ _).fitsFirst
  rw [FitsFirst] at hsome ⊢
  simp [opt, HOrElse.hOrElse, OrElse.orElse, hsome]

theorem fitsOnly_opt_none (h : ∀ a rest, ¬Fits x s a rest) : FitsOnly (opt x) s none s := by
  have hnone : (x.ways s).toList = [] :=
    List.eq_nil_iff_forall_not_mem.mpr fun r hr => h r.1 r.2 hr
  have hsome : ((some <$> x).ways s).toList = [] := by
    have hways : ((some <$> x).ways s).toList =
      (x.ways s).toList.flatMap fun r => ((pure (some r.1) : Shape _).ways r.2).toList :=
        Choices.toList_bind _ _
    rw [hways, hnone, List.flatMap_nil]
  simp [FitsOnly, opt, HOrElse.hOrElse, OrElse.orElse, hsome, pure]

theorem read?_eq_none_iff : x.read? s = none ↔ ∀ a rest, ¬Fits x s a rest := by
  rw [Shape.read?, Option.map_eq_none_iff, Choices.first?_eq_head?, List.head?_eq_none_iff,
    List.eq_nil_iff_forall_not_mem]
  exact ⟨fun h a rest => h (a, rest), fun h r => h r.1 r.2⟩

/-- What can be read in one way only, as far as the result is concerned, is read. -/
theorem read?_of_unique (h : Fits x s a rest) (hunique : ∀ b t, Fits x s b t → b = a) :
    x.read? s = some a := by
  cases hread : x.read? s with
  | none => exact absurd h (read?_eq_none_iff.mp hread a rest)
  | some b =>
    obtain ⟨t, hfits⟩ := fits_of_read? hread
    rw [hunique b t hfits]

end DeskCalc.Text.Shape
