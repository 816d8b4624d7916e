import DeskCalc.Proofs.Number.Numeral

/-!
# The number at the beginning of a text

Readers that take the number at the beginning of a text leave it to the text where the number ends:
an exponent without digits, a second point or a name that only begins like infinity's is not part of
it.  What is read is the longest beginning that is a literal, and nothing is read only where no
beginning is one.

The main definitions are `IsLiteral` and `IsLongestLiteral`.
-/

namespace DeskCalc.Number

open Text (StopsBefore digitsValue)

/-! ## Numerals as they are written -/

/-- Decimal digits, of any script. -/
def AreDecimals (s : Text) : Prop :=
  ∀ c ∈ s, Text.isDigit c = true

/-- Digits, perhaps with a point before, between or behind them. -/
inductive Mantissa : Text → Text → Text → Prop where
  | whole {whole : Text} : whole ≠ [] → AreDecimals whole → Mantissa whole [] whole
  | pointed {whole fraction : Text} : whole ≠ [] ∨ fraction ≠ [] → AreDecimals whole →
    AreDecimals fraction → Mantissa whole fraction (whole ++ '.' :: fraction)

/-- An exponent and its power of ten.  It is missing as a whole or has digits. -/
inductive Exponent : ℤ → Text → Prop where
  | missing : Exponent 0 []
  | bare {mark : Char} {digits : Text} : mark = 'e' ∨ mark = 'E' → digits ≠ [] →
    AreDecimals digits → Exponent (digitsValue digits) (mark :: digits)
  | plus {mark : Char} {digits : Text} : mark = 'e' ∨ mark = 'E' → digits ≠ [] →
    AreDecimals digits → Exponent (digitsValue digits) (mark :: '+' :: digits)
  | minus {mark : Char} {digits : Text} : mark = 'e' ∨ mark = 'E' → digits ≠ [] →
    AreDecimals digits → Exponent (-digitsValue digits) (mark :: '-' :: digits)

/-- A numeral and how it is written. -/
inductive IsNumeral : Numeral → Text → Prop where
  | mk {whole fraction mantissa exponent : Text} {power : ℤ} : Mantissa whole fraction mantissa →
    Exponent power exponent → IsNumeral ⟨whole, fraction, power⟩ (mantissa ++ exponent)

/-! ## Literals -/

/-- What a literal is worth, its sign aside. -/
inductive Worth where
  | infinite
  | number (q : ℚ)

/-- The double is what the worth of a literal is rounded to. -/
def Worth.RoundsTo : Worth → Float → Prop
  | infinite, x => x = infinity
  | number q, x => x = nearestTo q ∧ IsRounded x q

/-- A literal without a sign. -/
inductive IsUnsigned : Worth → Text → Prop where
  | infinite : IsUnsigned .infinite "Infinity".toList
  | numeral {n : Numeral} {s : Text} : IsNumeral n s → IsUnsigned (.number n.number) s

/-- A literal, with one sign or none. -/
inductive IsLiteral : Bool → Worth → Text → Prop where
  | bare {worth : Worth} {s : Text} : IsUnsigned worth s → IsLiteral false worth s
  | plus {worth : Worth} {s : Text} : IsUnsigned worth s → IsLiteral false worth ('+' :: s)
  | minus {worth : Worth} {s : Text} : IsUnsigned worth s → IsLiteral true worth ('-' :: s)

/-- The longest beginning of a text that is a literal. -/
structure IsLongestLiteral (p s : Text) : Prop where
  beginning : p <+: s
  literal : ∃ negative worth, IsLiteral negative worth p
  longest : ∀ q, q <+: s → ∀ negative worth, IsLiteral negative worth q → q.length ≤ p.length

variable {s t u : Text} {n m : Numeral} {power : ℤ} {whole fraction mantissa : Text}
  {worth worth' : Worth} {x y : Float} {negative : Bool}

theorem Worth.RoundsTo.unique (hx : worth.RoundsTo x) (hy : worth.RoundsTo y) : x = y := by
  cases worth with
  | infinite => exact hx.trans hy.symm
  | number q => exact hx.1.trans hy.1.symm

/-! ## Reading exponents -/

/-- What is left behind a run that is not empty is shorter. -/
theorem length_lt_run {c : Char} {run rest left : Text} (h : left.length ≤ rest.length) :
    left.length < (c :: run ++ rest).length := by
  rw [List.length_append, List.length_cons]
  omega

theorem readSign_cases (s : Text) : readSign s = (false, s) ∨
    (∃ t, s = '+' :: t ∧ readSign s = (false, t)) ∨ ∃ t, s = '-' :: t ∧ readSign s = (true, t) := by
  unfold readSign
  split
  · exact .inr (.inl ⟨_, rfl, rfl⟩)
  · exact .inr (.inr ⟨_, rfl, rfl⟩)
  · exact .inl rfl

theorem AreDecimals.readSign (h : AreDecimals s) (hne : s ≠ []) (u : Text) :
    readSign (s ++ u) = (false, s ++ u) := by
  obtain ⟨c, t, rfl⟩ := List.exists_cons_of_ne_nil hne
  have hplus : c ≠ '+' := by
    rintro rfl
    cases h '+' List.mem_cons_self
  have hminus : c ≠ '-' := by
    rintro rfl
    cases h '-' List.mem_cons_self
  simp [Number.readSign, hplus, hminus]

/-- Behind its mark and a sign an exponent goes on as long as there are digits. -/
theorem readExponent_digits {mark : Char} {digits : Text} (hmark : mark = 'e' ∨ mark = 'E')
    (hsign : readSign t = (negative, digits ++ u)) (hne : digits ≠ [])
    (hdigits : AreDecimals digits) (hu : StopsBefore Text.isDigit u) :
    readExponent (mark :: t) =
      (if negative then -(digitsValue digits : ℤ) else digitsValue digits, u) := by
  have hmark' : (mark == 'e' || mark == 'E') = true := by simpa using hmark
  simp only [readExponent, hmark', if_true, hsign, Text.takeWhile_run hdigits hu,
    Text.dropWhile_run hdigits hu]

/-- A mark without digits is no exponent. -/
theorem readExponent_mark {mark : Char} (hsign : readSign t = (negative, u))
    (hu : StopsBefore Text.isDigit u) : readExponent (mark :: t) = (0, mark :: t) := by
  simp [readExponent, hsign, Text.takeWhile_of_stops hu]

/-- A sign and digits make up an exponent with the mark in front of them. -/
theorem exists_exponent_of_readSign {mark : Char} {digits : Text} (hmark : mark = 'e' ∨ mark = 'E')
    (hsign : readSign s = (negative, digits ++ u)) (hne : digits ≠ []) (hdigits : AreDecimals digits) :
    ∃ t, Exponent (if negative then -(digitsValue digits : ℤ) else digitsValue digits) t ∧
      mark :: s = t ++ u := by
  rcases readSign_cases s with hcase | ⟨v, rfl, hcase⟩ | ⟨v, rfl, hcase⟩
  · obtain ⟨rfl, rfl⟩ := Prod.mk.inj (hcase.symm.trans hsign)
    exact ⟨_, .bare hmark hne hdigits, rfl⟩
  · obtain ⟨rfl, rfl⟩ := Prod.mk.inj (hcase.symm.trans hsign)
    exact ⟨_, .plus hmark hne hdigits, rfl⟩
  · obtain ⟨rfl, rfl⟩ := Prod.mk.inj (hcase.symm.trans hsign)
    exact ⟨_, .minus hmark hne hdigits, rfl⟩

/-- What is read as an exponent is one. -/
theorem exists_exponent (s : Text) :
    ∃ t, Exponent (readExponent s).1 t ∧ s = t ++ (readExponent s).2 := by
  have hnone (h : readExponent s = (0, s)) :
      ∃ t, Exponent (readExponent s).1 t ∧ s = t ++ (readExponent s).2 := by
    rw [h]
    exact ⟨[], .missing, rfl⟩
  cases s with
  | nil => exact hnone rfl
  | cons mark s =>
    by_cases hmark : mark = 'e' ∨ mark = 'E'
    · obtain ⟨digits, rest, hsplit, hdigits, hrest⟩ := Text.exists_run Text.isDigit (readSign s).2
      have hsign : readSign s = ((readSign s).1, digits ++ rest) := by rw [← hsplit]
      by_cases hne : digits = []
      · rw [hne] at hsign
        exact hnone (readExponent_mark hsign hrest)
      · rw [readExponent_digits hmark hsign hne hdigits hrest]
        exact exists_exponent_of_readSign hmark hsign hne hdigits
    · apply hnone
      simp [readExponent, not_or.mp hmark]

theorem Exponent.eq_zero (h : Exponent power []) : power = 0 := by
  cases h
  rfl

/-- An exponent is read, unless a longer one is. -/
theorem Exponent.read (h : Exponent power t) (u : Text) :
    readExponent (t ++ u) = (power, u) ∨ (readExponent (t ++ u)).2.length < u.length := by
  obtain ⟨run, rest, rfl, hrun, hrest⟩ := Text.exists_run Text.isDigit u
  have hread {mark : Char} {digits s : Text} {negative : Bool} (hmark : mark = 'e' ∨ mark = 'E')
      (hsign : readSign s = (negative, digits ++ (run ++ rest))) (hne : digits ≠ [])
      (hdigits : AreDecimals digits) :
      readExponent (mark :: s) =
        (if negative then -(digitsValue digits : ℤ) else digitsValue digits, run ++ rest) ∨
      (readExponent (mark :: s)).2.length < (run ++ rest).length := by
    cases run with
    | nil => exact .inl (readExponent_digits hmark hsign hne hdigits hrest)
    | cons c run =>
      rw [← List.append_assoc] at hsign
      rw [readExponent_digits hmark hsign (by simp)
        (List.forall_mem_append.mpr ⟨hdigits, hrun⟩) hrest]
      exact .inr (length_lt_run le_rfl)
  cases h with
  | missing =>
    obtain ⟨t, ht, hsplit⟩ := exists_exponent (run ++ rest)
    rw [List.nil_append]
    generalize readExponent (run ++ rest) = found at ht hsplit ⊢
    cases t with
    | nil => exact .inl (Prod.ext ht.eq_zero hsplit.symm)
    | cons c t =>
      rw [hsplit]
      exact .inr (length_lt_run le_rfl)
  | bare hmark hne hdigits => exact hread hmark (hdigits.readSign hne _) hne hdigits
  | plus hmark hne hdigits =>
    have hsign (s : Text) : readSign ('+' :: s) = (false, s) := rfl
    exact hread hmark (hsign _) hne hdigits
  | minus hmark hne hdigits =>
    have hsign (s : Text) : readSign ('-' :: s) = (true, s) := rfl
    exact hread hmark (hsign _) hne hdigits

/-- An exponent begins with its mark. -/
theorem Exponent.stops (h : Exponent power t) (hne : t ≠ []) (u : Text) :
    StopsBefore Text.isDigit (t ++ u) ∧ StopsBefore (· == '.') (t ++ u) := by
  have hcons {mark : Char} {s : Text} (hmark : mark = 'e' ∨ mark = 'E') :
      StopsBefore Text.isDigit (mark :: s) ∧ StopsBefore (· == '.') (mark :: s) := by
    rw [Text.stopsBefore_cons, Text.stopsBefore_cons]
    rcases hmark with rfl | rfl <;> decide
  cases h with
  | missing => exact absurd rfl hne
  | bare hmark => exact hcons hmark
  | plus hmark => exact hcons hmark
  | minus hmark => exact hcons hmark

/-! ## Reading numerals -/

theorem length_readExponent_le (s : Text) : (readExponent s).2.length ≤ s.length := by
  obtain ⟨t, -, hsplit⟩ := exists_exponent s
  rw [congrArg List.length hsplit, List.length_append]
  exact Nat.le_add_left _ _

/-- Where neither a digit nor a point follows, a mantissa is read up to its end. -/
theorem Mantissa.read (h : Mantissa whole fraction mantissa) (hu : StopsBefore Text.isDigit u)
    (hpoint : StopsBefore (· == '.') u) : readNumeral? (mantissa ++ u) =
      some (⟨whole, fraction, (readExponent u).1⟩, (readExponent u).2) := by
  cases h with
  | whole hne hwhole => exact readNumeral?_whole hwhole hne hu hpoint
  | pointed hne hwhole hfraction =>
    rw [List.append_assoc]
    exact readNumeral?_pointed hwhole hfraction hne hu

/-- A mantissa is read up to its end, unless a longer one is. -/
theorem Mantissa.read_longer (h : Mantissa whole fraction mantissa) (u : Text) :
    readNumeral? (mantissa ++ u) =
      some (⟨whole, fraction, (readExponent u).1⟩, (readExponent u).2) ∨
    ∃ n rest, readNumeral? (mantissa ++ u) = some (n, rest) ∧ rest.length < u.length := by
  obtain ⟨run, rest, rfl, hrun, hrest⟩ := Text.exists_run Text.isDigit u
  have hle := length_readExponent_le rest
  cases h with
  | pointed hne hwhole hfraction =>
    have hread := readNumeral?_pointed hwhole (List.forall_mem_append.mpr ⟨hfraction, hrun⟩)
      (hne.imp_right fun hne => by simp [hne]) hrest
    rw [List.append_assoc, List.cons_append, ← List.append_assoc, hread]
    cases run with
    | nil => exact .inl (by simp)
    | cons c run => exact .inr ⟨_, _, rfl, length_lt_run hle⟩
  | whole hne hwhole =>
    have hdigits := List.forall_mem_append.mpr ⟨hwhole, hrun⟩
    have hne' : whole ++ run ≠ [] := by simp [hne]
    rw [← List.append_assoc]
    by_cases hpoint : StopsBefore (· == '.') rest
    · rw [readNumeral?_whole hdigits hne' hrest hpoint]
      cases run with
      | nil => exact .inl (by simp)
      | cons c run => exact .inr ⟨_, _, rfl, length_lt_run hle⟩
    · -- The point and the digits behind it belong to the numeral that is read.
      cases rest with
      | nil => exact absurd rfl hpoint
      | cons c rest =>
        obtain rfl : c = '.' := by simpa [Text.stopsBefore_cons] using hpoint
        obtain ⟨digits, rest, rfl, hfraction, hrest⟩ := Text.exists_run Text.isDigit rest
        have hlonger := @length_lt_run '.' digits _ _ (length_readExponent_le rest)
        rw [readNumeral?_pointed hdigits hfraction (.inl hne') hrest]
        refine .inr ⟨_, _, rfl, hlonger.trans_le ?_⟩
        rw [@List.length_append _ run]
        exact Nat.le_add_left _ _

/-- A numeral is read, unless a longer one is. -/
theorem IsNumeral.read (h : IsNumeral n t) (u : Text) : readNumeral? (t ++ u) = some (n, u) ∨
    ∃ m rest, readNumeral? (t ++ u) = some (m, rest) ∧ rest.length < u.length := by
  obtain @⟨whole, fraction, mantissa, exponent, power, hmantissa, hexponent⟩ := h
  rw [List.append_assoc]
  have hread : readNumeral? (mantissa ++ (exponent ++ u)) =
        some (⟨whole, fraction, (readExponent (exponent ++ u)).1⟩,
          (readExponent (exponent ++ u)).2) ∨
      ∃ m rest, readNumeral? (mantissa ++ (exponent ++ u)) = some (m, rest) ∧
        rest.length < u.length := by
    by_cases hne : exponent = []
    · rw [hne]
      exact hmantissa.read_longer u
    · obtain ⟨hdigit, hpoint⟩ := hexponent.stops hne u
      exact .inl (hmantissa.read hdigit hpoint)
  rcases hread with hread | hlonger
  · rcases hexponent.read u with hsame | hlonger
    · rw [hsame] at hread
      exact .inl hread
    · exact .inr ⟨_, _, hread, hlonger⟩
  · exact .inr hlonger

/-- What is read as a numeral is one. -/
theorem exists_numeral (h : readNumeral? s = some (n, u)) : ∃ t, IsNumeral n t ∧ s = t ++ u := by
  obtain ⟨whole, rest, rfl, hwhole, hrest⟩ := Text.exists_run Text.isDigit s
  by_cases hpoint : StopsBefore (· == '.') rest
  · by_cases hne : whole = []
    · rw [hne, List.nil_append, readNumeral?_none hrest hpoint] at h
      cases h
    · rw [readNumeral?_whole hwhole hne hrest hpoint] at h
      obtain ⟨rfl, rfl⟩ := Prod.mk.inj (Option.some.inj h)
      obtain ⟨exponent, hexponent, hsplit⟩ := exists_exponent rest
      exact ⟨_, .mk (.whole hne hwhole) hexponent, by rw [List.append_assoc, ← hsplit]⟩
  · cases rest with
    | nil => exact absurd rfl hpoint
    | cons c rest =>
      obtain rfl : c = '.' := by simpa [Text.stopsBefore_cons] using hpoint
      obtain ⟨fraction, rest, rfl, hfraction, hrest⟩ := Text.exists_run Text.isDigit rest
      by_cases hne : whole ≠ [] ∨ fraction ≠ []
      · rw [readNumeral?_pointed hwhole hfraction hne hrest] at h
        obtain ⟨rfl, rfl⟩ := Prod.mk.inj (Option.some.inj h)
        obtain ⟨exponent, hexponent, hsplit⟩ := exists_exponent rest
        refine ⟨_, .mk (.pointed hne hwhole hfraction) hexponent, ?_⟩
        simp only [List.append_assoc, List.cons_append, ← hsplit]
      · rw [not_or, not_not, not_not] at hne
        rw [hne.1, hne.2, List.nil_append, List.nil_append, readNumeral?_point hrest] at h
        cases h

/-- A numeral is known from how it is written. -/
theorem IsNumeral.unique (hn : IsNumeral n s) (hm : IsNumeral m s) : n = m := by
  have hread {n : Numeral} (h : IsNumeral n s) : readNumeral? (s ++ []) = some (n, []) := by
    rcases h.read [] with hsame | ⟨_, _, _, hlonger⟩
    · exact hsame
    · cases hlonger
  have hsame := (hread hn).symm.trans (hread hm)
  exact (Prod.mk.inj (Option.some.inj hsame)).1

/-! ## Reading literals -/

/-- The number without a sign at the beginning of a text, and what follows it. -/
def readUnsigned? (s : Text) : Option (Float × Text) :=
  if "Infinity".toList.isPrefixOf s then some (infinity, s.drop "Infinity".toList.length)
  else (readNumeral? s).map fun (n, rest) => (n.value, rest)

theorem leadingNumber?_eq (s : Text) : leadingNumber? s =
    (readUnsigned? (readSign (Text.stripLeft s)).2).map fun (x, _) =>
      applySign (readSign (Text.stripLeft s)).1 x := by
  simp only [leadingNumber?, readUnsigned?]
  split
  · rfl
  · rw [Option.map_map]
    rfl

/-- What is read without a sign is a literal, and its worth, rounded. -/
theorem exists_unsigned (h : readUnsigned? s = some (x, u)) :
    ∃ worth t, IsUnsigned worth t ∧ worth.RoundsTo x ∧ s = t ++ u := by
  rw [readUnsigned?] at h
  split at h
  next hname =>
    obtain ⟨rest, rfl⟩ := List.isPrefixOf_iff_prefix.mp hname
    rw [List.drop_left] at h
    obtain ⟨rfl, rfl⟩ := Prod.mk.inj (Option.some.inj h)
    exact ⟨_, _, .infinite, rfl, rfl⟩
  next =>
    obtain ⟨⟨n, rest⟩, hread, hpair⟩ := Option.map_eq_some_iff.mp h
    obtain ⟨rfl, rfl⟩ := Prod.mk.inj hpair
    obtain ⟨t, ht, rfl⟩ := exists_numeral hread
    exact ⟨_, t, .numeral ht, ⟨n.value_eq,
      n.value_eq ▸ isRounded_nearestTo n.number⟩, rfl⟩

theorem readNumeral?_infinity (u : Text) : readNumeral? ("Infinity".toList ++ u) = none := by
  have hsplit : "Infinity".toList = 'I' :: "nfinity".toList := by decide
  rw [hsplit, List.cons_append]
  exact readNumeral?_none (Text.stopsBefore_cons.mpr (by decide))
    (Text.stopsBefore_cons.mpr (by decide))

theorem IsNumeral.exists_read (h : IsNumeral n t) (u : Text) :
    ∃ m rest, readNumeral? (t ++ u) = some (m, rest) ∧ rest.length ≤ u.length := by
  rcases h.read u with hsame | ⟨m, rest, hread, hlonger⟩
  · exact ⟨n, u, hsame, le_rfl⟩
  · exact ⟨m, rest, hread, hlonger.le⟩

/-- Of a text that begins with a literal at least the literal is read. -/
theorem IsUnsigned.exists_read (h : IsUnsigned worth t) (u : Text) :
    ∃ x rest, readUnsigned? (t ++ u) = some (x, rest) ∧ rest.length ≤ u.length := by
  cases h with
  | infinite =>
    have hname : "Infinity".toList.isPrefixOf ("Infinity".toList ++ u) = true :=
      List.isPrefixOf_iff_prefix.mpr (List.prefix_append _ _)
    rw [readUnsigned?, if_pos hname, List.drop_left]
    exact ⟨infinity, u, rfl, le_rfl⟩
  | numeral hnumeral =>
    obtain ⟨m, rest, hread, hle⟩ := hnumeral.exists_read u
    have hname : ¬"Infinity".toList.isPrefixOf (t ++ u) = true := by
      intro hname
      obtain ⟨v, hv⟩ := List.isPrefixOf_iff_prefix.mp hname
      rw [← hv, readNumeral?_infinity] at hread
      cases hread
    rw [readUnsigned?, if_neg hname, hread]
    exact ⟨m.value, rest, rfl, hle⟩

theorem IsUnsigned.unique (h : IsUnsigned worth s) (h' : IsUnsigned worth' s) : worth = worth' := by
  have hname {n : Numeral} (hn : IsNumeral n "Infinity".toList) : False := by
    obtain ⟨m, rest, hread, -⟩ := hn.exists_read []
    rw [readNumeral?_infinity] at hread
    cases hread
  cases h with
  | infinite =>
    generalize hs : "Infinity".toList = s at h'
    cases h' with
    | infinite => rfl
    | numeral hm => exact (hname (hs ▸ hm)).elim
  | numeral hn =>
    cases h' with
    | infinite => exact (hname hn).elim
    | numeral hm => rw [hn.unique hm]

/-- A literal without a sign does not begin with one. -/
theorem IsUnsigned.readSign (h : IsUnsigned worth t) (u : Text) :
    readSign (t ++ u) = (false, t ++ u) := by
  obtain ⟨x, rest, hread, -⟩ := h.exists_read u
  generalize t ++ u = s at hread ⊢
  unfold Number.readSign
  split
  · cases hread
  · cases hread
  · rfl

theorem IsLiteral.readSign (h : IsLiteral negative worth s) :
    ∃ t, IsUnsigned worth t ∧ ∀ u, Number.readSign (s ++ u) = (negative, t ++ u) := by
  cases h with
  | bare h => exact ⟨_, h, h.readSign⟩
  | plus h => exact ⟨_, h, fun _ => rfl⟩
  | minus h => exact ⟨_, h, fun _ => rfl⟩

/-- A literal is known from how it is written. -/
theorem IsLiteral.unique {negative' : Bool} (h : IsLiteral negative worth s)
    (h' : IsLiteral negative' worth' s) : negative = negative' ∧ worth = worth' := by
  obtain ⟨t, ht, hsign⟩ := h.readSign
  obtain ⟨t', ht', hsign'⟩ := h'.readSign
  have hsame := (hsign []).symm.trans (hsign' [])
  rw [List.append_nil, List.append_nil] at hsame
  obtain ⟨rfl, rfl⟩ := Prod.mk.inj hsame
  exact ⟨rfl, ht.unique ht'⟩

theorem exists_literal (h : readUnsigned? (readSign s).2 = some (x, u)) :
    ∃ worth p, IsLiteral (readSign s).1 worth p ∧ worth.RoundsTo x ∧ s = p ++ u := by
  obtain ⟨worth, t, ht, hx, hsplit⟩ := exists_unsigned h
  rcases readSign_cases s with hcase | ⟨v, rfl, hcase⟩ | ⟨v, rfl, hcase⟩
  · rw [hcase] at hsplit ⊢
    exact ⟨worth, t, .bare ht, hx, hsplit⟩
  · rw [hcase] at hsplit ⊢
    exact ⟨worth, _, .plus ht, hx, congrArg ('+' :: ·) hsplit⟩
  · rw [hcase] at hsplit ⊢
    exact ⟨worth, _, .minus ht, hx, congrArg ('-' :: ·) hsplit⟩

/-! ## The longest beginning -/

/-- Where nothing is read, no beginning is a literal. -/
theorem not_isLiteral_of_leadingNumber? (h : leadingNumber? s = none) {p : Text}
    (hp : p <+: Text.stripLeft s) : ¬IsLiteral negative worth p := by
  intro hliteral
  obtain ⟨u, hu⟩ := hp
  obtain ⟨t, ht, hsign⟩ := hliteral.readSign
  obtain ⟨x, rest, hread, -⟩ := ht.exists_read u
  rw [leadingNumber?_eq, ← hu, hsign, hread] at h
  cases h

/-- What is read is the longest literal. -/
theorem exists_longest (h : leadingNumber? s = some x) : ∃ p negative worth y,
    IsLongestLiteral p (Text.stripLeft s) ∧ IsLiteral negative worth p ∧ worth.RoundsTo y ∧
      x = applySign negative y := by
  rw [leadingNumber?_eq] at h
  obtain ⟨⟨y, rest⟩, hread, hx⟩ := Option.map_eq_some_iff.mp h
  obtain ⟨worth, p, hliteral, hy, hsplit⟩ := exists_literal hread
  refine ⟨p, _, worth, y, ⟨⟨rest, hsplit.symm⟩, ⟨_, worth, hliteral⟩, ?_⟩, hliteral, hy, hx.symm⟩
  rintro q ⟨u, hu⟩ negative worth' hq
  obtain ⟨t, ht, hsign⟩ := hq.readSign
  obtain ⟨z, rest', hread', hle⟩ := ht.exists_read u
  rw [← hu, hsign, hread'] at hread
  obtain ⟨-, rfl⟩ := Prod.mk.inj (Option.some.inj hread)
  have hlength := congrArg List.length (hu.trans hsplit)
  rw [List.length_append, List.length_append] at hlength
  omega

theorem IsLongestLiteral.unique {p q : Text} (hp : IsLongestLiteral p s)
    (hq : IsLongestLiteral q s) : p = q := by
  obtain ⟨negative, worth, hliteral⟩ := hp.literal
  obtain ⟨negative', worth', hliteral'⟩ := hq.literal
  have hle := hq.longest p hp.beginning _ _ hliteral
  have hge := hp.longest q hq.beginning _ _ hliteral'
  exact (List.prefix_of_prefix_length_le hp.beginning hq.beginning hle).eq_of_length
    (le_antisymm hle hge)

/-- Behind the blanks at the front, nothing is read exactly where no beginning of the text is a
literal, and otherwise what is read is the worth of the longest beginning that is one, rounded. -/
theorem leadingNumber?_longest (s : Text) :
    (leadingNumber? s = none ↔ ∀ p, p <+: Text.stripLeft s → ∀ negative worth,
      ¬IsLiteral negative worth p) ∧
    ∀ x, leadingNumber? s = some x ↔ ∃ p negative worth y,
      IsLongestLiteral p (Text.stripLeft s) ∧ IsLiteral negative worth p ∧ worth.RoundsTo y ∧
        x = applySign negative y := by
  constructor
  · constructor
    · intro h p hp negative worth
      exact not_isLiteral_of_leadingNumber? h hp
    · intro h
      cases hread : leadingNumber? s with
      | none => rfl
      | some x =>
        obtain ⟨p, negative, worth, y, hlongest, hliteral, -⟩ := exists_longest hread
        exact (h p hlongest.beginning negative worth hliteral).elim
  · intro x
    refine ⟨exists_longest, ?_⟩
    rintro ⟨p, negative, worth, y, hlongest, hliteral, hy, rfl⟩
    cases hread : leadingNumber? s with
    | none => exact (not_isLiteral_of_leadingNumber? hread hlongest.beginning hliteral).elim
    | some x =>
      obtain ⟨q, negative', worth', z, hlongest', hliteral', hz, rfl⟩ := exists_longest hread
      obtain rfl := hlongest.unique hlongest'
      obtain ⟨rfl, rfl⟩ := hliteral.unique hliteral'
      rw [hy.unique hz]

/-- An exponent whose digits are missing is left out. -/
example : leadingNumber? " 1.5e+ km".toList = leadingNumber? "1.5".toList := by decide +kernel

end DeskCalc.Number
