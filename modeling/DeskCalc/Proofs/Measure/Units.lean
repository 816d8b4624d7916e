import DeskCalc.Proofs.Measure.Hyphens
import DeskCalc.Proofs.Query.Dimensions

/-!
# Units and their dimensions

A unit is searched for under three names: its token, the name as it is written and that name in
lower case.  Whichever of them the tables have, they are names of one unit of one dimension, so that
it does not matter in which order the dimensions are searched.  What is found is written, at least in
lower case, in one of finitely many forms.
-/

namespace DeskCalc

open Text (isBlank)

/-! ## Tokens -/

namespace Measure

variable {unit : Text}

/-- What a name in lower case is resolved to. -/
def resolved (name : Text) : Text :=
  match aliases.lookup (String.ofList name) with
  | some token => token.toList
  | none => (singular? ['s'] name).getD ((singular? ['e', 's'] name).getD name)

theorem canonical_eq (unit : Text) : canonical unit = resolved (Text.lower (Text.strip unit)) :=
  rfl

theorem singular?_eq_some {ending name stem : Text} (h : singular? ending name = some stem) :
    name = stem ++ ending := by
  rw [singular?] at h
  split at h
  next hconditions =>
    cases h
    simp only [Bool.and_eq_true, beq_iff_eq] at hconditions
    exact hconditions.1.2
  · cases h

theorem lowerChar_unit {c : Char} (hc : isMicroUnitChar c = true) :
    (c == 'Σ') = false ∧ (c == 'İ') = false ∧ Text.lowerChar c = c.toLower := by
  simp only [isMicroUnitChar, isUnitChar, Bool.or_eq_true, beq_iff_eq] at hc
  rcases hc with (((hletter | rfl) | rfl) | rfl) | rfl
  · have hlow := Query.lt_128_of_isLetter hletter
    have hne {d : Char} (hd : 128 ≤ d.toNat) : (c == d) = false := by
      rw [beq_eq_false_iff_ne]
      rintro rfl
      omega
    refine ⟨hne (by decide), hne (by decide), ?_⟩
    rw [Text.lowerChar, if_pos hlow]
  all_goals decide

/-- The case of a unit's letters is changed letter by letter. -/
theorem lower_unit (hunit : ∀ c ∈ unit, isMicroUnitChar c = true) :
    Text.lower unit = unit.map Char.toLower := by
  have hall (before s : Text) (hs : ∀ c ∈ s, isMicroUnitChar c = true) :
      Text.lowerAfter before s = s.map Char.toLower := by
    induction s generalizing before with
    | nil => rfl
    | cons c s ih =>
      obtain ⟨hc, hrest⟩ := List.forall_mem_cons.mp hs
      obtain ⟨hsigma, hdotted, hchar⟩ := lowerChar_unit hc
      rw [Text.lowerAfter, hsigma, hdotted, ih _ hrest]
      simp [hchar]
  exact hall [] unit hunit

end Measure

/-! ## Names -/

namespace Dimension

variable {d e : Dimension} {m n : Measure} {form : Text}

/-- The names of a dimension's units. -/
def names (d : Dimension) : List String :=
  d.entries.map Prod.fst

/-- How a unit may be written in lower case: by its name, in the plural or by an alias. -/
def forms (d : Dimension) : List Text :=
  (d.names.flatMap fun name =>
    [name.toList, name.toList ++ ['s'], name.toList ++ ['e', 's']]) ++
    Measure.aliases.map fun entry => entry.1.toList

/-- The names of bases, which are asked for in the way of units. -/
def baseNames : List Text :=
  ["hex".toList, "octal".toList, "binary".toList, "decimal".toList]

/-- The form has hyphens between letters only, it begins neither like an exponent nor with the word
for degrees, and it is no name of a base. -/
def isUsual (form : Text) : Bool :=
  Measure.hyphenated none form && !form.isEmpty && !(form.head?.any fun c => c == 'e' || c == 'E') &&
    !"degree".toList.isPrefixOf form && !baseNames.any (Text.sameLetters form) &&
    form.all fun c => c.toNat ≠ 0x307

/-- Every unit with its dimension. -/
def measures : List (Dimension × Measure) :=
  all.flatMap fun d => d.units.map (d, ·)

/-- The characters of a name as the digits of one number. -/
def code (name : String) : ℕ :=
  name.toList.foldl (fun n c => 256 * n + c.toNat) 0

/-- Divided by this number, the codes of the names leave different remainders. -/
def slots : ℕ := 2969

/-- The numbers differ from each other and from the places of the bits that are set. -/
def areNew (seen : ℕ) : List ℕ → Bool
  | [] => true
  | n :: ns => !seen.testBit n && areNew (seen ||| 1 <<< n) ns

theorem nodup_of_areNew {seen : ℕ} {ns : List ℕ} (h : areNew seen ns = true) :
    (∀ n ∈ ns, seen.testBit n = false) ∧ ns.Nodup := by
  induction ns generalizing seen with
  | nil => simp
  | cons n ns ih =>
    rw [areNew, Bool.and_eq_true, Bool.not_eq_true'] at h
    obtain ⟨hseen, hnodup⟩ := ih h.2
    simp only [Nat.testBit_or, Bool.or_eq_false_iff, Nat.one_shiftLeft] at hseen
    refine ⟨List.forall_mem_cons.mpr ⟨h.1, fun k hk => (hseen k hk).1⟩,
      List.nodup_cons.mpr ⟨fun hn => ?_, hnodup⟩⟩
    have hbit := (hseen n hn).2
    rw [Nat.testBit_two_pow_self] at hbit
    cases hbit

/-- The name is in lower case or the one letter that is not, and it is not that letter in lower case. -/
def isLower (name : Text) : Bool :=
  ((name.all fun c => c.toNat.ble 127 && (c.toNat.ble 64 || Nat.ble 91 c.toNat)) ||
    Text.lower name == name || name == ['Å']) && name != ['å']

/-- What a look at the tables shows: all names differ, since the remainders of their codes do, they
are in lower case, what an alias stands for is a name of the same unit, and all forms are usual. -/
theorem names_checked :
    areNew 0 (measures.flatMap fun m => m.2.names.map (code · % slots)) = true ∧
    (measures.all fun m => m.2.names.all fun name => isLower name.toList &&
      isUsual name.toList && isUsual (name.toList ++ ['s']) &&
      isUsual (name.toList ++ ['e', 's'])) = true ∧
    (Measure.aliases.all fun entry => isUsual entry.1.toList && measures.all fun m =>
      !(m.2.names.any fun name => (code name).beq (code entry.1)) ||
        m.2.names.any fun name => (code name).beq (code entry.2) && name == entry.2) = true := by
  decide +kernel

theorem mem_measures : (d, m) ∈ measures ↔ m ∈ d.units := by
  simp [measures, d.mem_all]

theorem mem_entries {entry : String × Float} :
    entry ∈ d.entries ↔ ∃ m ∈ d.units, entry.1 ∈ m.names ∧ m.factor = entry.2 := by
  simp only [entries, List.mem_flatMap, List.mem_map, Prod.ext_iff]
  constructor
  · rintro ⟨m, hm, name, hname, rfl, hfactor⟩
    exact ⟨m, hm, hname, hfactor⟩
  · rintro ⟨m, hm, hname, hfactor⟩
    exact ⟨m, hm, entry.1, hname, rfl, hfactor⟩

theorem mem_names {name : String} : name ∈ d.names ↔ ∃ m ∈ d.units, name ∈ m.names := by
  simp [names, mem_entries]

theorem name_checked {name : String} (h : name ∈ d.names) :
    isLower name.toList = true ∧ isUsual name.toList = true ∧
      isUsual (name.toList ++ ['s']) = true ∧ isUsual (name.toList ++ ['e', 's']) = true := by
  obtain ⟨m, hm, hname⟩ := mem_names.mp h
  have hchecked := List.all_eq_true.mp names_checked.2.1 (d, m) (mem_measures.mpr hm)
  simpa only [Bool.and_eq_true, and_assoc] using List.all_eq_true.mp hchecked name hname

theorem alias_checked {entry : String × String} (h : entry ∈ Measure.aliases) :
    isUsual entry.1.toList = true ∧ (measures.all fun m =>
      !(m.2.names.any fun name => (code name).beq (code entry.1)) ||
        m.2.names.any fun name => (code name).beq (code entry.2) && name == entry.2) = true := by
  rw [← Bool.and_eq_true]
  exact List.all_eq_true.mp names_checked.2.2 entry h

/-- No two units share a name. -/
theorem eq_of_mem_names {name : String} (hm : m ∈ d.units) (hn : n ∈ e.units)
    (hname : name ∈ m.names) (hother : name ∈ n.names) : d = e ∧ m = n := by
  have hpairs : measures.Pairwise fun m n => ∀ name ∈ m.2.names, name ∉ n.2.names := by
    have hnodup := (nodup_of_areNew names_checked.1).2
    refine (List.pairwise_flatMap.mp hnodup).2.imp fun h name hname hother => ?_
    exact h _ (List.mem_map_of_mem hname) _ (List.mem_map_of_mem hother) rfl
  have hsymm : Std.Symm fun m n : Dimension × Measure => ∀ name ∈ m.2.names, name ∉ n.2.names :=
    ⟨fun _ _ h name hname hother => h name hother hname⟩
  refine Prod.mk.inj (by_contra fun hne => ?_)
  exact hpairs.forall (mem_measures.mpr hm) (mem_measures.mpr hn) hne name hname hother

theorem toLower_of_not_capital {c : Char} (h : c.toNat ≤ 64 ∨ 91 ≤ c.toNat) : c.toLower = c := by
  have hupper : ¬c.isUpper = true := by
    rw [Text.isUpper_iff]
    omega
  exact dif_neg (mt decide_eq_true hupper)

/-- All names but one are in lower case. -/
theorem lower_name {name : Text} (h : String.ofList name ∈ d.names) :
    name = ['Å'] ∨ Text.lower name = name := by
  have hname := (name_checked h).1
  simp only [isLower, String.toList_ofList, Bool.or_eq_true, beq_iff_eq, List.all_eq_true,
    Bool.and_eq_true, Nat.ble_eq] at hname
  rcases hname.1 with (hbasic | hlower) | hring
  · right
    have hlow : ∀ c ∈ name, c.toNat < 128 := fun c hc => Nat.lt_succ_of_le (hbasic c hc).1
    rw [Text.lower_basic hlow, List.map_congr_left fun c hc => toLower_of_not_capital (hbasic c hc).2,
      List.map_id']
  · exact .inr hlower
  · exact .inl hring

/-- In lower case, the one name that is not so is unknown. -/
theorem ring_not_mem_names : String.ofList ['å'] ∉ d.names := by
  intro h
  have hname := (name_checked h).1
  simp [isLower] at hname

/-- What an alias stands for is a name of the unit that the alias names. -/
theorem mem_names_of_alias {name token : String} (halias : (name, token) ∈ Measure.aliases)
    (hm : m ∈ d.units) (h : name ∈ m.names) : token ∈ m.names := by
  have hboth := List.all_eq_true.mp (alias_checked halias).2 (d, m) (mem_measures.mpr hm)
  rw [Bool.or_eq_true] at hboth
  rcases hboth with hunknown | hknown
  · have hcode : (m.names.any fun other => (code other).beq (code name)) = true :=
      List.any_eq_true.mpr ⟨name, h, by simp⟩
    simp only at hunknown
    rw [hcode] at hunknown
    cases hunknown
  · obtain ⟨other, hother, heq⟩ := List.any_eq_true.mp hknown
    rw [Bool.and_eq_true, beq_iff_eq] at heq
    have hsame : other = token := heq.2
    rwa [← hsame]

theorem find?_isSome_iff_names {unit : Text} : (d.find? unit).isSome = true ↔
    ∃ name ∈ Measure.candidates unit, name ∈ d.names := by
  rw [find?_isSome_iff]
  constructor
  · rintro ⟨entry, hentry, hname⟩
    exact ⟨entry.1, hname, List.mem_map_of_mem hentry⟩
  · rintro ⟨name, hname, hmem⟩
    obtain ⟨entry, hentry, rfl⟩ := List.mem_map.mp hmem
    exact ⟨entry, hentry, hname⟩

/-! ## Forms -/

theorem isUsual_iff : isUsual form = true ↔ Measure.hyphenated none form = true ∧ form ≠ [] ∧
    Text.StopsBefore (fun c => c == 'e' || c == 'E') form ∧ ¬"degree".toList <+: form ∧
    (∀ name ∈ baseNames, Text.sameLetters form name = false) ∧ ∀ c ∈ form, c.toNat ≠ 0x307 := by
  have hhead : form.head?.any (fun c => c == 'e' || c == 'E') = false ↔
      Text.StopsBefore (fun c => c == 'e' || c == 'E') form := Iff.rfl
  simp only [isUsual, Bool.and_eq_true, Bool.not_eq_true', hhead, List.isEmpty_iff,
    ← Bool.not_eq_true, List.isPrefixOf_iff_prefix, List.any_eq_true, List.all_eq_true,
    decide_eq_true_iff, not_exists, not_and, and_assoc]

theorem isUsual_of_mem_forms (h : form ∈ d.forms) : isUsual form = true := by
  rcases List.mem_append.mp h with hname | halias
  · obtain ⟨name, hname, hform⟩ := List.mem_flatMap.mp hname
    obtain ⟨-, hsingular, hs, hes⟩ := name_checked hname
    simp only [List.mem_cons, List.not_mem_nil, or_false] at hform
    rcases hform with rfl | rfl | rfl
    exacts [hsingular, hs, hes]
  · obtain ⟨entry, hentry, rfl⟩ := List.mem_map.mp halias
    exact (alias_checked hentry).1

theorem mem_forms_of_names {name ending : Text} (h : String.ofList name ∈ d.names)
    (hending : ending ∈ [[], ['s'], ['e', 's']]) : name ++ ending ∈ d.forms := by
  refine List.mem_append_left _ (List.mem_flatMap.mpr ⟨_, h, ?_⟩)
  simp only [List.mem_cons, List.not_mem_nil, or_false] at hending
  rcases hending with rfl | rfl | rfl <;> simp

theorem mem_forms_of_name {name : Text} (h : String.ofList name ∈ d.names) : name ∈ d.forms := by
  have hname : name ++ [] ∈ d.forms := mem_forms_of_names h (by simp)
  rwa [List.append_nil] at hname

/-- What is resolved to a name is one of the forms. -/
theorem mem_forms_of_resolved {name : Text} (h : String.ofList (Measure.resolved name) ∈ d.names) :
    name ∈ d.forms := by
  rw [Measure.resolved] at h
  split at h
  next token halias =>
    obtain ⟨before, after, hsplit, -⟩ := List.lookup_eq_some_iff.mp halias
    refine List.mem_append_right _ (List.mem_map.mpr ⟨(String.ofList name, token), ?_, ?_⟩)
    · rw [hsplit]
      exact List.mem_append_right _ List.mem_cons_self
    · exact String.toList_ofList
  next =>
    cases hs : Measure.singular? ['s'] name with
    | some stem =>
      rw [hs] at h
      rw [Measure.singular?_eq_some hs]
      exact mem_forms_of_names h (by simp)
    | none =>
      cases hes : Measure.singular? ['e', 's'] name with
      | some stem =>
        rw [hs, hes] at h
        rw [Measure.singular?_eq_some hes]
        exact mem_forms_of_names h (by simp)
      | none =>
        rw [hs, hes] at h
        exact mem_forms_of_name h

end Dimension

/-! ## What a text names -/

namespace Measure

variable {d e : Dimension} {m n : DeskCalc.Measure} {unit : Text}

theorem isKnown_of_mem_names {name : Text} (h : String.ofList name ∈ d.names) :
    isKnown name = true := by
  rw [isKnown, List.contains_iff_mem, allNames, List.mem_append]
  exact .inl (List.mem_flatMap.mpr ⟨d, d.mem_all, h⟩)

/-- A name is resolved to a name of the same unit. -/
theorem mem_names_resolved {name : Text} (hm : m ∈ d.units) (h : String.ofList name ∈ m.names) :
    String.ofList (resolved name) ∈ m.names := by
  have hknown := isKnown_of_mem_names (Dimension.mem_names.mpr ⟨m, hm, h⟩)
  rw [resolved]
  split
  next token halias =>
    obtain ⟨before, after, hsplit, -⟩ := List.lookup_eq_some_iff.mp halias
    rw [String.ofList_toList]
    refine Dimension.mem_names_of_alias ?_ hm h
    rw [hsplit]
    exact List.mem_append_right _ List.mem_cons_self
  next => simpa [singular?, hknown] using h

theorem visible_name {name : Text} (hm : m ∈ d.units) (h : String.ofList name ∈ m.names) :
    ∀ c ∈ name, isBlank c = false := by
  have hentry : (String.ofList name, m.factor) ∈ d.entries :=
    Dimension.mem_entries.mpr ⟨m, hm, h, rfl⟩
  have hvisible := (Dimension.visible_entry hentry).2
  rwa [String.toList_ofList] at hvisible

/-- Whatever a text is a name of, its token is a name of the same unit.  There is one name that
loses its meaning in lower case. -/
theorem mem_names_canonical {name : String} (hname : name ∈ candidates unit) (hm : m ∈ d.units)
    (h : name ∈ m.names) : String.ofList (canonical unit) ∈ m.names ∨ unit = ['Å'] := by
  have hresolved (hvisible : ∀ c ∈ unit, isBlank c = false)
      (hlower : String.ofList (Text.lower unit) ∈ m.names) :
      String.ofList (canonical unit) ∈ m.names := by
    rw [canonical_eq, Query.strip_eq_self hvisible]
    exact mem_names_resolved hm hlower
  simp only [candidates, List.map_cons, List.map_nil, List.mem_cons, List.not_mem_nil,
    or_false] at hname
  rcases hname with rfl | rfl | rfl
  · exact .inl h
  · rcases Dimension.lower_name (Dimension.mem_names.mpr ⟨m, hm, h⟩) with hring | hsame
    · exact .inr hring
    · exact .inl (hresolved (visible_name hm h) (hsame.symm ▸ h))
  · refine .inl (hresolved (fun c hc => ?_) h)
    rw [← Bool.not_eq_true]
    intro hblank
    have hvisible := visible_name hm h c (Text.mem_lower_of_isBlank hblank hc)
    rw [hblank] at hvisible
    cases hvisible

/-- All units that a text names are one. -/
theorem eq_of_candidates {first second : String} (hfirst : first ∈ candidates unit)
    (hsecond : second ∈ candidates unit) (hm : m ∈ d.units) (hn : n ∈ e.units)
    (h : first ∈ m.names) (h' : second ∈ n.names) : d = e ∧ m = n := by
  by_cases hring : unit = ['Å']
  · have hname {k : Dimension} {u : DeskCalc.Measure} {name : String} (hu : u ∈ k.units)
        (hname : name ∈ candidates unit) (h : name ∈ u.names) : name = String.ofList ['Å'] := by
      have hnot : name ≠ String.ofList ['å'] := by
        rintro rfl
        exact Dimension.ring_not_mem_names (Dimension.mem_names.mpr ⟨u, hu, h⟩)
      have hcandidates : candidates unit = [['å'], ['Å'], ['å']].map String.ofList := by
        rw [hring]
        rfl
      rw [hcandidates] at hname
      simpa [hnot] using hname
    rw [hname hm hfirst h] at h
    rw [hname hn hsecond h'] at h'
    exact Dimension.eq_of_mem_names hm hn h h'
  · exact Dimension.eq_of_mem_names hm hn ((mem_names_canonical hfirst hm h).resolve_right hring)
      ((mem_names_canonical hsecond hn h').resolve_right hring)

/-- A unit belongs to one dimension. -/
theorem dimension_unique (hd : (d.find? unit).isSome = true) (he : (e.find? unit).isSome = true) :
    d = e := by
  obtain ⟨first, hfirst, hmem⟩ := Dimension.find?_isSome_iff_names.mp hd
  obtain ⟨second, hsecond, hmem'⟩ := Dimension.find?_isSome_iff_names.mp he
  obtain ⟨m, hm, h⟩ := Dimension.mem_names.mp hmem
  obtain ⟨n, hn, h'⟩ := Dimension.mem_names.mp hmem'
  exact (eq_of_candidates hfirst hsecond hm hn h h').1

/-- The dimension of a unit is the first one that has it. -/
theorem find?_eq {s : String} {f : Float} (h : d.find? unit = some (s, f)) :
    find? unit = some ⟨d, s, f⟩ := by
  cases hfind : find? unit with
  | none =>
    have hnone := List.findSome?_eq_none_iff.mp hfind d d.mem_all
    simp [h] at hnone
  | some u =>
    have hdimension := find?_dimension hfind
    have hsame : d = u.dimension := dimension_unique (by rw [h]; rfl) (by rw [hdimension]; rfl)
    rw [← hsame, h] at hdimension
    cases hdimension
    rw [hsame]

/-! ## The forms of units -/

/-- A unit that is found is written in one of the forms, or is so in lower case. -/
theorem mem_forms_of_find? (hvisible : ∀ c ∈ unit, isBlank c = false)
    (h : (d.find? unit).isSome = true) : unit ∈ d.forms ∨ Text.lower unit ∈ d.forms := by
  obtain ⟨name, hcandidate, hmem⟩ := Dimension.find?_isSome_iff_names.mp h
  simp only [candidates, List.map_cons, List.map_nil, List.mem_cons, List.not_mem_nil,
    or_false] at hcandidate
  rcases hcandidate with rfl | rfl | rfl
  · rw [canonical_eq, Query.strip_eq_self hvisible] at hmem
    exact .inr (Dimension.mem_forms_of_resolved hmem)
  · exact .inl (Dimension.mem_forms_of_name hmem)
  · exact .inr (Dimension.mem_forms_of_name hmem)

theorem isUsual_of_find? (hvisible : ∀ c ∈ unit, isBlank c = false)
    (h : (d.find? unit).isSome = true) :
    Dimension.isUsual unit = true ∨ Dimension.isUsual (Text.lower unit) = true :=
  (mem_forms_of_find? hvisible h).imp Dimension.isUsual_of_mem_forms Dimension.isUsual_of_mem_forms

/-- In a unit that is found, hyphens stand between letters. -/
theorem hyphenated_of_find? (hunit : ∀ c ∈ unit, isMicroUnitChar c = true)
    (h : (d.find? unit).isSome = true) : hyphenated none unit = true := by
  have hvisible : ∀ c ∈ unit, isBlank c = false := fun c hc =>
    Query.isBlank_of_isTargetChar (Query.isTargetChar_of_isMicroUnitChar (hunit c hc))
  rcases isUsual_of_find? hvisible h with husual | husual
  · exact (Dimension.isUsual_iff.mp husual).1
  · have hlower := (Dimension.isUsual_iff.mp husual).1
    rw [lower_unit hunit] at hlower
    exact hyphenated_of_lower hlower

/-- A unit that is found begins neither like an exponent nor with the word for degrees. -/
theorem start_of_find? (hunit : ∀ c ∈ unit, isMicroUnitChar c = true)
    (h : (d.find? unit).isSome = true) :
    Text.StopsBefore (fun c => c == 'e' || c == 'E') unit ∧ ¬"degree".toList <+: unit := by
  have hvisible : ∀ c ∈ unit, isBlank c = false := fun c hc =>
    Query.isBlank_of_isTargetChar (Query.isTargetChar_of_isMicroUnitChar (hunit c hc))
  rcases isUsual_of_find? hvisible h with husual | husual
  · obtain ⟨-, -, hmark, hdegree, -⟩ := Dimension.isUsual_iff.mp husual
    exact ⟨hmark, hdegree⟩
  · obtain ⟨-, -, hmark, hdegree, -⟩ := Dimension.isUsual_iff.mp husual
    rw [lower_unit hunit] at hmark hdegree
    constructor
    · cases unit with
      | nil => rfl
      | cons c unit =>
        rw [List.map_cons, Text.stopsBefore_cons] at hmark
        rw [Text.stopsBefore_cons]
        by_contra hc
        rw [Bool.not_eq_false, Bool.or_eq_true, beq_iff_eq, beq_iff_eq] at hc
        rcases hc with rfl | rfl <;> cases hmark
    · intro hstart
      exact hdegree (hstart.map Char.toLower)

/-! ## Conversions within a dimension -/

variable {source target : Text} {s t : String} {f g : Float}

theorem ne_nil_of_find? (h : d.find? unit = some (s, f)) : unit ≠ [] := by
  rintro rfl
  have hlower : Text.lower [] = [] := rfl
  have husual := isUsual_of_find? (List.forall_mem_nil _) (d := d) (by rw [h]; rfl)
  rw [hlower, or_self] at husual
  exact (Dimension.isUsual_iff.mp husual).2.1 rfl

/-- Whatever dimensions are tried first, an amount is converted in the one that both units belong
to. -/
theorem convert?_eq (hsource : d.find? source = some (s, f))
    (htarget : d.find? target = some (t, g)) (x : Float) :
    convert? x source target = some (withUnit (Number.conversionText (x * f / g)) t.toList) := by
  cases hconvert : convert? x source target with
  | none =>
    have hnone := List.findSome?_eq_none_iff.mp hconvert d d.mem_all
    simp [hsource, htarget] at hnone
  | some answer =>
    obtain ⟨e, -, he⟩ := List.exists_of_findSome?_eq_some hconvert
    split at he
    next f' t' g' hsource' htarget' =>
      have hsame : d = e := dimension_unique (by rw [hsource]; rfl) (by rw [hsource']; rfl)
      subst hsame
      rw [hsource] at hsource'
      rw [htarget] at htarget'
      cases hsource'
      cases htarget'
      exact he.symm
    · cases he

end Measure
end DeskCalc
