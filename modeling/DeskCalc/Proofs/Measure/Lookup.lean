import DeskCalc.Proofs.Measure.Units

/-!
# Unambiguous units

All entries of the tables that a text can mean belong to one dimension and have one factor.  So
neither the order of the tables nor that of their entries has a say in the factor of a unit, and the
search in one dimension, the search through all of them and the search for a canonical token agree.
-/

namespace DeskCalc.Measure

open Number (conversionText)

variable {unit source target : Text} {d e : Dimension} {f g x : Float} {name : String}

/-! ## Tables in any order -/

/-- The units of a dimension, by name. -/
abbrev Table := Dimension × List (String × Float)

/-- The tables are those of all dimensions, in some order and with their entries in some order. -/
structure Reordered (tables : List Table) : Prop where
  dimensions : (tables.map Prod.fst).Perm Dimension.all
  entries : ∀ table ∈ tables, table.2.Perm table.1.entries

variable {tables : List Table}

/-- The dimension and the factor under which some tables have a unit first. -/
def factorIn? (tables : List Table) (unit : Text) : Option (Dimension × Float) :=
  tables.findSome? fun table => (lookup? table.2 unit).map fun entry => (table.1, entry.2)

/-- The amount that a conversion by the first tables with both units shows. -/
def amountIn? (tables : List Table) (x : Float) (source target : Text) : Option Text :=
  tables.findSome? fun table =>
    match lookup? table.2 source, lookup? table.2 target with
    | some (_, f), some (_, g) => some (conversionText (x * f / g))
    | _, _ => none

/-- Two units of the same dimension. -/
def alike? (source target : Text) : Option (Found × Found) := do
  let u ← find? source
  let v ← find? target
  if u.dimension = v.dimension then some (u, v) else none

/-! ## The factor of a unit -/

/-- An entry of a dimension's table has this factor and one of the unit's names. -/
def HasFactor (unit : Text) (d : Dimension) (f : Float) : Prop :=
  ∃ entry ∈ d.entries, entry.1 ∈ candidates unit ∧ entry.2 = f

/-- A unit has one factor, in one dimension. -/
theorem HasFactor.unique (h : HasFactor unit d f) (h' : HasFactor unit e g) : d = e ∧ f = g := by
  obtain ⟨first, hfirst, hcandidate, rfl⟩ := h
  obtain ⟨second, hsecond, hcandidate', rfl⟩ := h'
  obtain ⟨m, hm, hname, hfactor⟩ := Dimension.mem_entries.mp hfirst
  obtain ⟨n, hn, hname', hfactor'⟩ := Dimension.mem_entries.mp hsecond
  obtain ⟨hdimension, rfl⟩ := eq_of_candidates hcandidate hcandidate' hm hn hname hname'
  exact ⟨hdimension, hfactor.symm.trans hfactor'⟩

theorem HasFactor.of_lookup? {table : Table} {entry : String × Float}
    (hperm : table.2.Perm table.1.entries) (h : lookup? table.2 unit = some entry) :
    HasFactor unit table.1 entry.2 :=
  ⟨entry, hperm.mem_iff.mp (List.mem_of_find?_eq_some h),
    List.contains_iff_mem.mp (List.find?_some h :), rfl⟩

theorem HasFactor.exists_lookup? {table : Table} (hperm : table.2.Perm table.1.entries)
    (h : HasFactor unit table.1 f) : ∃ name, lookup? table.2 unit = some (name, f) := by
  obtain ⟨entry, hentry, hcandidate, -⟩ := id h
  cases hlookup : lookup? table.2 unit with
  | none =>
    have hnone := List.find?_eq_none.mp hlookup entry (hperm.mem_iff.mpr hentry)
    exact absurd (List.contains_iff_mem.mpr hcandidate) hnone
  | some found =>
    exact ⟨found.1, by rw [((HasFactor.of_lookup? hperm hlookup).unique h).2.symm]⟩

theorem HasFactor.exists_find? (h : HasFactor unit d f) : ∃ name, d.find? unit = some (name, f) :=
  @HasFactor.exists_lookup? unit f (d, d.entries) (List.Perm.refl _) h

theorem HasFactor.of_find? (h : d.find? unit = some (name, f)) : HasFactor unit d f :=
  @HasFactor.of_lookup? unit (d, d.entries) (name, f) (List.Perm.refl _) h

theorem Reordered.exists_mem (h : Reordered tables) (d : Dimension) :
    ∃ table ∈ tables, table.1 = d :=
  List.mem_map.mp (h.dimensions.mem_iff.mpr d.mem_all)

/-- Whatever tables are searched, what they give is the factor. -/
theorem factorIn?_eq_some (h : Reordered tables) :
    factorIn? tables unit = some (d, f) ↔ HasFactor unit d f := by
  have hsound {d : Dimension} {f : Float} (hfactor : factorIn? tables unit = some (d, f)) :
      HasFactor unit d f := by
    obtain ⟨table, htable, hfound⟩ := List.exists_of_findSome?_eq_some hfactor
    obtain ⟨entry, hentry, hsame⟩ := Option.map_eq_some_iff.mp hfound
    cases hsame
    exact .of_lookup? (h.entries table htable) hentry
  refine ⟨hsound, fun hhas => ?_⟩
  cases hfactor : factorIn? tables unit with
  | none =>
    obtain ⟨table, htable, rfl⟩ := h.exists_mem d
    obtain ⟨name, hlookup⟩ := hhas.exists_lookup? (h.entries table htable)
    have hnone := List.findSome?_eq_none_iff.mp hfactor table htable
    rw [hlookup] at hnone
    cases hnone
  | some found =>
    obtain ⟨rfl, rfl⟩ := hhas.unique (hsound hfactor)
    rfl

theorem hasFactor_iff : HasFactor unit d f ↔ ∃ name, find? unit = some ⟨d, name, f⟩ := by
  constructor
  · intro h
    obtain ⟨name, hfind⟩ := h.exists_find?
    exact ⟨name, find?_eq hfind⟩
  · rintro ⟨name, hfind⟩
    exact .of_find? (find?_dimension hfind)

theorem factorIn?_eq (h : Reordered tables) :
    factorIn? tables unit = (find? unit).map fun u => (u.dimension, u.factor) := by
  ext ⟨d, f⟩
  simp only [factorIn?_eq_some h, hasFactor_iff, Option.map_eq_some_iff, Prod.mk.injEq]
  constructor
  · rintro ⟨name, hfind⟩
    exact ⟨⟨d, name, f⟩, hfind, rfl, rfl⟩
  · rintro ⟨⟨_, name, _⟩, hfind, rfl, rfl⟩
    exact ⟨name, hfind⟩

/-! ## Conversions -/

theorem alike?_eq_some {u v : Found} : alike? source target = some (u, v) ↔
    find? source = some u ∧ find? target = some v ∧ u.dimension = v.dimension := by
  simp only [alike?, Option.bind_eq_bind, Option.bind_eq_some_iff]
  constructor
  · rintro ⟨u, hu, v, hv, hsame⟩
    split at hsame
    next hdimension =>
      cases hsame
      exact ⟨hu, hv, hdimension⟩
    · cases hsame
  · rintro ⟨hu, hv, hsame⟩
    exact ⟨u, hu, v, hv, if_pos hsame⟩

theorem amountIn?_eq_some (h : Reordered tables) {amount : Text} :
    amountIn? tables x source target = some amount ↔
      ∃ d f g, HasFactor source d f ∧ HasFactor target d g ∧ conversionText (x * f / g) = amount := by
  have hsound {amount : Text} (hamount : amountIn? tables x source target = some amount) :
      ∃ d f g, HasFactor source d f ∧ HasFactor target d g ∧
        conversionText (x * f / g) = amount := by
    obtain ⟨table, htable, hfound⟩ := List.exists_of_findSome?_eq_some hamount
    split at hfound
    next hsource htarget =>
      cases hfound
      exact ⟨table.1, _, _, .of_lookup? (h.entries table htable) hsource,
        .of_lookup? (h.entries table htable) htarget, rfl⟩
    · cases hfound
  refine ⟨hsound, ?_⟩
  rintro ⟨d, f, g, hsource, htarget, rfl⟩
  cases hamount : amountIn? tables x source target with
  | none =>
    obtain ⟨table, htable, rfl⟩ := h.exists_mem d
    obtain ⟨_, hlookup⟩ := hsource.exists_lookup? (h.entries table htable)
    obtain ⟨_, hlookup'⟩ := htarget.exists_lookup? (h.entries table htable)
    have hnone := List.findSome?_eq_none_iff.mp hamount table htable
    rw [hlookup, hlookup'] at hnone
    cases hnone
  | some amount =>
    obtain ⟨d', f', g', hsource', htarget', rfl⟩ := hsound hamount
    rw [(hsource.unique hsource').2, (htarget.unique htarget').2]

theorem amountIn?_eq (h : Reordered tables) : amountIn? tables x source target =
    (alike? source target).map fun (u, v) => conversionText (x * u.factor / v.factor) := by
  ext amount
  simp only [amountIn?_eq_some h, hasFactor_iff, Option.map_eq_some_iff, Prod.exists,
    alike?_eq_some]
  constructor
  · rintro ⟨d, f, g, ⟨s, hsource⟩, ⟨t, htarget⟩, rfl⟩
    exact ⟨_, _, ⟨hsource, htarget, rfl⟩, rfl⟩
  · rintro ⟨⟨d, s, f⟩, ⟨_, t, g⟩, ⟨hsource, htarget, rfl⟩, rfl⟩
    exact ⟨d, f, g, ⟨s, hsource⟩, ⟨t, htarget⟩, rfl⟩

theorem convert?_eq_map : convert? x source target = (alike? source target).map
    fun (u, v) => withUnit (conversionText (x * u.factor / v.factor)) v.name.toList := by
  ext answer
  simp only [Option.map_eq_some_iff, Prod.exists, alike?_eq_some]
  constructor
  · intro hanswer
    obtain ⟨d, -, hfound⟩ := List.exists_of_findSome?_eq_some hanswer
    split at hfound
    next hsource htarget =>
      cases hfound
      exact ⟨_, _, ⟨find?_eq hsource, find?_eq htarget, rfl⟩, rfl⟩
    · cases hfound
  · rintro ⟨u, v, ⟨hsource, htarget, hsame⟩, rfl⟩
    have hfind := find?_dimension htarget
    rw [← hsame] at hfind
    exact convert?_eq (find?_dimension hsource) hfind x

/-! ## Speeds -/

theorem speed_ring : Dimension.speed.find? ['Å'] = none := by
  rfl

/-- Among the speeds, a unit is found by its token whenever it is found at all. -/
theorem lookup_canonical (unit : Text) :
    Dimension.speed.entries.lookup (String.ofList (canonical unit)) =
      (Dimension.speed.find? unit).map Prod.snd := by
  have hsound {f : Float}
      (h : Dimension.speed.entries.lookup (String.ofList (canonical unit)) = some f) :
      HasFactor unit .speed f := by
    obtain ⟨before, after, hsplit, -⟩ := List.lookup_eq_some_iff.mp h
    refine ⟨(String.ofList (canonical unit), f), ?_, List.mem_cons_self, rfl⟩
    rw [hsplit]
    exact List.mem_append_right _ List.mem_cons_self
  cases hlookup : Dimension.speed.entries.lookup (String.ofList (canonical unit)) with
  | some f =>
    obtain ⟨name, hfind⟩ := (hsound hlookup).exists_find?
    rw [hfind]
    rfl
  | none =>
    cases hfind : Dimension.speed.find? unit with
    | none => rfl
    | some found =>
      obtain ⟨entry, hentry, hcandidate, -⟩ := HasFactor.of_find? hfind
      obtain ⟨m, hm, hname, -⟩ := Dimension.mem_entries.mp hentry
      rcases mem_names_canonical hcandidate hm hname with hcanonical | rfl
      · have hnone := List.lookup_eq_none_iff.mp hlookup
          (String.ofList (canonical unit), m.factor)
          (Dimension.mem_entries.mpr ⟨m, hm, hcanonical, rfl⟩)
        simp at hnone
      · rw [speed_ring] at hfind
        cases hfind

theorem convertSpeed?_eq : convertSpeed? x source target =
    (Dimension.speed.find? source).bind fun u => (Dimension.speed.find? target).map fun v =>
      withUnit (Number.fixed (x * u.2 / v.2) 6) (canonical target) := by
  simp only [convertSpeed?, lookup_canonical]
  cases Dimension.speed.find? source <;> cases Dimension.speed.find? target <;> rfl

/-! ## The main statement -/

/-- The entries that have one of a unit's names belong to one dimension and have one factor.
Therefore tables in any order give the same factor and convert to the same amount, a dimension has
the unit as the search through all dimensions has it, and a speed is found by its token if and only
if it is found. -/
theorem unit_unambiguous (unit : Text) :
    (∀ d e, ∀ entry ∈ Dimension.entries d, ∀ other ∈ Dimension.entries e,
      entry.1 ∈ candidates unit → other.1 ∈ candidates unit → d = e ∧ entry.2 = other.2) ∧
    (∀ tables, Reordered tables →
      factorIn? tables unit = (find? unit).map fun u => (u.dimension, u.factor)) ∧
    (∀ tables, Reordered tables → ∀ x target, amountIn? tables x unit target =
      (alike? unit target).map fun (u, v) => conversionText (x * u.factor / v.factor)) ∧
    (∀ u : Found, find? unit = some u ↔ u.dimension.find? unit = some (u.name, u.factor)) ∧
    (∀ x target, convert? x unit target = (alike? unit target).map
      fun (u, v) => withUnit (conversionText (x * u.factor / v.factor)) v.name.toList) ∧
    (∀ x target, convertSpeed? x unit target =
      (Dimension.speed.find? unit).bind fun u => (Dimension.speed.find? target).map fun v =>
        withUnit (Number.fixed (x * u.2 / v.2) 6) (canonical target)) := by
  refine ⟨?_, fun tables h => factorIn?_eq h, fun tables h x target => amountIn?_eq h,
    fun u => ⟨find?_dimension, find?_eq⟩, fun x target => convert?_eq_map,
    fun x target => convertSpeed?_eq⟩
  intro d e entry hentry other hother hcandidate hcandidate'
  exact HasFactor.unique ⟨entry, hentry, hcandidate, rfl⟩ ⟨other, hother, hcandidate', rfl⟩

/-- The tables from the last dimension to the first, with the last names first. -/
def backwards : List Table :=
  Dimension.all.reverse.map fun d => (d, d.entries.reverse)

theorem reordered_backwards : Reordered backwards where
  dimensions := by decide
  entries table h := by
    obtain ⟨d, -, rfl⟩ := List.mem_map.mp h
    exact List.reverse_perm _

/-- Feet have entries under two of their names.  The last table finds them by the other name, but by
the same factor. -/
theorem unit_unambiguous_feet :
    (∃ entry ∈ Dimension.length.entries, ∃ other ∈ Dimension.length.entries,
      entry.1 = "ft" ∧ other.1 = "feet" ∧ entry.1 ∈ candidates "Feet".toList ∧
      other.1 ∈ candidates "Feet".toList ∧ entry.2 = other.2) ∧
    (Reordered backwards ∧
      lookup? Dimension.length.entries.reverse "Feet".toList = some ("feet", 0.3048) ∧
      factorIn? backwards "Feet".toList = some (.length, 0.3048) ∧
      amountIn? backwards 2 "Feet".toList "inches".toList =
        some (conversionText (2 * 0.3048 / 0.0254))) := by
  have hfind : find? "Feet".toList = some ⟨.length, "ft", 0.3048⟩ := by rfl
  have halike : alike? "Feet".toList "inches".toList =
      some (⟨.length, "ft", 0.3048⟩, ⟨.length, "in", 0.0254⟩) := by rfl
  have hentry {name : String} (h : name ∈ ["ft", "foot", "feet"]) :
      (name, (0.3048 : Float)) ∈ Dimension.length.entries :=
    Dimension.mem_entries.mpr ⟨⟨["ft", "foot", "feet"], 0.3048⟩, by simp [Dimension.units], h, rfl⟩
  have hft : "ft" ∈ candidates "Feet".toList := by decide
  have hfeet : "feet" ∈ candidates "Feet".toList := by decide
  obtain ⟨hentries, hfactor, hamount, -⟩ := unit_unambiguous "Feet".toList
  have hsame := (hentries _ _ _ (hentry (by decide)) _ (hentry (by decide)) hft hfeet).2
  refine ⟨⟨_, hentry (by decide), _, hentry (by decide), rfl, rfl, hft, hfeet, hsame⟩,
    reordered_backwards, by rfl, ?_, ?_⟩
  · rw [hfactor backwards reordered_backwards, hfind]
    rfl
  · rw [hamount backwards reordered_backwards, halike]
    rfl

end DeskCalc.Measure
