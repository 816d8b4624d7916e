import DeskCalc.Proofs.Query.Quantities
import DeskCalc.Proofs.Query.Rules

/-!
# The dimensions of answers

A conversion or a sum shows its answer in a unit of the dimension that all its quantities belong
to.  There are two exceptions: litres asked for in `m`, which are shown as so many `m`, and two
quantities one after the other, whose total is shown in a unit of any dimension.
-/

namespace DeskCalc

open Text (isBlank)

/-! ## Units of a dimension -/

namespace Dimension

variable {d e : Dimension} {unit : Text}

/-- The unit belongs to the dimension, by one of its names or as the sign of feet or inches. -/
def Measures (d : Dimension) (unit : Text) : Prop :=
  (d.find? unit).isSome = true ∨ d = .length ∧ (unit = ['\''] ∨ unit = ['"'])

theorem mem_all (d : Dimension) : d ∈ all := by
  cases d <;> decide

theorem find?_isSome_iff :
    (d.find? unit).isSome = true ↔ ∃ e ∈ d.entries, e.1 ∈ Measure.candidates unit := by
  simp [find?, Measure.lookup?]

/-- A name is found under itself. -/
theorem find?_name {name : String} {x : Float} (h : (name, x) ∈ d.entries) :
    (d.find? name.toList).isSome = true := by
  refine find?_isSome_iff.mpr ⟨(name, x), h, ?_⟩
  simp [Measure.candidates]

theorem mem_entries_of_find? {entry : String × Float} (h : d.find? unit = some entry) :
    entry ∈ d.entries :=
  List.mem_of_find?_eq_some h

/-- The base unit of a dimension belongs to that dimension only. -/
theorem eq_of_find?_base (h : (e.find? d.base.toList).isSome = true) : e = d := by
  have hall : all.all (fun d => all.all fun e =>
      !(e.find? d.base.toList).isSome || e == d) = true := by decide +kernel
  have hboth := List.all_eq_true.mp (List.all_eq_true.mp hall d d.mem_all) e e.mem_all
  simpa [h] using hboth

theorem find?_base (d : Dimension) : (d.find? d.base.toList).isSome = true := by
  have hall : all.all (fun d => (d.find? d.base.toList).isSome) = true := by decide +kernel
  exact List.all_eq_true.mp hall d d.mem_all

theorem eq_of_find?_inch (h : (d.find? ['i', 'n']).isSome = true) : d = .length := by
  revert h
  cases d <;> decide +kernel

theorem visible_entry {entry : String × Float} (h : entry ∈ d.entries) :
    entry.1.toList ≠ [] ∧ ∀ c ∈ entry.1.toList, isBlank c = false := by
  -- Nearly all characters of names are seen to be visible by two comparisons.
  have hall : all.all (fun d => d.entries.all fun e => !e.1.toList.isEmpty &&
      e.1.toList.all fun c => (33 ≤ c.toNat && c.toNat < 128) || !isBlank c) = true := by
    decide +kernel
  have hentry := List.all_eq_true.mp (List.all_eq_true.mp hall d d.mem_all) entry h
  simp only [Bool.and_eq_true, List.all_eq_true, Bool.or_eq_true, decide_eq_true_eq,
    Bool.not_eq_true', List.isEmpty_eq_false_iff] at hentry
  refine ⟨hentry.1, fun c hc => ?_⟩
  rcases hentry.2 c hc with ⟨hlow, hhigh⟩ | hvisible
  · have hp := @Query.of_lt_128 (fun c => c.toNat < 33 || !isBlank c) (by decide +kernel) c hhigh
    simpa [Nat.not_lt.mpr hlow] using hp
  · exact hvisible

theorem visible_base (d : Dimension) :
    d.base.toList ≠ [] ∧ ∀ c ∈ d.base.toList, isBlank c = false := by
  have hall : all.all (fun d =>
      !d.base.toList.isEmpty && d.base.toList.all fun c => !isBlank c) = true := by decide
  simpa using List.all_eq_true.mp hall d d.mem_all

theorem find?_litre (h : Measure.isLitre (Measure.canonical unit) = true) :
    (volume.find? unit).isSome = true := by
  have hall : ["l", "liter", "litre", "liters", "litres"].all
      (fun name => volume.entries.any (·.1 == name)) = true := by decide
  have hname := List.all_eq_true.mp hall _ (List.contains_iff_mem.mp h)
  obtain ⟨entry, hentry, heq⟩ := List.any_eq_true.mp hname
  refine find?_isSome_iff.mpr ⟨entry, hentry, ?_⟩
  rw [beq_iff_eq.mp heq]
  exact List.mem_cons_self

end Dimension

theorem Measure.find?_dimension {unit : Text} {u : Measure.Found}
    (h : Measure.find? unit = some u) : u.dimension.find? unit = some (u.name, u.factor) := by
  obtain ⟨d, -, hd⟩ := List.exists_of_findSome?_eq_some h
  obtain ⟨entry, hentry, rfl⟩ := Option.map_eq_some_iff.mp hd
  exact hentry

namespace Query

open Attempt (bind_eq_found orElse_eq_found ofOption_eq_found)
open Outcome (ofAttempt_eq_answer ofOption_eq_answer decide_eq_answer orElse_eq_answer)

/-! ## Answers with units -/

/-- The answer is an amount and the unit `unit`. -/
inductive Labeled (unit : Text) : Text → Prop
  | mk {amount : Text} (hamount : ∀ c ∈ amount, isBlank c = false) (hne : unit ≠ [])
    (hunit : ∀ c ∈ unit, isBlank c = false) : Labeled unit (Measure.withUnit amount unit)

theorem not_mem_of_not_blank {s : Text} (h : ∀ c ∈ s, isBlank c = false) : ' ' ∉ s := by
  intro hmem
  have hblank := h ' ' hmem
  revert hblank
  decide

theorem isBlank_of_isNumberText {s : Text} (h : Number.IsNumberText s) :
    ∀ c ∈ s, isBlank c = false :=
  fun c hc => isBlank_of_isTextChar (h.chars c hc)

theorem Labeled.of_number {amount unit : Text} (hamount : Number.IsNumberText amount)
    (hunit : unit ≠ [] ∧ ∀ c ∈ unit, isBlank c = false) :
    Labeled unit (Measure.withUnit amount unit) :=
  .mk (isBlank_of_isNumberText hamount) hunit.1 hunit.2

/-- The unit of an answer is determined. -/
theorem Labeled.unit_eq {amount unit unit' : Text}
    (h : Labeled unit' (Measure.withUnit amount unit)) : unit' = unit := by
  generalize heq : Measure.withUnit amount unit = t at h
  cases h with
  | mk hamount hne hunit =>
    have hsame := (List.append_cons_inj_of_notMem (not_mem_of_not_blank hamount)
      (not_mem_of_not_blank hunit)).mp heq.symm
    exact hsame.2.2

/-- What is read at the end of an answer is its unit. -/
theorem Labeled.read_eq {unit written t : Text} (h : Labeled unit t) (hends : EndsIn written t)
    (hchars : ∀ c ∈ written, isTargetChar c = true) :
    written = unit ∧ written ≠ [] ∧ ∀ c ∈ written, isBlank c = false := by
  have hvisible : ∀ c ∈ written, isBlank c = false :=
    fun c hc => isBlank_of_isTargetChar (hchars c hc)
  cases h with
  | mk _ hne hunit =>
    obtain rfl := hends.unit_eq hvisible hne hunit
    exact ⟨rfl, hne, hvisible⟩

/-! ## Conversions -/

/-- How a unit is converted: within a dimension, or as litres that are asked for in `m`. -/
inductive Converts (source target unit : Text) : Prop
  | alike (d : Dimension) (hsource : (d.find? source).isSome = true)
    (hunit : (d.find? unit).isSome = true)
  | litres (hsource : (Dimension.volume.find? source).isSome = true)
    (htarget : Measure.canonical target = ['m']) (hunit : unit = ['m'])

theorem of_convert? {x : Float} {source target t : Text}
    (h : Measure.convert? x source target = some t) :
    ∃ unit, Converts source target unit ∧ Labeled unit t := by
  obtain ⟨d, -, hd⟩ := List.exists_of_findSome?_eq_some h
  split at hd
  next name g hsource htarget =>
    cases hd
    have hentry := Dimension.mem_entries_of_find? htarget
    refine ⟨name.toList, .alike d ?_ (Dimension.find?_name hentry), ?_⟩
    · rw [hsource]
      rfl
    · exact .of_number (Number.isNumberText_conversionText _) (Dimension.visible_entry hentry)
  · cases hd

/-- The quantity in the text is converted, by its own unit. -/
theorem of_convertDecimal? {quantity target t : Text}
    (h : Measure.convertDecimal? quantity target = some t) :
    ∃ source unit, Quantity source quantity ∧ EndsIn source quantity ∧
      Converts source target unit ∧ Labeled unit t := by
  unfold Measure.convertDecimal? at h
  split at h
  · cases h
  next n source hread =>
    obtain ⟨hquantity, hends⟩ := of_decimalQuantity hread
    split at h
    next hconvert =>
      cases h
      obtain ⟨unit, hunit, hlabel⟩ := of_convert? hconvert
      exact ⟨source, unit, hquantity, hends, hunit, hlabel⟩
    · split at h
      next hlitre =>
        cases h
        rw [Bool.and_eq_true, beq_iff_eq] at hlitre
        refine ⟨source, ['m'], hquantity, hends, ?_, ?_⟩
        · exact .litres (Dimension.find?_litre hlitre.1) hlitre.2 rfl
        · exact .of_number (Number.isNumberText_numberText _)
            ⟨List.cons_ne_nil _ _, List.forall_mem_singleton.mpr (by decide)⟩
      · cases h

/-- A unit that is put behind an amount is the one that is read there. -/
theorem of_convertDecimal?_withUnit {amount source target t : Text} (hne : source ≠ [])
    (hsource : ∀ c ∈ source, isBlank c = false)
    (h : Measure.convertDecimal? (Measure.withUnit amount source) target = some t) :
    ∃ unit, Converts source target unit ∧ Labeled unit t := by
  obtain ⟨written, unit, hquantity, hends, hunit, hlabel⟩ := of_convertDecimal? h
  rw [hends.unit_eq hquantity.visible hne hsource] at hunit
  exact ⟨unit, hunit, hlabel⟩

theorem of_convertQuantity {quantity target t : Text}
    (h : Measure.convertQuantity quantity target = .found t) :
    ∃ source unit, Quantity source quantity ∧ EndsIn source quantity ∧
      Converts source target unit ∧ Labeled unit t := by
  unfold Measure.convertQuantity at h
  split at h
  next whole parts source hread =>
    obtain ⟨hquantity, hends⟩ := of_mixedFractionQuantity hread
    obtain ⟨x, -, h⟩ := bind_eq_found.mp h
    obtain ⟨unit, hunit, hlabel⟩ := of_convertDecimal?_withUnit hquantity.ne_nil hquantity.visible
      (ofOption_eq_found.mp h)
    exact ⟨source, unit, hquantity, hends, hunit, hlabel⟩
  · split at h
    next parts source hread =>
      obtain ⟨hquantity, hends⟩ := of_fractionQuantity hread
      obtain ⟨x, -, h⟩ := bind_eq_found.mp h
      obtain ⟨unit, hunit, hlabel⟩ := of_convertDecimal?_withUnit hquantity.ne_nil
        hquantity.visible (ofOption_eq_found.mp h)
      exact ⟨source, unit, hquantity, hends, hunit, hlabel⟩
    · exact of_convertDecimal? (ofOption_eq_found.mp h)

theorem of_convertQuantity_withUnit {amount source target t : Text} (hne : source ≠ [])
    (hsource : ∀ c ∈ source, isBlank c = false)
    (h : Measure.convertQuantity (Measure.withUnit amount source) target = .found t) :
    ∃ unit, Converts source target unit ∧ Labeled unit t := by
  obtain ⟨written, unit, hquantity, hends, hunit, hlabel⟩ := of_convertQuantity h
  rw [hends.unit_eq hquantity.visible hne hsource] at hunit
  exact ⟨unit, hunit, hlabel⟩

/-- An answer that is converted again is converted by its unit. -/
theorem Labeled.of_convertQuantity {source target shown t : Text} (hlabel : Labeled source shown)
    (h : Measure.convertQuantity shown target = .found t) :
    ∃ unit, Converts source target unit ∧ Labeled unit t := by
  cases hlabel with
  | mk _ hne hunit => exact of_convertQuantity_withUnit hne hunit h

theorem of_convertSpeed? {x : Float} {source target t : Text}
    (h : Measure.convertSpeed? x source target = some t) :
    ∃ unit, Converts source target unit ∧ Labeled unit t := by
  simp only [Measure.convertSpeed?] at h
  split at h
  next f g hsource htarget =>
    cases h
    have hsource := Json.mem_of_lookup hsource
    have htarget := Json.mem_of_lookup htarget
    have hvisible := Dimension.visible_entry htarget
    have hname := Dimension.find?_name htarget
    simp only [String.toList_ofList] at hvisible hname
    refine ⟨Measure.canonical target, .alike .speed ?_ hname, ?_⟩
    · exact Dimension.find?_isSome_iff.mpr ⟨_, hsource, List.mem_cons_self⟩
    · exact .of_number (Number.isNumberText_fixed _ _) hvisible
  · cases h

/-! ## Sums -/

theorem of_readSummand {s : Text} {x : Measure.Summand} (h : Measure.readSummand s = .found x) :
    ∃ unit, Quantities [unit] (bare s) ∧ (x.unit.dimension.find? unit).isSome = true := by
  obtain ⟨o, hread, h⟩ := bind_eq_found.mp h
  obtain ⟨amount, -, h⟩ := bind_eq_found.mp h
  obtain ⟨unit, hunit, h⟩ := bind_eq_found.mp h
  cases h
  have hquantities := (of_operandShape (ofOption_eq_found.mp hread)).quantities
  rw [bare_strip] at hquantities
  refine ⟨o.unit, hquantities, ?_⟩
  rw [Measure.find?_dimension (ofOption_eq_found.mp hunit)]
  rfl

theorem require_eq_found {p : Bool} {u : Unit} (h : Attempt.require p = .found u) : p = true := by
  cases p with
  | true => rfl
  | false => cases h

/-- Whatever is added belongs to the dimension of the sum. -/
theorem of_addPieces {d : Dimension} {total : Float} {places : Int} {ps : List Measure.Piece}
    {x : Float} (hturns : TakeTurns false ps)
    (h : Measure.addPieces d total places ps = .found x) :
    ∃ us, Quantities us (bare (ps.flatMap pieceText)) ∧
      ∀ u ∈ us, (d.find? u).isSome = true := by
  match ps, hturns with
  | [], _ => exact ⟨[], .nil, nofun⟩
  | [.operator c], .operator hc _ => exact ⟨[], quantities_operator hc .nil, nofun⟩
  | .operator c :: .operand s :: rest, .operator hc (.operand hrest) =>
    obtain ⟨y, hy, h⟩ := bind_eq_found.mp h
    obtain ⟨_, hdimension, h⟩ := bind_eq_found.mp h
    obtain ⟨r, -, h⟩ := bind_eq_found.mp h
    obtain ⟨us, hquantities, hus⟩ := of_addPieces hrest h
    obtain ⟨unit, hunit, hfound⟩ := of_readSummand hy
    rw [beq_iff_eq.mp (require_eq_found hdimension)] at hfound
    refine ⟨unit :: us, ?_, List.forall_mem_cons.mpr ⟨hfound, hus⟩⟩
    have hboth := quantities_operator hc (s := s ++ rest.flatMap pieceText)
      (by rw [bare_append]; exact hunit.append hquantities)
    exact hboth
  | .operator _ :: .operator _ :: _, _ => cases h

/-- A sum of quantities of one dimension, in its base unit. -/
theorem of_sumPieces {s t : Text} (h : Measure.sumPieces (Measure.pieces s) = .found t) :
    ∃ us d, us ≠ [] ∧ Quantities us (bare s) ∧ (∀ u ∈ us, (Dimension.find? d u).isSome = true) ∧
      Labeled d.base.toList t := by
  have hturns := takeTurns_pieces s
  rw [← bare_pieces s]
  generalize Measure.pieces s = ps at *
  cases hturns with
  | nil => cases h
  | operator => cases h
  | @operand first rest hrest =>
    obtain ⟨-, -, h⟩ := bind_eq_found.mp h
    obtain ⟨x, hx, h⟩ := bind_eq_found.mp h
    obtain ⟨total, htotal, h⟩ := bind_eq_found.mp h
    obtain ⟨unit, hunit, hfound⟩ := of_readSummand hx
    obtain ⟨us, hquantities, hus⟩ := of_addPieces hrest htotal
    refine ⟨unit :: us, x.unit.dimension, List.cons_ne_nil _ _, ?_,
      List.forall_mem_cons.mpr ⟨hfound, hus⟩, ?_⟩
    · rw [List.flatMap_cons, bare_append]
      exact hunit.append hquantities
    · split at h
      · cases h
        exact .of_number (Number.isNumberText_fixed _ _) (Dimension.visible_base _)
      · cases h

theorem find?_of_toBase? {x y : Float} {unit : Text} {d : Dimension}
    (h : Measure.toBase? x unit = some (y, d)) : (d.find? unit).isSome = true := by
  obtain ⟨u, hu, heq⟩ := Option.map_eq_some_iff.mp h
  cases heq
  rw [Measure.find?_dimension hu]
  rfl

theorem of_sumCompact? {s t : Text} (h : Measure.sumCompact? s = some t) :
    ∃ us d, us ≠ [] ∧ Quantities us (bare s) ∧ (∀ u ∈ us, (Dimension.find? d u).isSome = true) ∧
      Labeled d.base.toList t := by
  simp only [Measure.sumCompact?, Option.bind_eq_bind, Option.bind_eq_some_iff] at h
  obtain ⟨⟨⟨n, u⟩, operator, ⟨m, v⟩⟩, hread, ⟨x, d⟩, hx, ⟨y, e⟩, hy, h⟩ := h
  split at h
  next hsame =>
    subst hsame
    cases h
    refine ⟨[u, v], d, List.cons_ne_nil _ _, of_compactPair hread, ?_, ?_⟩
    · intro w hw
      rcases List.mem_pair.mp hw with rfl | rfl
      · exact find?_of_toBase? hx
      · exact find?_of_toBase? hy
    · exact .of_number (Number.isNumberText_fixed _ _) (Dimension.visible_base _)
  · cases h

/-- The unit of a sum is the base unit of the dimension of its quantities, or that of the only
quantity. -/
theorem of_mixedSum {s t : Text} (h : Measure.mixedSum s = .found t) :
    ∃ us unit, us ≠ [] ∧ Quantities us (bare s) ∧ Labeled unit t ∧
      (us = [unit] ∨
        ∃ d : Dimension, (∀ u ∈ us, (d.find? u).isSome = true) ∧ unit = d.base.toList) := by
  unfold Measure.mixedSum at h
  split at h
  next whole parts unit hread =>
    obtain ⟨x, -, h⟩ := bind_eq_found.mp h
    cases h
    obtain ⟨hquantity, -⟩ := of_mixedFractionQuantity hread
    refine ⟨[unit], unit, List.cons_ne_nil _ _, hquantity.quantities, ?_, .inl rfl⟩
    exact .of_number (Number.isNumberText_fixed _ _) ⟨hquantity.ne_nil, hquantity.visible⟩
  · split at h
    next answer hcompact =>
      cases h
      obtain ⟨us, d, hne, hquantities, hus, hlabel⟩ := of_sumCompact? hcompact
      exact ⟨us, d.base.toList, hne, hquantities, hlabel, .inr ⟨d, hus, rfl⟩⟩
    · obtain ⟨us, d, hne, hquantities, hus, hlabel⟩ := of_sumPieces h
      exact ⟨us, d.base.toList, hne, hquantities, hlabel, .inr ⟨d, hus, rfl⟩⟩

/-! ## The units of answers -/

/-- How the unit of an answer belongs to the units of the quantities that a line names. -/
inductive Kept (us : List Text) (target : Option Text) (unit : Text) : Prop
  | alike (d : Dimension) (hsources : ∀ u ∈ us, d.Measures u) (hunit : d.Measures unit)
  | litres (hsources : ∀ u ∈ us, Dimension.volume.Measures u)
    (htarget : target.map Measure.canonical = some ['m']) (hunit : unit = ['m'])
  | echoed (hsource : us = [unit]) (htarget : target = none)

theorem Kept.of_single {source target unit : Text} (h : Converts source target unit) :
    Kept [source] (some target) unit := by
  cases h with
  | alike d hsource hunit =>
    exact .alike d (List.forall_mem_singleton.mpr (.inl hsource)) (.inl hunit)
  | litres hsource htarget hunit =>
    exact .litres (List.forall_mem_singleton.mpr (.inl hsource)) (by rw [Option.map_some, htarget])
      hunit

/-- A sum that is converted stays in its dimension. -/
theorem Kept.of_sum {us : List Text} {source target unit : Text}
    (hsum : us = [source] ∨
      ∃ d : Dimension, (∀ u ∈ us, (d.find? u).isSome = true) ∧ source = d.base.toList)
    (h : Converts source target unit) : Kept us (some target) unit := by
  rcases hsum with rfl | ⟨d, hus, rfl⟩
  · exact .of_single h
  · cases h with
    | alike e hsource hunit =>
      obtain rfl := Dimension.eq_of_find?_base hsource
      exact .alike e (fun u hu => .inl (hus u hu)) (.inl hunit)
    | litres hsource htarget hunit =>
      obtain rfl := Dimension.eq_of_find?_base hsource
      exact .litres (fun u hu => .inl (hus u hu)) (by rw [Option.map_some, htarget]) hunit

/-- What a line names, with or without a target, is shown in a unit of its dimension. -/
def Keeps (s : Text) (target : Option Text) (t : Text) : Prop :=
  ∃ value us unit, us ≠ [] ∧ Asks s value target ∧ Quantities us (bare value) ∧
    Kept us target unit ∧ Labeled unit t

/-! ## The rules one by one -/

theorem keeps_answerFeetInches {s t : Text} (h : answerFeetInches s = .answer t) :
    ∃ target, Keeps s (some target) t := by
  unfold answerFeetInches at h
  split at h
  · cases h
  next feet inches target hread =>
    obtain ⟨value, hasks, hquantities⟩ := of_feetInchesShape hread
    obtain ⟨unit, hconverts, hlabel⟩ := of_convertQuantity_withUnit (List.cons_ne_nil _ _)
      (by simp; decide) (ofAttempt_eq_answer.mp h)
    refine ⟨target, value, _, unit, List.cons_ne_nil _ _, hasks, hquantities, ?_, hlabel⟩
    cases hconverts with
    | alike d hsource hunit =>
      obtain rfl := Dimension.eq_of_find?_inch hsource
      refine .alike .length ?_ (.inl hunit)
      intro u hu
      exact .inr ⟨rfl, List.mem_pair.mp hu⟩
    | litres hsource => cases Dimension.eq_of_find?_inch hsource

/-- A sum that is shown and read again in front of a target. -/
theorem of_convertSum {sum target t : Text} {multiplier : Float}
    (h : convertSum sum target multiplier = .found t) :
    ∃ us unit, us ≠ [] ∧ Quantities us (bare sum) ∧ Kept us (some target) unit ∧
      Labeled unit t := by
  obtain ⟨shown, hshown, h⟩ := bind_eq_found.mp h
  obtain ⟨⟨amount, written⟩, hread, h⟩ := bind_eq_found.mp h
  obtain ⟨x, -, h⟩ := bind_eq_found.mp h
  obtain ⟨us, source, hne, hquantities, hlabel, hsum⟩ := of_mixedSum hshown
  obtain ⟨hends, hchars⟩ := of_shownSum (fun _ => isTargetChar_of_isUnitChar)
    (ofOption_eq_found.mp hread)
  obtain ⟨rfl, hwne, hvisible⟩ := hlabel.read_eq hends hchars
  obtain ⟨unit, hconverts, hlabel'⟩ := of_convertQuantity_withUnit hwne hvisible h
  exact ⟨us, unit, hne, hquantities, .of_sum hsum hconverts, hlabel'⟩

theorem keeps_answerGroup {s t : Text} (h : answerGroup s = .answer t) :
    ∃ target, Keeps s (some target) t := by
  simp only [answerGroup, ofAttempt_eq_answer, orElse_eq_found] at h
  rcases h with h | ⟨-, h | ⟨-, h⟩⟩
  · obtain ⟨⟨inside, target⟩, hread, h⟩ := bind_eq_found.mp h
    obtain ⟨⟨count, sum⟩, hgroup, h⟩ := bind_eq_found.mp h
    obtain ⟨value, hasks, hbare⟩ := of_enclosed (ofOption_eq_found.mp hread)
    obtain ⟨us, unit, hne, hquantities, hkept, hlabel⟩ := of_convertSum h
    have hinside := of_scaledGroup (ofOption_eq_found.mp hgroup) hne hquantities
    rw [← hbare] at hinside
    exact ⟨target, value, us, unit, hne, hasks, hinside, hkept, hlabel⟩
  · obtain ⟨⟨inside, target⟩, hread, h⟩ := bind_eq_found.mp h
    obtain ⟨value, hasks, hbare⟩ := of_enclosed (ofOption_eq_found.mp hread)
    obtain ⟨us, unit, hne, hquantities, hkept, hlabel⟩ := of_convertSum h
    rw [← hbare] at hquantities
    exact ⟨target, value, us, unit, hne, hasks, hquantities, hkept, hlabel⟩
  · obtain ⟨⟨inside, target⟩, hread, h⟩ := bind_eq_found.mp h
    obtain ⟨value, hasks, hbare⟩ := of_nestedGroup (ofOption_eq_found.mp hread)
    obtain ⟨us, unit, hne, hquantities, hkept, hlabel⟩ := of_convertSum h
    rw [← hbare] at hquantities
    exact ⟨target, value, us, unit, hne, hasks, hquantities, hkept, hlabel⟩

/-- The result of an operation on numbers has no unit. -/
theorem not_mem_operate {s t : Text} (h : operate s = .answer t) : ' ' ∉ t := by
  have hshown {z : Float} (h : (if z.isNaN then Outcome.pass else .answer (Number.display z)) =
      .answer t) : ' ' ∉ t := by
    split at h
    · cases h
    · cases h
      exact not_mem_of_not_blank (isBlank_of_isNumberText (Number.isNumberText_display z))
  unfold operate at h
  split at h
  · cases h
  · split at h
    · split at h
      · cases h
      · exact hshown h
    · cases h

theorem keeps_answerPair {s pair target t : Text} (hasks : Asks s pair (some target))
    (h : answerPair pair target = .answer t) : Keeps s (some target) t ∨ ' ' ∉ t := by
  rcases orElse_eq_answer.mp h with h | ⟨-, h⟩
  · obtain ⟨_, -, h⟩ := bind_eq_found.mp (ofAttempt_eq_answer.mp h)
    obtain ⟨shown, hshown, h⟩ := bind_eq_found.mp h
    obtain ⟨us, source, hne, hquantities, hlabel, hsum⟩ := of_mixedSum hshown
    obtain ⟨unit, hconverts, hlabel'⟩ := hlabel.of_convertQuantity h
    exact .inl ⟨pair, us, unit, hne, hasks, hquantities, .of_sum hsum hconverts, hlabel'⟩
  · exact .inr (not_mem_operate h)

theorem keeps_answerCompact {s t : Text} (h : answerCompact s = .answer t) :
    ∃ target, Keeps s (some target) t ∨ ' ' ∉ t := by
  simp only [answerCompact, orElse_eq_answer] at h
  rcases h with h | ⟨-, h⟩
  · split at h
    next pair target hread => exact ⟨target, keeps_answerPair (of_compactIn hread) h⟩
    · cases h
  · split at h
    next pair target hread => exact ⟨target, keeps_answerPair (of_compactTo hread) h⟩
    · cases h

theorem of_convertValue {value target t : Text} (h : convertValue value target = .found t) :
    ∃ us unit, us ≠ [] ∧ Quantities us (bare value) ∧ Kept us (some target) unit ∧
      Labeled unit t := by
  have hclean : bare (Text.strip (singleSpaces false value)) = bare value := by simp
  simp only [convertValue, orElse_eq_found] at h
  rcases h with h | ⟨-, h | ⟨-, h | ⟨-, h | ⟨-, h⟩⟩⟩⟩
  · obtain ⟨_, -, h⟩ := bind_eq_found.mp h
    obtain ⟨shown, hshown, h⟩ := bind_eq_found.mp h
    obtain ⟨⟨amount, written⟩, hread, h⟩ := bind_eq_found.mp h
    obtain ⟨us, source, hne, hquantities, hlabel, hsum⟩ := of_mixedSum hshown
    obtain ⟨hends, hchars⟩ := of_shownSum (fun _ => isTargetChar_of_isMicroUnitChar)
      (ofOption_eq_found.mp hread)
    obtain ⟨rfl, hwne, hvisible⟩ := hlabel.read_eq hends hchars
    obtain ⟨unit, hconverts, hlabel'⟩ := of_convertQuantity_withUnit hwne hvisible h
    exact ⟨us, unit, hne, hquantities, .of_sum hsum hconverts, hlabel'⟩
  · obtain ⟨⟨n, source⟩, hread, h⟩ := bind_eq_found.mp h
    have hquantity := of_speedQuantity (ofOption_eq_found.mp hread)
    have hunit : ∃ unit, Converts source target unit ∧ Labeled unit t := by
      rcases orElse_eq_found.mp h with h | ⟨-, h⟩
      · exact of_convertSpeed? (ofOption_eq_found.mp h)
      · exact of_convertQuantity_withUnit hquantity.ne_nil hquantity.visible h
    obtain ⟨unit, hconverts, hlabel⟩ := hunit
    exact ⟨[source], unit, List.cons_ne_nil _ _, hquantity.quantities, .of_single hconverts, hlabel⟩
  · obtain ⟨⟨n, source⟩, hread, h⟩ := bind_eq_found.mp h
    have hquantity := of_speedQuantity (ofOption_eq_found.mp hread)
    obtain ⟨unit, hconverts, hlabel⟩ := of_convertSpeed? (ofOption_eq_found.mp h)
    refine ⟨[source], unit, List.cons_ne_nil _ _, ?_, .of_single hconverts, hlabel⟩
    rw [← hclean]
    exact hquantity.quantities
  · obtain ⟨⟨n, source⟩, hread, h⟩ := bind_eq_found.mp h
    have hquantity := of_spacedQuantity (ofOption_eq_found.mp hread)
    obtain ⟨unit, hconverts, hlabel⟩ := of_convertQuantity_withUnit hquantity.ne_nil
      hquantity.visible h
    refine ⟨[source], unit, List.cons_ne_nil _ _, ?_, .of_single hconverts, hlabel⟩
    rw [← hclean]
    exact hquantity.quantities
  · obtain ⟨source, unit, hquantity, -, hconverts, hlabel⟩ := of_convertQuantity h
    exact ⟨[source], unit, List.cons_ne_nil _ _, hquantity.quantities, .of_single hconverts, hlabel⟩

theorem keeps_answerConversion {s t : Text} (h : answerConversion s = .answer t) :
    ∃ target, Keeps s (some target) t := by
  have hkeeps {value target : Text} (hasks : Asks s value (some target))
      (h : Outcome.decide (convertValue value target) = .answer t) :
      ∃ target, Keeps s (some target) t := by
    obtain ⟨us, unit, hne, hquantities, hkept, hlabel⟩ := of_convertValue (decide_eq_answer.mp h)
    exact ⟨target, value, us, unit, hne, hasks, hquantities, hkept, hlabel⟩
  unfold answerConversion at h
  split at h
  next value target hread => exact hkeeps (of_conversionTo (by simp) hread) h
  · split at h
    next value target hread => exact hkeeps (of_conversionTo (by simp) hread) h
    · cases h

theorem keeps_answerSum {s t : Text} (h : answerSum s = .answer t) : Keeps s none t := by
  obtain ⟨us, unit, hne, hquantities, hlabel, hsum⟩ := of_mixedSum (ofAttempt_eq_answer.mp h)
  refine ⟨s, us, unit, hne, .alone s, hquantities, ?_, hlabel⟩
  rcases hsum with rfl | ⟨d, hus, rfl⟩
  · exact .echoed rfl rfl
  · exact .alike d (fun u hu => .inl (hus u hu)) (.inl d.find?_base)

/-- A total that is shown in a unit of another dimension than that of its quantities. -/
def Crosses (s target t : Text) : Prop :=
  ∃ value us unit, us ≠ [] ∧ Asks s value (some target) ∧ Quantities us (bare value) ∧
    (∃ d : Dimension, (∀ u ∈ us, d.Measures u) ∧
      ∃ found, Measure.find? target = some found ∧ found.dimension ≠ d ∧
        unit = found.name.toList) ∧
    Labeled unit t

theorem keeps_answerTwoUnits {s t : Text} (h : answerTwoUnits s = .answer t) :
    ∃ target, Keeps s (some target) t ∨ Crosses s target t := by
  have h := ofOption_eq_answer.mp h
  simp only [Option.bind_eq_bind, Option.bind_eq_some_iff] at h
  obtain ⟨⟨⟨n, u⟩, ⟨m, v⟩, target⟩, hread, ⟨x, d⟩, hx, ⟨y, e⟩, hy, h⟩ := h
  obtain ⟨value, hasks, hquantities⟩ := of_twoUnitsShape hread
  split at h
  next hsame =>
    subst hsame
    obtain ⟨found, hfound, rfl⟩ := Option.map_eq_some_iff.mp h
    have hentry := Dimension.mem_entries_of_find? (Measure.find?_dimension hfound)
    have hus : ∀ w ∈ [u, v], d.Measures w := by
      intro w hw
      rcases List.mem_pair.mp hw with rfl | rfl
      · exact .inl (find?_of_toBase? hx)
      · exact .inl (find?_of_toBase? hy)
    have hlabel := Labeled.of_number
      (Number.isNumberText_conversionText ((x + y) / found.factor)) (Dimension.visible_entry hentry)
    by_cases hdimension : found.dimension = d
    · subst hdimension
      exact ⟨target, .inl ⟨value, [u, v], found.name.toList, List.cons_ne_nil _ _, hasks,
        hquantities, .alike _ hus (.inl (Dimension.find?_name hentry)), hlabel⟩⟩
    · exact ⟨target, .inr ⟨value, [u, v], found.name.toList, List.cons_ne_nil _ _, hasks,
        hquantities, ⟨d, hus, found, hfound, hdimension, rfl⟩, hlabel⟩⟩
  · cases h

/-! ## All additive rules -/

/-- The rules that convert and add quantities. -/
def Rule.additive : List Rule :=
  [.feetInches, .group, .compact, .twoUnits, .conversion, .sum]

/-- The first rule that does not pass a query on, with its answer, if it has one. -/
def firstAnswer? (s : Text) : List Rule → Option (Rule × Text)
  | [] => none
  | rule :: rules =>
    match rule.apply s with
    | .pass => firstAnswer? s rules
    | .answer t => some (rule, t)
    | _ => none

/-- The answer to a query, with the rule that gives it. -/
def answeredBy? (s : Text) : Option (Rule × Text) :=
  let query := Text.strip s
  if query.isEmpty then none else firstAnswer? query Rule.all

theorem firstOutcome_eq_answer {s t : Text} {rules : List Rule} :
    firstOutcome s rules = .answer t ↔ (firstAnswer? s rules).map Prod.snd = some t := by
  induction rules with
  | nil => simp [firstOutcome, firstAnswer?]
  | cons rule rules ih =>
    rw [firstOutcome, firstAnswer?, orElse_eq_answer, ih]
    cases rule.apply s <;> simp

/-- The answer to a query is that of some rule. -/
theorem resolve_eq (s : Text) : resolve s = (answeredBy? s).map Prod.snd := by
  rw [resolve, answeredBy?]
  split
  · rfl
  · split
    next t h => exact (firstOutcome_eq_answer.mp h).symm
    next hnone =>
      symm
      rw [Option.eq_none_iff_forall_ne_some]
      intro t ht
      exact hnone t (firstOutcome_eq_answer.mpr ht)

theorem apply_of_firstAnswer? {s t : Text} {rule : Rule} {rules : List Rule}
    (h : firstAnswer? s rules = some (rule, t)) : rule.apply s = .answer t := by
  induction rules with
  | nil => cases h
  | cons first rules ih =>
    rw [firstAnswer?] at h
    split at h
    · exact ih h
    next u hfirst =>
      cases h
      exact hfirst
    · cases h

theorem apply_of_answeredBy? {s t : Text} {rule : Rule}
    (h : answeredBy? s = some (rule, t)) : rule.apply (Text.strip s) = .answer t := by
  rw [answeredBy?] at h
  split at h
  · cases h
  · exact apply_of_firstAnswer? h

theorem keeps_or_crosses {s amount unit : Text} {rule : Rule} (hrule : rule ∈ Rule.additive)
    (h : rule.apply s = .answer (Measure.withUnit amount unit)) :
    (∃ target, Keeps s target (Measure.withUnit amount unit)) ∨
      rule = .twoUnits ∧ ∃ target, Crosses s target (Measure.withUnit amount unit) := by
  have hlabel : ' ' ∈ Measure.withUnit amount unit := by simp [Measure.withUnit]
  simp only [Rule.additive, List.mem_cons, List.not_mem_nil, or_false] at hrule
  rcases hrule with rfl | rfl | rfl | rfl | rfl | rfl
  · obtain ⟨target, hkeeps⟩ := keeps_answerFeetInches h
    exact .inl ⟨some target, hkeeps⟩
  · obtain ⟨target, hkeeps⟩ := keeps_answerGroup h
    exact .inl ⟨some target, hkeeps⟩
  · obtain ⟨target, hkeeps | hnone⟩ := keeps_answerCompact h
    · exact .inl ⟨some target, hkeeps⟩
    · exact absurd hlabel hnone
  · obtain ⟨target, hkeeps | hcrosses⟩ := keeps_answerTwoUnits h
    · exact .inl ⟨some target, hkeeps⟩
    · exact .inr ⟨rfl, target, hcrosses⟩
  · obtain ⟨target, hkeeps⟩ := keeps_answerConversion h
    exact .inl ⟨some target, hkeeps⟩
  · exact .inl ⟨none, keeps_answerSum h⟩

/-- Whatever an additive rule shows with a unit, the line names quantities of one dimension, and the
unit belongs to that dimension too.  Litres asked for in `m` are shown in `m`, a number with a
fraction stays in the unit it is written with, and only the rule for two quantities one after the
other looks its target up in another dimension. -/
theorem answer_keeps_dimension {s amount unit : Text} {rule : Rule} (hrule : rule ∈ Rule.additive)
    (h : answeredBy? s = some (rule, Measure.withUnit amount unit)) :
    ∃ value target us, us ≠ [] ∧ Asks (Text.strip s) value target ∧ Quantities us (bare value) ∧
      (Kept us target unit ∨
        rule = .twoUnits ∧ ∃ d : Dimension, (∀ u ∈ us, d.Measures u) ∧
          ∃ found, target.bind Measure.find? = some found ∧ found.dimension ≠ d ∧
            unit = found.name.toList) := by
  rcases keeps_or_crosses hrule (apply_of_answeredBy? h) with
    ⟨target, value, us, written, hne, hasks, hquantities, hkept, hlabel⟩ |
    ⟨rfl, target, value, us, written, hne, hasks, hquantities, hcrossed, hlabel⟩
  · obtain rfl := hlabel.unit_eq
    exact ⟨value, target, us, hne, hasks, hquantities, .inl hkept⟩
  · obtain rfl := hlabel.unit_eq
    exact ⟨value, some target, us, hne, hasks, hquantities, .inr ⟨rfl, hcrossed⟩⟩

/-- A difference of lengths, asked for in another unit of length. -/
theorem answer_keeps_dimension_difference :
    answeredBy? "5 km - 300 m in km".toList =
        some (.conversion, Measure.withUnit "4.7".toList "km".toList) ∧
      ∃ value target us, us ≠ [] ∧ Asks (Text.strip "5 km - 300 m in km".toList) value target ∧
        Quantities us (bare value) ∧
        (Kept us target "km".toList ∨
          Rule.conversion = .twoUnits ∧ ∃ d : Dimension, (∀ u ∈ us, d.Measures u) ∧
            ∃ found, target.bind Measure.find? = some found ∧ found.dimension ≠ d ∧
              "km".toList = found.name.toList) := by
  have hanswer : answeredBy? "5 km - 300 m in km".toList =
      some (.conversion, Measure.withUnit "4.7".toList "km".toList) := by decide +kernel
  exact ⟨hanswer, answer_keeps_dimension (by decide) hanswer⟩

/-- A height is shown in kilograms, although no dimension has both. -/
theorem height_in_kilograms :
    answeredBy? "5 feet 3 inches in kg".toList =
        some (.twoUnits, Measure.withUnit "1.6002".toList "kg".toList) ∧
      ¬ ∃ d : Dimension, ∀ u ∈ ["feet".toList, "inches".toList, "kg".toList], d.Measures u := by
  refine ⟨by decide +kernel, ?_⟩
  rintro ⟨d, hd⟩
  have hfeet := hd "feet".toList (by simp)
  have hkilograms := hd "kg".toList (by simp)
  revert hfeet hkilograms
  cases d <;> simp [Dimension.Measures] <;> decide +kernel

end Query
end DeskCalc
