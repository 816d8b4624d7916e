import DeskCalc.Json.Basic

/-!
# Members of objects

Setting a member changes the value of its name only, and adds at most that name.
-/

namespace DeskCalc.Json

section Lookup

variable {α : Type} {members : List (String × α)} {n : String}

theorem lookup_cons_eq_ite (n k : String) (v : α) :
    List.lookup n ((k, v) :: members) = if n = k then some v else members.lookup n := by
  rw [List.lookup_cons]
  split
  next h => rw [if_pos (beq_iff_eq.mp h)]
  next h => rw [if_neg (beq_eq_false_iff_ne.mp h)]

theorem mem_of_lookup {v : α} (h : members.lookup n = some v) : (n, v) ∈ members := by
  obtain ⟨before, later, rfl, -⟩ := List.lookup_eq_some_iff.mp h
  simp

/-- Dropping other members leaves the value of a name. -/
theorem lookup_filter {p : String × α → Bool} (h : ∀ v, p (n, v) = true) :
    (members.filter p).lookup n = members.lookup n := by
  induction members with
  | nil => rfl
  | cons m members ih =>
    obtain ⟨k, v⟩ := m
    rw [lookup_cons_eq_ite]
    by_cases hk : n = k
    · subst hk
      rw [List.filter_cons_of_pos (h v), lookup_cons_eq_ite, if_pos rfl, if_pos rfl]
    · rw [if_neg hk, ← ih]
      cases hp : p (k, v) with
      | true => rw [List.filter_cons_of_pos hp, lookup_cons_eq_ite, if_neg hk]
      | false => rw [List.filter_cons_of_neg (by simp [hp])]

/-- A name whose members are dropped has no value. -/
theorem lookup_filter_eq_none {p : String × α → Bool} (h : ∀ v, p (n, v) = false) :
    (members.filter p).lookup n = none := by
  cases hv : (members.filter p).lookup n with
  | none => rfl
  | some v =>
    have hkept := (List.mem_filter.mp (mem_of_lookup hv)).2
    rw [h v] at hkept
    cases hkept

end Lookup

variable {name : String} {value : Json} {members : List (String × Json)}

theorem lookup_setMember (n : String) :
    (setMember name value members).lookup n =
      if n = name then some value else members.lookup n := by
  induction members with
  | nil => rw [setMember, lookup_cons_eq_ite]
  | cons m members ih =>
    obtain ⟨k, v⟩ := m
    rw [setMember]
    split
    next hk =>
      subst hk
      rw [lookup_cons_eq_ite, lookup_cons_eq_ite]
      split <;> rfl
    next hk =>
      rw [lookup_cons_eq_ite, lookup_cons_eq_ite, ih]
      by_cases h : n = k
      · subst h
        rw [if_pos rfl, if_neg hk, if_pos rfl]
      · rw [if_neg h, if_neg h]

theorem mem_setMember {m : String × Json} (h : m ∈ setMember name value members) :
    m = (name, value) ∨ m ∈ members := by
  induction members with
  | nil =>
    left
    exact List.mem_singleton.mp h
  | cons k members ih =>
    obtain ⟨n, v⟩ := k
    rw [setMember] at h
    split at h
    next hn =>
      subst hn
      rcases List.mem_cons.mp h with rfl | h
      · exact .inl rfl
      · exact .inr (List.mem_cons_of_mem _ h)
    · rcases List.mem_cons.mp h with rfl | h
      · exact .inr List.mem_cons_self
      · exact (ih h).imp_right (List.mem_cons_of_mem _)

/-- A new name goes to the end. -/
theorem setMember_of_not_mem (h : name ∉ members.map Prod.fst) :
    setMember name value members = members ++ [(name, value)] := by
  induction members with
  | nil => rfl
  | cons m members ih =>
    rw [List.map_cons, List.mem_cons, not_or] at h
    rw [setMember, if_neg (Ne.symm h.1), ih h.2]
    rfl

theorem mem_names_setMember {n : String}
    (h : n ∈ (setMember name value members).map Prod.fst) :
    n = name ∨ n ∈ members.map Prod.fst := by
  obtain ⟨m, hm, rfl⟩ := List.mem_map.mp h
  rcases mem_setMember hm with rfl | hm
  · exact .inl rfl
  · exact .inr (List.mem_map_of_mem hm)

theorem nodup_setMember (h : (members.map Prod.fst).Nodup) :
    ((setMember name value members).map Prod.fst).Nodup := by
  induction members with
  | nil => exact List.nodup_cons.mpr ⟨List.not_mem_nil, List.nodup_nil⟩
  | cons m members ih =>
    obtain ⟨k, v⟩ := m
    rw [List.map_cons, List.nodup_cons] at h
    rw [setMember]
    split
    next hk =>
      subst hk
      exact List.nodup_cons.mpr h
    next hk =>
      rw [List.map_cons, List.nodup_cons]
      refine ⟨fun hmem => ?_, ih h.2⟩
      rcases mem_names_setMember hmem with heq | hmem
      · exact hk heq
      · exact h.1 hmem

theorem lookup_of_mem {n : String} {j : Json} (hdistinct : (members.map Prod.fst).Nodup)
    (h : (n, j) ∈ members) : members.lookup n = some j := by
  induction members with
  | nil => cases h
  | cons m members ih =>
    obtain ⟨k, v⟩ := m
    rw [List.map_cons, List.nodup_cons] at hdistinct
    rw [lookup_cons_eq_ite]
    rcases List.mem_cons.mp h with heq | htail
    · cases heq
      rw [if_pos rfl]
    · have hne : n ≠ k := by
        rintro rfl
        exact hdistinct.1 (List.mem_map.mpr ⟨(n, j), htail, rfl⟩)
      rw [if_neg hne]
      exact ih hdistinct.2 htail

/-- Setting a member to the value that it has changes nothing. -/
theorem setMember_of_lookup (h : members.lookup name = some value) :
    setMember name value members = members := by
  induction members with
  | nil => cases h
  | cons m members ih =>
    obtain ⟨k, v⟩ := m
    rw [lookup_cons_eq_ite] at h
    rw [setMember]
    by_cases hk : name = k
    · rw [if_pos hk] at h
      cases h
      rw [if_pos hk.symm]
    · rw [if_neg hk] at h
      rw [if_neg (Ne.symm hk), ih h]

end DeskCalc.Json
