import DeskCalc.Proofs.Json.Readable
import DeskCalc.Proofs.Session.Snapshot

/-!
# Reloading sessions

A session that is safe and storable survives being written as text and read again.  Both
properties are kept by whatever a user does, and a session that is restored from any document that
a text can give has them too.
-/

namespace DeskCalc.Session

open Json (nestingRoom)
open Number (digitLimit natText)

variable {limits : Limits} {s : Session}

/-! ## Restored sessions -/

theorem storable_get? {n : Nat} {j v : Json} {name : String} (h : Json.Storable (n + 1) j)
    (hv : j.get? name = some v) : Json.Storable n v := by
  cases h with
  | object _ _ hvalues => exact hvalues _ (Json.mem_of_lookup hv)
  | _ => cases hv

theorem storable_plain {room : Nat} {j : Json} (h : Json.Storable room j) :
    Text.Storable (String.ofList j.plain).toList :=
  Text.storable_ofList h.plain

theorem storable_textMember {room : Nat} {members : List (String × Json)}
    (hvalues : ∀ m ∈ members, Json.Storable room m.2) {name default : String}
    (hdefault : Text.Storable default.toList) :
    Text.Storable (Entry.textMember members name default).toList := by
  rw [Entry.textMember]
  split
  next hj => exact storable_plain (hvalues _ (Json.mem_of_lookup hj))
  · exact hdefault

theorem storable_ofJson? {e : Entry} {j : Json} (h : Json.Storable (nestingRoom - 2) j)
    (he : Entry.ofJson? j = some e) : e.Storable := by
  have hnormal : Text.mark ∉ Entry.normal.toList := by decide
  cases h with
  | @object _ members _ _ hvalues =>
    cases he
    refine ⟨storable_textMember hvalues Text.storable_nil,
      storable_textMember hvalues Text.storable_nil,
      storable_textMember hvalues (Text.storable_of_mark_not_mem hnormal), ?_⟩
    cases herror : members.lookup "error" with
    | none => exact .null
    | some v => exact hvalues _ (Json.mem_of_lookup herror)
  | _ => cases he

theorem storable_ofJson?_mark {room : Nat} {j : Json} {m : Mark} (h : Json.Storable room j)
    (hm : Mark.ofJson? j = some m) : m.Storable := by
  cases h with
  | bool b =>
    cases hm
    exact .bool b
  | int hn =>
    cases hm
    exact .int hn
  | _ => cases hm

theorem numericVariables_names (members : List (String × Json)) :
    ((numericVariables members).1.map Prod.fst).Sublist (members.map Prod.fst) := by
  induction members with
  | nil => exact List.Sublist.refl _
  | cons m members ih =>
    obtain ⟨name, j⟩ := m
    rw [numericVariables]
    split
    · exact ih.cons_cons name
    · split
      · exact List.Sublist.refl _
      · simp only
        split
        · exact ih.cons_cons name
        · exact ih.cons name
      · exact ih.cons name

theorem storable_cleanVariables {t : Session} (hs : s.Storable)
    (h : s.cleanVariables = (t, none)) : t.Storable := by
  have hnames := numericVariables_names s.bindings
  rw [cleanVariables] at h
  split at h
  next bindings hbindings =>
    rw [hbindings] at hnames
    have hkept : Storable { s with bindings := bindings } :=
      { hs with
        distinct := hs.distinct.sublist hnames
        names := fun n hn => hs.names n (hnames.subset hn) }
    obtain ⟨x, -, rfl⟩ := cleanLast_eq h
    exact hkept.setLast x
  · cases h

theorem storable_restoredHistory {j : Json} (hj : Json.Storable nestingRoom j) :
    ∀ line ∈ restoredHistory limits (j.get? "history"), Text.Storable line.toList := by
  intro line hline
  unfold restoredHistory at hline
  split at hline
  next lines hget =>
    obtain ⟨k, hk, rfl⟩ := List.mem_map.mp (mem_of_mem_lastOf hline)
    cases storable_get? (n := nestingRoom - 1) hj hget with
    | list hitems => exact storable_plain (hitems k hk)
  · cases hline

theorem storable_restoredResults {j : Json} (hj : Json.Storable nestingRoom j) :
    ∀ e ∈ restoredResults limits (j.get? "resultsLog"), e.Storable := by
  intro e he
  unfold restoredResults at he
  split at he
  next entries hget =>
    obtain ⟨k, hk, hentry⟩ := List.mem_filterMap.mp (mem_of_mem_lastOf he)
    have hlist := storable_get? (n := nestingRoom - 1) hj hget
    cases hlist with
    | list hitems => exact storable_ofJson? (hitems k hk) hentry
  · cases he

theorem storable_restoredMark {j : Json} (hj : Json.Storable nestingRoom j) (name : String) :
    (((j.get? name).bind Mark.ofJson?).getD (.at 0)).Storable := by
  cases hmark : (j.get? name).bind Mark.ofJson? with
  | none => exact storable_origin
  | some m =>
    obtain ⟨v, hv, hm⟩ := Option.bind_eq_some_iff.mp hmark
    exact storable_ofJson?_mark (storable_get? (n := nestingRoom - 1) hj hv) hm

/-- A session restored from a document that a text can give is storable. -/
theorem storable_restore {j : Json} (hj : Json.Storable nestingRoom j)
    (h : restore limits j = .ok s) : s.Storable := by
  simp only [restore] at h
  split at h
  · cases h
  next t hclean =>
    have hkept : t.Storable := by
      refine storable_cleanVariables ?_ hclean
      refine { storable_fresh limits with
        history := storable_restoredHistory hj, distinct := ?_, names := ?_ }
      · simp only
        split
        next members hget =>
          cases storable_get? (n := nestingRoom - 1) hj hget with
          | object hnames _ _ => exact hnames
        · exact (storable_fresh limits).distinct
      · simp only
        split
        next members hget =>
          cases storable_get? (n := nestingRoom - 1) hj hget with
          | object _ hstorable _ =>
            intro n hn
            obtain ⟨m, hm, rfl⟩ := List.mem_map.mp hn
            exact hstorable m hm
        · exact (storable_fresh limits).names
    cases h
    refine { hkept with
      results := storable_restoredResults hj
      inputValue := ?_
      cursorStart := storable_restoredMark hj _
      cursorEnd := storable_restoredMark hj _ }
    simp only
    split
    next v hget =>
      split
      · exact Text.storable_nil
      · exact storable_plain (storable_get? (n := nestingRoom - 1) hj hget)
    · exact Text.storable_nil

/-! ## Whole runs -/

/-- A session at the beginning of a run is fresh, or restored from a document that some text of
characters gives. -/
inductive Opens (limits : Limits) : Session → Prop
  | fresh : Opens limits (fresh limits)
  | restored {text : List Char} {j : Json} {s : Session}
    (hread : Json.read (Text.ofChars text) = .ok j) (h : restore limits j = .ok s) :
    Opens limits s

theorem Opens.starts (h : Opens limits s) : Starts limits s := by
  cases h with
  | fresh => exact .fresh
  | restored _ h => exact .restored h

theorem Opens.storable (h : Opens limits s) : s.Storable := by
  cases h with
  | fresh => exact storable_fresh limits
  | restored hread h => exact storable_restore (Json.storable_iff.mpr ⟨_, hread⟩) h

end DeskCalc.Session
