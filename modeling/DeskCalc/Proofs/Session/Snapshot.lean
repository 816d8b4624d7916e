import DeskCalc.Proofs.Json.RoundTrip
import DeskCalc.Proofs.Session.Safety
import DeskCalc.Proofs.Session.Storable
import DeskCalc.Session.Snapshot

/-!
# Snapshots

Restoring a document truncates, clamps and converts almost everything in it.  A safe session has
already passed all of these filters, so it is what its own document describes.  Written as text and
read again, the document describes the session in whose texts the halves of pairs are joined that
meet.
-/

namespace DeskCalc

open Json (nestingRoom)
open Number (digitLimit)
open Text (joinedString joinedString_joinedString)

/-- The entry in whose texts the halves of pairs are joined. -/
def Entry.joined (e : Entry) : Entry :=
  ⟨joinedString e.input, joinedString e.output, joinedString e.kind, e.error.joined⟩

namespace Session

variable {limits : Limits} {s : Session}

/-! ## The document of a safe session -/

theorem lastOf_eq_self {α : Type} {n : Nat} {xs : List α} (h : xs.length ≤ n) :
    lastOf n xs = xs := by
  rw [lastOf, Nat.sub_eq_zero_of_le h, List.drop_zero]

theorem restoredHistory_snapshot (h : Safe limits s) :
    restoredHistory limits (some (.list (s.history.map .str))) = s.history := by
  have hplain : (fun line : String => String.ofList (Json.str line).plain) = id := by
    funext line
    exact String.ofList_toList
  rw [restoredHistory, List.map_map]
  simp only [Function.comp_def, hplain, List.map_id]
  exact lastOf_eq_self h.history

theorem ofJson?_toJson (e : Entry) : Entry.ofJson? e.toJson = some e := by
  have hmembers : Entry.ofJson? e.toJson =
      some ⟨String.ofList (Json.str e.input).plain, String.ofList (Json.str e.output).plain,
        String.ofList (Json.str e.kind).plain, e.error⟩ := rfl
  rw [hmembers]
  simp only [Json.plain, String.ofList_toList]

theorem restoredResults_snapshot (h : Safe limits s) :
    restoredResults limits (some (.list (s.results.map Entry.toJson))) = s.results := by
  rw [restoredResults, List.filterMap_map]
  simp only [Function.comp_def, ofJson?_toJson, List.filterMap_some]
  exact lastOf_eq_self h.results

theorem ofJson?_markJson (m : Mark) : Mark.ofJson? m.toJson = some m := by
  cases m <;> rfl

theorem restoredCursor_snapshot (h : Safe limits s) :
    restoredCursor s.history (some s.cursor.toJson) = s.cursor := by
  rw [restoredCursor, Option.bind_some, ofJson?_markJson]
  exact if_pos h.cursor

theorem numericVariables_eq {bindings : List (String × Json)}
    (h : ∀ name j, (name, j) ∈ bindings → name ≠ lastName → IsFiniteFloat j) :
    numericVariables bindings = (bindings, none) := by
  induction bindings with
  | nil => rfl
  | cons v bindings ih =>
    obtain ⟨name, j⟩ := v
    have hrest := ih fun n k hmem => h n k (List.mem_cons_of_mem _ hmem)
    rw [numericVariables, hrest]
    split
    · rfl
    next hname =>
      obtain ⟨x, rfl, hfinite⟩ := h name j List.mem_cons_self hname
      simp only [Json.leadingNumber, hfinite, if_true]

theorem cleanVariables_eq (h : Numeric s.bindings) : s.cleanVariables = (s, none) := by
  obtain ⟨x, hx, hfinite⟩ := h.last
  have hset : Json.setMember lastName (.float x) s.bindings = s.bindings :=
    Json.setMember_of_lookup hx
  rw [cleanVariables, numericVariables_eq h.others]
  simp only [cleanLast, value?, hx, Option.getD_some, Json.leadingNumber, hfinite, if_true,
    setLast, setVariable, hset]

/-- A safe session is what its document describes. -/
theorem restore_snapshot (h : Safe limits s) : restore limits s.snapshot = .ok s := by
  have hhistory : s.snapshot.get? "history" = some (.list (s.history.map .str)) := rfl
  have hcursor : s.snapshot.get? "historyIndex" = some s.cursor.toJson := rfl
  have hbindings : s.snapshot.get? "variables" = some (.object s.bindings) := rfl
  have hresults : s.snapshot.get? "resultsLog" = some (.list (s.results.map Entry.toJson)) := rfl
  have hinput : s.snapshot.get? "inputValue" = some (.str s.inputValue) := rfl
  have hstart : s.snapshot.get? "cursorStart" = some s.cursorStart.toJson := rfl
  have hend : s.snapshot.get? "cursorEnd" = some s.cursorEnd.toJson := rfl
  have hclean : ({ fresh limits with
      history := s.history, cursor := s.cursor, bindings := s.bindings } : Session).cleanVariables =
      (_, none) := cleanVariables_eq h.numeric
  have htext : (if (Json.str s.inputValue).isEmpty = true then "" else
      String.ofList (Json.str s.inputValue).plain) = s.inputValue := by
    split
    next hempty => exact (String.isEmpty_iff.mp hempty).symm
    · exact String.ofList_toList
  simp only [restore, hhistory, hcursor, hbindings, hresults, hinput, hstart, hend,
    restoredHistory_snapshot h, restoredCursor_snapshot h, restoredResults_snapshot h, hclean,
    Option.bind_some, ofJson?_markJson, Option.getD_some, htext]
  rw [← h.limits_eq]
  rfl

/-! ## Joined texts -/

/-- The session in whose texts the halves of pairs are joined.  Names of variables hold none. -/
def joined (s : Session) : Session :=
  { s with
    history := s.history.map joinedString
    results := s.results.map Entry.joined
    inputValue := joinedString s.inputValue }

theorem Safe.joined (h : Safe limits s) : Safe limits s.joined where
  limits_eq := h.limits_eq
  numeric := h.numeric
  history := by
    rw [Session.joined, List.length_map]
    exact h.history
  results := by
    rw [Session.joined, List.length_map]
    exact h.results
  cursor := by
    simp only [Session.joined, List.length_map]
    exact h.cursor

theorem joined_markJson (m : Mark) : m.toJson.joined = m.toJson := by
  cases m <;> rfl

theorem joined_bindings {bindings : List (String × Json)}
    (h : ∀ m ∈ bindings, IsFiniteFloat m.2) : (Json.object bindings).joined = .object bindings := by
  rw [Json.joined, Json.joinedMembers_eq_map]
  refine congrArg Json.object ?_
  have heq : ∀ m ∈ bindings, (m.1, m.2.joined) = m := by
    intro m hm
    obtain ⟨x, hx, -⟩ := h m hm
    rw [hx]
    exact congrArg (Prod.mk m.1) hx.symm
  rw [List.map_congr_left heq, List.map_id']

theorem joined_lines (lines : List String) :
    (Json.list (lines.map .str)).joined = .list ((lines.map joinedString).map .str) := by
  rw [Json.joined, Json.joinedItems_eq_map, List.map_map, List.map_map]
  rfl

theorem joined_results (entries : List Entry) :
    (Json.list (entries.map Entry.toJson)).joined =
      .list ((entries.map Entry.joined).map Entry.toJson) := by
  rw [Json.joined, Json.joinedItems_eq_map, List.map_map, List.map_map]
  rfl

/-! ## Reading a snapshot back -/

/-- A session whose document can be read back, apart from the position of the cursor. -/
structure Writable (s : Session) : Prop where
  distinct : (s.bindings.map Prod.fst).Nodup
  names : ∀ name ∈ s.bindings.map Prod.fst, Text.Storable name.toList
  errors : ∀ e ∈ s.results, Json.Writable (nestingRoom - 3) e.error
  cursorStart : s.cursorStart.Storable
  cursorEnd : s.cursorEnd.Storable

theorem writable_fresh (limits : Limits) : Writable (fresh limits) where
  distinct := (storable_fresh limits).distinct
  names := (storable_fresh limits).names
  errors := List.forall_mem_nil _
  cursorStart := storable_origin
  cursorEnd := storable_origin

theorem Storable.writable (h : s.Storable) : s.Writable where
  distinct := h.distinct
  names := h.names
  errors := fun e he => (h.results e he).error.writable
  cursorStart := h.cursorStart
  cursorEnd := h.cursorEnd

theorem Storable.joined_eq (h : s.Storable) : s.joined = s := by
  have hlines := List.map_congr_left fun line hline => (h.history line hline).joinedString_eq
  have hentries := List.map_congr_left fun e (he : e ∈ s.results) => show e.joined = e by
    have hentry := h.results e he
    rw [Entry.joined, hentry.input.joinedString_eq, hentry.output.joinedString_eq,
      hentry.kind.joinedString_eq, hentry.error.joined_eq]
  rw [Session.joined, hlines, hentries, h.inputValue.joinedString_eq, List.map_id', List.map_id']

theorem Safe.finite (h : Safe limits s) (hdistinct : (s.bindings.map Prod.fst).Nodup) :
    ∀ m ∈ s.bindings, IsFiniteFloat m.2 :=
  fun _ hm => h.numeric.lookup (Json.lookup_of_mem hdistinct hm)

theorem joined_snapshot (hsafe : Safe limits s) (h : s.Writable) :
    s.snapshot.joined = s.joined.snapshot := by
  have hbindings := joined_bindings (hsafe.finite h.distinct)
  rw [snapshot, Json.joined]
  simp only [Json.joinedMembers, joined_lines, joined_markJson, hbindings, joined_results]
  rfl

theorem writable_int {room : Nat} {n : Nat} (hn : n < 10 ^ digitLimit) :
    Json.Writable room (.int n) :=
  .int (Number.length_natText_le (by decide) hn)

theorem Safe.writable_cursor (h : Safe limits s) (hlength : s.history.length < 10 ^ digitLimit)
    {room : Nat} : Json.Writable room s.cursor.toJson := by
  obtain ⟨hzero, hle⟩ := h.cursor
  cases hcursor : s.cursor with
  | flag b => exact .bool b
  | «at» n =>
    rw [hcursor, Mark.place] at hzero hle
    obtain ⟨m, rfl⟩ := Int.eq_ofNat_of_zero_le hzero
    have hm : m ≤ s.history.length := Int.ofNat_le.mp hle
    exact writable_int (hm.trans_lt hlength)

/-- An object whose names are fixed. -/
theorem writable_object {n : Nat} {members : List (String × Json)} (names : List String)
    (hnames : members.map Prod.fst = names) (hdistinct : names.Nodup)
    (hmark : ∀ name ∈ names, Text.mark ∉ name.toList)
    (hvalues : ∀ m ∈ members, Json.Writable n m.2) : Json.Writable (n + 1) (.object members) := by
  subst hnames
  refine .object hdistinct (fun m hm => ?_) hvalues
  exact Text.storable_of_mark_not_mem (hmark m.1 (List.mem_map_of_mem hm))

theorem writable_entryJson {e : Entry} (h : Json.Writable (nestingRoom - 3) e.error) :
    Json.Writable (nestingRoom - 2) e.toJson := by
  refine writable_object (n := nestingRoom - 3) ["input", "output", "kind", "error"] rfl
    (by decide) (by decide) ?_
  simp only [List.forall_mem_cons]
  exact ⟨.str _, .str _, .str _, h, List.forall_mem_nil _⟩

theorem writable_bindings (hsafe : Safe limits s) (h : s.Writable) {n : Nat} :
    Json.Writable (n + 1) (.object s.bindings) := by
  refine .object h.distinct (fun m hm => h.names m.1 (List.mem_map_of_mem hm)) fun m hm => ?_
  obtain ⟨x, hx, hfinite⟩ := hsafe.finite h.distinct m hm
  rw [hx]
  exact .float (.inl hfinite)

theorem writable_lines {n : Nat} (lines : List String) :
    Json.Writable (n + 1) (.list (lines.map .str)) :=
  .list (List.forall_mem_map.mpr fun line _ => .str line)

theorem writable_snapshot (hsafe : Safe limits s) (h : s.Writable)
    (hlength : s.history.length < 10 ^ digitLimit) : Json.Writable nestingRoom s.snapshot := by
  have hmark {m : Mark} (hm : m.Storable) : Json.Writable (nestingRoom - 1) m.toJson :=
    (hm.mono (Nat.zero_le _)).writable
  have hhistory : Json.Writable (nestingRoom - 1) (.list (s.history.map .str)) :=
    writable_lines (n := nestingRoom - 2) s.history
  have hentries : ∀ j ∈ s.results.map Entry.toJson, Json.Writable (nestingRoom - 2) j :=
    List.forall_mem_map.mpr fun e he => writable_entryJson (h.errors e he)
  have hresults : Json.Writable (nestingRoom - 1) (.list (s.results.map Entry.toJson)) :=
    .list hentries
  have hbindings : Json.Writable (nestingRoom - 1) (.object s.bindings) :=
    writable_bindings (n := nestingRoom - 2) hsafe h
  refine writable_object (n := nestingRoom - 1)
    ["history", "historyIndex", "variables", "resultsLog", "inputValue", "cursorStart",
      "cursorEnd"] rfl (by decide) (by decide) ?_
  simp only [List.forall_mem_cons]
  exact ⟨hhistory, hsafe.writable_cursor hlength, hbindings, hresults, .str _,
    hmark h.cursorStart, hmark h.cursorEnd, List.forall_mem_nil _⟩

/-- What the text of a snapshot is read as. -/
theorem parseOr_snapshot (hsafe : Safe limits s) (h : s.Writable)
    (hlength : s.history.length < 10 ^ digitLimit) (default : Json) :
    Json.parseOr default s.snapshot.render = .ok s.joined.snapshot := by
  rw [Json.parseOr, Json.read?, Json.render, String.toList_ofList,
    (writable_snapshot hsafe h hlength).read_write, joined_snapshot hsafe h]
  rfl

end Session
end DeskCalc
