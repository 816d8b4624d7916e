import DeskCalc.Proofs.Json.Readable
import DeskCalc.Shell.Workspace

/-!
# What the workspace says of the session in use

While a session is in use, the workspace says that it is the last one and keeps a record of it; all
else in the workspace is as the file said.  Whether the session is forgotten or kept in the end, the
file can be read again and says what was written.
-/

namespace DeskCalc

namespace Json

/-! ## Members that are set and dropped -/

variable {name : String} {v : Json} {members : List (String × Json)}

theorem setMember_setMember (u v : Json) (members : List (String × Json)) :
    setMember name v (setMember name u members) = setMember name v members := by
  induction members with
  | nil => simp [setMember]
  | cons m members ih =>
    obtain ⟨k, w⟩ := m
    by_cases hk : k = name
    · simp [setMember, hk]
    · simp [setMember, hk, ih]

theorem dropMember_setMember (v : Json) (members : List (String × Json)) :
    dropMember name (setMember name v members) = dropMember name members := by
  induction members with
  | nil => simp [setMember, dropMember]
  | cons m members ih =>
    obtain ⟨k, w⟩ := m
    rw [dropMember, dropMember] at ih
    by_cases hk : k = name
    · simp [setMember, dropMember, hk]
    · simpa [setMember, dropMember, hk] using ih

theorem dropMember_of_not_mem (h : name ∉ members.map Prod.fst) :
    dropMember name members = members := by
  rw [dropMember, List.filter_eq_self]
  intro m hm
  have hne : m.1 ≠ name := fun heq => h (heq ▸ List.mem_map_of_mem hm)
  exact decide_eq_true hne

theorem lookup_dropMember (n : String) :
    (dropMember name members).lookup n = if n = name then none else members.lookup n := by
  rw [dropMember]
  by_cases hn : n = name
  · rw [if_pos hn]
    exact lookup_filter_eq_none fun _ => decide_eq_false (not_not_intro hn)
  · rw [if_neg hn]
    exact lookup_filter fun _ => decide_eq_true hn

theorem not_mem_dropMember : name ∉ (dropMember name members).map Prod.fst := by
  intro hmem
  obtain ⟨m, hm, heq⟩ := List.mem_map.mp hmem
  have hne : m.1 ≠ name := of_decide_eq_true (List.mem_filter.mp hm).2
  exact hne heq

theorem lookup_joinedMembers (n : String) :
    (joinedMembers members).lookup n = (members.lookup n).map joined := by
  induction members with
  | nil => rfl
  | cons m members ih =>
    obtain ⟨k, w⟩ := m
    rw [joinedMembers, lookup_cons_eq_ite, lookup_cons_eq_ite, ih]
    by_cases hk : n = k
    · rw [if_pos hk, if_pos hk, Option.map_some]
    · rw [if_neg hk, if_neg hk]

variable {r : Nat}

theorem Writable.setMember (h : Writable (r + 1) (.object members))
    (hname : Text.Storable name.toList) (hv : Writable r v) :
    Writable (r + 1) (.object (setMember name v members)) := by
  cases h with
  | object hnames hstorable hvalues =>
    refine .object (nodup_setMember hnames) ?_ ?_
    · intro m hm
      rcases mem_setMember hm with rfl | hm
      · exact hname
      · exact hstorable m hm
    · intro m hm
      rcases mem_setMember hm with rfl | hm
      · exact hv
      · exact hvalues m hm

theorem Storable.setMember (h : Storable (r + 1) (.object members))
    (hname : Text.Storable name.toList) (hv : Storable r v) :
    Storable (r + 1) (.object (setMember name v members)) := by
  cases h with
  | object hnames hstorable hvalues =>
    refine .object (nodup_setMember hnames) ?_ ?_
    · intro m hm
      rcases mem_setMember hm with rfl | hm
      · exact hname
      · exact hstorable m hm
    · intro m hm
      rcases mem_setMember hm with rfl | hm
      · exact hv
      · exact hvalues m hm

theorem Storable.dropMember (h : Storable (r + 1) (.object members)) (name : String) :
    Storable (r + 1) (.object (dropMember name members)) := by
  have hsub : (Json.dropMember name members).Sublist members := List.filter_sublist
  cases h with
  | object hnames hstorable hvalues =>
    exact .object (hnames.sublist (hsub.map Prod.fst)) (fun m hm => hstorable m (hsub.subset hm))
      fun m hm => hvalues m (hsub.subset hm)

theorem Storable.lookup {n : String} (h : Storable (r + 1) (.object members))
    (hv : members.lookup n = some v) : Storable r v := by
  cases h with
  | object _ _ hvalues => exact hvalues _ (mem_of_lookup hv)

end Json

namespace Shell

open Json (nestingRoom setMember dropMember)

/-- The name under which a workspace lists the sessions. -/
abbrev listName : String := "session_info"

/-- The name under which a workspace has the last session. -/
abbrev lastName : String := "last_session_id"

variable {file : Option String} {members : List (String × Json)}

/-! ## Files -/

/-- What a workspace file says.  A missing file says nothing, and neither does one that is no
document. -/
inductive Tells : Option String → List (String × Json) → Prop
  | missing : Tells none []
  | unreadable {text : List Char} (hread : Json.read (Text.ofChars text) = .error .malformed) :
    Tells (some (String.ofList (Text.ofChars text))) []
  | written {text : List Char} {members : List (String × Json)}
    (hread : Json.read (Text.ofChars text) = .ok (.object members)) :
    Tells (some (String.ofList (Text.ofChars text))) members

/-- The shell can use what a workspace says: the list of sessions, if there is one, is an object of
objects, and the last session, if there is one, is null or a text. -/
structure InOrder (members : List (String × Json)) : Prop where
  list : ∀ j, members.lookup listName = some j →
    ∃ sessions, j = .object sessions ∧ ∀ m ∈ sessions, ∃ record, m.2 = .object record
  last : ∀ j, members.lookup lastName = some j → j = .null ∨ ∃ name, j = .str name

theorem readWorkspace_some {text : Text} {j : Json} (h : Json.read text = .ok j) :
    readWorkspace (some (String.ofList text)) = .ok j := by
  rw [readWorkspace, Json.parseOr, Json.read?, String.toList_ofList, h]
  rfl

theorem Tells.readWorkspace (h : Tells file members) :
    readWorkspace file = .ok (.object members) := by
  cases h with
  | missing => rfl
  | unreadable hread =>
    rw [Shell.readWorkspace, Json.parseOr, Json.read?, String.toList_ofList, hread]
    rfl
  | written hread => exact readWorkspace_some hread

theorem Tells.storable (h : Tells file members) : Json.Storable nestingRoom (.object members) := by
  have hempty : Json.Storable nestingRoom (.object []) :=
    .object List.nodup_nil (List.forall_mem_nil _) (List.forall_mem_nil _)
  cases h with
  | missing => exact hempty
  | unreadable => exact hempty
  | written hread => exact Json.storable_iff.mpr ⟨_, hread⟩

/-! ## Lists of sessions -/

/-- The sessions that a workspace lists. -/
def sessionsOf (members : List (String × Json)) : List (String × Json) :=
  match members.lookup listName with
  | some (.object sessions) => sessions
  | _ => []

theorem InOrder.ofJson (h : InOrder members) : Workspace.ofJson (.object members) =
    .ok ⟨sessionsOf members, none, dropMember listName members⟩ := by
  rw [Workspace.ofJson, sessionsOf]
  cases hlist : members.lookup listName with
  | none => rfl
  | some j =>
    obtain ⟨sessions, rfl, -⟩ := h.list j hlist
    rfl

theorem InOrder.record (h : InOrder members) {name : String} {j : Json}
    (hj : (sessionsOf members).lookup name = some j) : ∃ record, j = .object record := by
  rw [sessionsOf] at hj
  cases hlist : members.lookup listName with
  | none =>
    rw [hlist] at hj
    cases hj
  | some k =>
    obtain ⟨sessions, rfl, hrecords⟩ := h.list k hlist
    rw [hlist] at hj
    exact hrecords _ (Json.mem_of_lookup hj)

theorem storable_sessionsOf (h : Json.Storable nestingRoom (.object members)) :
    Json.Storable (nestingRoom - 1) (.object (sessionsOf members)) := by
  have hempty : Json.Storable (nestingRoom - 1) (.object []) :=
    .object List.nodup_nil (List.forall_mem_nil _) (List.forall_mem_nil _)
  rw [sessionsOf]
  cases hlist : members.lookup listName with
  | none => exact hempty
  | some j =>
    have hj : Json.Storable (nestingRoom - 1) j := h.lookup (r := nestingRoom - 1) hlist
    cases j with
    | object sessions => exact hj
    | _ => exact hempty

/-! ## Remembering and forgetting -/

/-- What a workspace that was read from members says while a session is in use. -/
structure Remembers (members : List (String × Json)) (name : String) (w : Workspace) : Prop where
  apart : w.apart = none
  sessions : ∃ record, Json.Writable (nestingRoom - 2) (.object record) ∧
    w.sessions = setMember name (.object record) (sessionsOf members)
  others : w.others = setMember lastName (.str name) (dropMember listName members)

/-- A session of which nothing or a record is known is remembered in another record. -/
theorem exists_remember {w : Workspace} {name : String}
    (h : ∀ j, w.sessions.lookup name = some j →
      ∃ record, j = .object record ∧ Json.Writable (nestingRoom - 2) (.object record))
    (remark : Option String) (now : String) :
    ∃ record, Json.Writable (nestingRoom - 2) (.object record) ∧
      w.remember (.str name) remark now =
        .ok ⟨setMember name (.object record) w.sessions, w.apart,
          setMember lastName (.str name) w.others⟩ := by
  have hstorable {n : String} (hn : Text.mark ∉ n.toList) : Text.Storable n.toList :=
    Text.storable_of_mark_not_mem hn
  have hcreated : Text.Storable "created_at".toList := hstorable (by decide)
  obtain ⟨known, hknown, hrecord⟩ : ∃ known,
      Json.Writable (nestingRoom - 2) (.object known) ∧ w.record (.str name) now = .ok known := by
    rw [Workspace.record, Workspace.known?]
    cases hj : w.sessions.lookup name with
    | none =>
      refine ⟨[("created_at", .str now)], ?_, rfl⟩
      exact .object (List.nodup_singleton _)
        (List.forall_mem_singleton.mpr hcreated)
        (List.forall_mem_singleton.mpr (.str now))
    | some j =>
      obtain ⟨record, rfl, hwritable⟩ := h j hj
      exact ⟨record, hwritable, rfl⟩
  have hused : Json.Writable (nestingRoom - 2) (.object (setMember "last_used" (.str now) known)) :=
    hknown.setMember (r := nestingRoom - 3) (hstorable (by decide)) (.str now)
  rw [Workspace.remember, hrecord]
  cases remark with
  | none => exact ⟨_, hused, rfl⟩
  | some text =>
    have hdescription : Text.Storable "description".toList := hstorable (by decide)
    exact ⟨_, hused.setMember (r := nestingRoom - 3) hdescription (.str text), rfl⟩

/-- The session in use is remembered first in the workspace that was read. -/
theorem exists_remembers (horder : InOrder members)
    (h : Json.Storable nestingRoom (.object members)) (name now : String) :
    ∃ w, (⟨sessionsOf members, none, dropMember listName members⟩ : Workspace).remember
        (.str name) none now = .ok w ∧ Remembers members name w := by
  have hknown : ∀ j, (sessionsOf members).lookup name = some j →
      ∃ record, j = .object record ∧ Json.Writable (nestingRoom - 2) (.object record) := by
    intro j hj
    obtain ⟨record, rfl⟩ := horder.record hj
    exact ⟨record, rfl, ((storable_sessionsOf h).lookup (r := nestingRoom - 2) hj).writable⟩
  obtain ⟨record, hwritable, heq⟩ := exists_remember
    (w := ⟨sessionsOf members, none, dropMember listName members⟩) hknown none now
  exact ⟨_, heq, rfl, ⟨record, hwritable, rfl⟩, rfl⟩

variable {name : String} {w : Workspace}

/-- It may be remembered again with a remark. -/
theorem Remembers.remember (h : Remembers members name w) (remark : Option String) (now : String) :
    ∃ v, w.remember (.str name) remark now = .ok v ∧ Remembers members name v := by
  obtain ⟨old, hold, hsessions⟩ := h.sessions
  have hknown : ∀ j, w.sessions.lookup name = some j →
      ∃ record, j = .object record ∧ Json.Writable (nestingRoom - 2) (.object record) := by
    intro j hj
    rw [hsessions, Json.lookup_setMember, if_pos rfl] at hj
    cases hj
    exact ⟨old, rfl, hold⟩
  obtain ⟨record, hwritable, heq⟩ := exists_remember hknown remark now
  refine ⟨_, heq, h.apart, ⟨record, hwritable, ?_⟩, ?_⟩
  · rw [hsessions, Json.setMember_setMember]
  · rw [h.others, Json.setMember_setMember]

/-- The members of a workspace that has forgotten a session. -/
def forgotten (members : List (String × Json)) (name : String) : List (String × Json) :=
  setMember listName (.object (dropMember name (sessionsOf members)))
    (setMember lastName .null (dropMember listName members))

theorem listName_not_mem (v : Json) :
    listName ∉ (setMember lastName v (dropMember listName members)).map Prod.fst := by
  intro hmem
  rcases Json.mem_names_setMember hmem with heq | hmem
  · exact absurd heq (by decide)
  · exact Json.not_mem_dropMember hmem

theorem Remembers.forget (h : Remembers members name w) :
    (w.forget (.str name)).toJson = .object (forgotten members name) := by
  obtain ⟨record, -, hsessions⟩ := h.sessions
  have hforget : w.forget (.str name) = ⟨dropMember name (sessionsOf members), none,
      setMember lastName .null (dropMember listName members)⟩ := by
    rw [Workspace.forget, Workspace.withLast, hsessions, h.apart, h.others,
      Json.dropMember_setMember, Json.setMember_setMember]
  rw [hforget, Workspace.toJson, Workspace.allSessions, forgotten,
    Json.setMember_of_not_mem (listName_not_mem .null)]

/-! ## Reading again -/

theorem storable_listName : Text.Storable listName.toList := by
  have hmark : Text.mark ∉ listName.toList := by decide
  exact Text.storable_of_mark_not_mem hmark

theorem storable_lastName : Text.Storable lastName.toList := by
  have hmark : Text.mark ∉ lastName.toList := by decide
  exact Text.storable_of_mark_not_mem hmark

theorem storable_forgotten (h : Json.Storable nestingRoom (.object members)) (name : String) :
    Json.Storable nestingRoom (.object (forgotten members name)) := by
  have hothers : Json.Storable nestingRoom
      (.object (setMember lastName .null (dropMember listName members))) :=
    (h.dropMember (r := nestingRoom - 1) listName).setMember (r := nestingRoom - 1)
      storable_lastName .null
  have hsessions : Json.Storable (nestingRoom - 1)
      (.object (dropMember name (sessionsOf members))) :=
    (storable_sessionsOf h).dropMember (r := nestingRoom - 2) name
  exact hothers.setMember (r := nestingRoom - 1) storable_listName hsessions

/-- A workspace that has forgotten its session is read again as it was written. -/
theorem Remembers.read_forget (h : Remembers members name w)
    (hmembers : Json.Storable nestingRoom (.object members)) :
    readWorkspace (some (w.forget (.str name)).toJson.render) =
      .ok (.object (forgotten members name)) := by
  rw [h.forget]
  exact readWorkspace_some (Json.read_write (storable_forgotten hmembers name))

/-- A workspace in which a session is remembered says so when it is read again. -/
theorem Remembers.read (h : Remembers members name w) (hname : Text.Storable name.toList)
    (hmembers : Json.Storable nestingRoom (.object members)) :
    ∃ j, readWorkspace (some w.toJson.render) = .ok j ∧ j.get? lastName = some (.str name) := by
  obtain ⟨record, hrecord, hsessions⟩ := h.sessions
  have hdocument : w.toJson = .object (setMember listName
      (.object (setMember name (.object record) (sessionsOf members)))
      (setMember lastName (.str name) (dropMember listName members))) := by
    rw [Workspace.toJson, Workspace.allSessions, h.apart, hsessions, h.others,
      Json.setMember_of_not_mem (listName_not_mem (.str name))]
  have hothers : Json.Writable nestingRoom
      (.object (setMember lastName (.str name) (dropMember listName members))) :=
    (hmembers.dropMember (r := nestingRoom - 1) listName).writable.setMember
      (r := nestingRoom - 1) storable_lastName (.str name)
  have hlist : Json.Writable (nestingRoom - 1)
      (.object (setMember name (.object record) (sessionsOf members))) :=
    (storable_sessionsOf hmembers).writable.setMember (r := nestingRoom - 2) hname hrecord
  have hwritable := hothers.setMember (r := nestingRoom - 1) storable_listName hlist
  have hread : readWorkspace (some w.toJson.render) = .ok w.toJson.joined := by
    rw [hdocument]
    exact readWorkspace_some hwritable.read_write
  have hne : lastName ≠ listName := by decide
  refine ⟨_, hread, ?_⟩
  rw [hdocument, Json.joined, Json.get?, Json.lookup_joinedMembers, Json.lookup_setMember,
    if_neg hne, Json.lookup_setMember, if_pos rfl, Option.map_some, Json.joined,
    hname.joinedString_eq]

end Shell
end DeskCalc
