import DeskCalc.Proofs.Settings
import DeskCalc.Proofs.Shell.Dialogue
import DeskCalc.Shell.Run

/-!
# What a dialogue leaves behind

A dialogue leaves the row of its session and what the workspace says of it in agreement: a session
that is kept has a row with the state that was reached and is the last session, and one that is not
has neither a row nor a record.  No other row changes.

A session that is not kept is forgotten as the last one, but the session that was the last one
before it does not come back.  A run that keeps nothing therefore leaves everything as it was if and
only if there was no last session.
-/

namespace DeskCalc.Shell

open Session (restoreRow)

variable {env : Settings.Environment} {c : Circumstances} {words : List String} {a : Arguments}
  {members : List (String × Json)} {d : Desk}

theorem run_eq_runDialogue (hwords : Arguments.read words = .accepted a)
    (hexpressions : a.expressions = []) : run c words d = runDialogue c a d := by
  have hprepare : prepare c.settings.limits words d = .inr a := by
    simp only [prepare, hwords, hexpressions]
    rfl
  rw [run, hprepare]

/-- A dialogue about a session that can be asked for ends with the session kept or dropped. -/
theorem runDialogue_ends (hd : d.Sound c.settings.limits members)
    (hlength : c.settings.limits.history < 10 ^ Number.digitLimit)
    (hhalf : ∀ name, asked? a members = some name → Text.hasHalf name.toList = false) :
    (runDialogue c a d).ending = .exit 0 ∧
      if keeps a.keep c.typed = true then
        Kept c.settings.limits members d (beginning c.settings.limits a members d).1
          ((beginning c.settings.limits a members d).2.after (submitted c.typed))
          (runDialogue c a d).desk
      else Dropped members d (beginning c.settings.limits a members d).1
        (runDialogue c a d).desk := by
  obtain ⟨said, sh, hopen, hsession, hkeep, huse⟩ :=
    exists_openShell hd hlength hhalf c.completes c.now
  have hends := huse.ends hlength c.now c.typed
  rw [Ends, hsession, hkeep] at hends
  have hrun : (runDialogue c a d).ending = .exit 0 ∧
      (runDialogue c a d).desk = (sh.converse c.now c.typed).1 := by
    rw [runDialogue, hopen]
    exact ⟨rfl, rfl⟩
  refine ⟨hrun.1, ?_⟩
  rw [hrun.2]
  exact hends

/-! ## Rows and records -/

variable {limits : Limits} {name : String} {s : Session} {left : Desk}

theorem Kept.last (h : Kept limits members d name s left) (hname : Text.Storable name.toList)
    (hd : d.Sound limits members) :
    ∃ j, readWorkspace left.file = .ok j ∧ j.get? lastName = some (.str name) := by
  obtain ⟨w, hfile, hw⟩ := h.file
  rw [hfile]
  exact hw.read hname hd.tells.storable

theorem Dropped.read (h : Dropped members d name left) (hd : d.Sound limits members) :
    readWorkspace left.file = .ok (.object (forgotten members name)) := by
  obtain ⟨w, hfile, hw⟩ := h.file
  rw [hfile]
  exact hw.read_forget hd.tells.storable

/-- What a workspace has under a name, unless this counts as empty. -/
def recorded? (members : List (String × Json)) (name : String) : Option Json :=
  (members.lookup name).filter fun j => !j.isEmpty

theorem lastSession?_object (members : List (String × Json)) :
    lastSession? (.object members) = .ok (recorded? members lastName) := by
  simp only [lastSession?, recorded?]
  cases members.lookup lastName with
  | none => rfl
  | some j =>
    simp only [Option.filter_some]
    cases j.isEmpty with
    | true => rfl
    | false => rfl

theorem lookup_forgotten (members : List (String × Json)) (name n : String) :
    (forgotten members name).lookup n =
      if n = listName then some (.object (Json.dropMember name (sessionsOf members)))
      else if n = lastName then some .null
      else members.lookup n := by
  rw [forgotten, Json.lookup_setMember, Json.lookup_setMember, Json.lookup_dropMember]
  by_cases hlist : n = listName
  · rw [if_pos hlist, if_pos hlist]
  · rw [if_neg hlist, if_neg hlist, if_neg hlist]

/-- A workspace that has forgotten its session has no last session. -/
theorem recorded?_forgotten_last (members : List (String × Json)) (name : String) :
    recorded? (forgotten members name) lastName = none := by
  rw [recorded?, lookup_forgotten, if_neg (by decide), if_pos rfl]
  rfl

/-- An empty object is restored as a fresh session. -/
theorem restoreRow_empty (limits : Limits) :
    restoreRow limits "\x7b\x7d" = .ok (some (.fresh limits)) := by
  have htext : "\x7b\x7d" = String.ofList (Text.ofChars "\x7b\x7d".toList) := by decide
  have hread : Json.read (Text.ofChars "\x7b\x7d".toList) = .ok (.object []) := rfl
  rw [htext, Session.restoreRow_eq, hread]
  exact congrArg (Except.map some) (Session.restore_empty limits)

/-- A desk with a single row, which is an empty object, after some names have been given out. -/
def Desk.single (name : String) (issued : Nat) (file : Option String) : Desk :=
  ⟨⟨[(name, "\x7b\x7d")], false, false, false, issued⟩, file⟩

theorem sound_single (limits : Limits) {name : String} {issued : Nat}
    (hnext : Store.sessionName (issued + 1) ≠ name) {file : Option String}
    (hfile : Tells file members) (horder : InOrder members) :
    (Desk.single name issued file).Sound limits members where
  inReach := rfl
  unprotected := rfl
  rows := by
    have htext : "\x7b\x7d" = String.ofList (Text.ofChars "\x7b\x7d".toList) := by decide
    intro other text hrow
    rw [Store.text?, Desk.single, Json.lookup_cons_eq_ite] at hrow
    split at hrow
    · cases hrow
      exact ⟨⟨_, htext⟩, _, restoreRow_empty limits⟩
    · cases hrow
  next := by
    rw [Store.text?, Desk.single, Json.lookup_cons_eq_ite, if_neg hnext]
    rfl
  tells := hfile
  order := horder

theorem recorded?_sessions (horder : InOrder members) :
    (if (sessionsOf members).isEmpty then none else some (.object (sessionsOf members))) =
      recorded? members listName := by
  rw [recorded?, sessionsOf]
  cases hlist : members.lookup listName with
  | none => rfl
  | some j =>
    obtain ⟨sessions, rfl, -⟩ := horder.list j hlist
    rw [Option.filter_some, Json.isEmpty]
    cases sessions.isEmpty with
    | true => rfl
    | false => rfl

/-- Forgetting a session that was not listed changes no entry but that of the last session. -/
theorem recorded?_forgotten (horder : InOrder members)
    (hname : name ∉ (sessionsOf members).map Prod.fst) {n : String} (hn : n ≠ lastName) :
    recorded? (forgotten members name) n = recorded? members n := by
  by_cases hlist : n = listName
  · rw [hlist, ← recorded?_sessions horder, recorded?, lookup_forgotten, if_pos rfl,
      Json.dropMember_of_not_mem hname, Option.filter_some, Json.isEmpty]
    cases (sessionsOf members).isEmpty with
    | true => rfl
    | false => rfl
  · rw [recorded?, recorded?, lookup_forgotten, if_neg hlist, if_neg hn]

/-- A dialogue about a new session that is not kept leaves all rows as they were, and all entries of
the workspace but one: there is no last session afterwards, whatever it was before.  So nothing has
changed if and only if there was none. -/
theorem temporary_dialogue (hsettings : Settings.read env = .ok c.settings)
    (hwords : Arguments.read words = .accepted a) (hexpressions : a.expressions = [])
    (hd : d.Sound c.settings.limits members)
    (hhalf : ∀ name, asked? a members = some name → Text.hasHalf name.toList = false)
    (hnew : resumed? c.settings.limits a members d = none)
    (hunlisted : Store.sessionName (d.store.issued + 1) ∉ (sessionsOf members).map Prod.fst)
    (hkeeps : keeps a.keep c.typed = false) :
    (run c words d).ending = .exit 0 ∧ (run c words d).desk.store.rows = d.store.rows ∧
      ∃ after, readWorkspace (run c words d).desk.file = .ok (.object after) ∧
        (∀ name, name ≠ lastName → recorded? after name = recorded? members name) ∧
        lastSession? (.object after) = .ok none ∧
        ((∀ name, recorded? after name = recorded? members name) ↔
          lastSession? (.object members) = .ok none) := by
  have hname : (beginning c.settings.limits a members d).1 =
      Store.sessionName (d.store.issued + 1) := by
    rw [beginning, hnew]
    rfl
  obtain ⟨hexit, hends⟩ := runDialogue_ends hd (Settings.history_limits_lt hsettings) hhalf
  rw [hkeeps, if_neg Bool.false_ne_true, hname] at hends
  rw [run_eq_runDialogue hwords hexpressions]
  have hothers : ∀ n, n ≠ lastName →
      recorded? (forgotten members (Store.sessionName (d.store.issued + 1))) n = recorded? members n :=
    fun n hn => recorded?_forgotten hd.order hunlisted hn
  refine ⟨hexit, ?_, _, hends.read hd, hothers, ?_, ?_⟩
  · exact hends.rows.trans (Store.rows_drop_of_none hd.next)
  · rw [lastSession?_object, recorded?_forgotten_last]
  · rw [lastSession?_object]
    constructor
    · intro hsame
      rw [← hsame lastName, recorded?_forgotten_last]
    · intro hnone n
      by_cases hn : n = lastName
      · rw [hn, recorded?_forgotten_last, Except.ok.inj hnone]
      · exact hothers n hn

/-- A dialogue about a new session where nothing is remembered. -/
theorem temporary_dialogue_first :
    ∃ settings, Settings.read (fun _ => none) = .ok settings ∧
      (run ⟨settings, false, "now", [.line "x = 1"]⟩ ["-n"]
        (.single "mine" 0 none)).desk.store.rows = [("mine", "\x7b\x7d")] := by
  obtain ⟨settings, hsettings⟩ : ∃ settings, Settings.read (fun _ => none) = .ok settings :=
    ⟨_, rfl⟩
  have hnext : Store.sessionName (0 + 1) ≠ "mine" := by decide
  have hd := sound_single settings.limits hnext .missing ⟨nofun, nofun⟩
  have hkeeps : keeps false [.line "x = 1"] = false := by decide +kernel
  have hwords : Arguments.read ["-n"] = .accepted ⟨none, false, true, []⟩ := by decide
  have hleft := temporary_dialogue (c := ⟨settings, false, "now", [.line "x = 1"]⟩) hsettings hwords
    rfl hd nofun rfl List.not_mem_nil hkeeps
  exact ⟨settings, hsettings, hleft.2.1⟩

/-- A workspace file that has a last session and no records. -/
def lastOnly : String := "\x7b\"last_session_id\": \"session-1\"\x7d"

theorem lastOnly_tells : Tells (some lastOnly) [(lastName, .str "session-1")] := by
  have hname : Text.mark ∉ "session-1".toList := by decide
  have hstorable : Json.Storable Json.nestingRoom (.object [(lastName, .str "session-1")]) :=
    .object (List.nodup_singleton _) (List.forall_mem_singleton.mpr storable_lastName)
      (List.forall_mem_singleton.mpr (.str (Text.storable_of_mark_not_mem hname)))
  have htext : lastOnly = String.ofList (Text.ofChars lastOnly.toList) := by decide +kernel
  have hwrite : Text.ofChars lastOnly.toList =
      Json.write (.object [(lastName, .str "session-1")]) := by
    decide +kernel
  have hread : Json.read (Text.ofChars lastOnly.toList) =
      .ok (.object [(lastName, .str "session-1")]) := by
    rw [hwrite]
    exact Json.read_write hstorable
  rw [htext]
  exact .written hread

/-- A dialogue about a new session that nobody keeps loses the session that was kept as the last
one, so that the next run does not go on with it. -/
theorem kept_session_lost :
    ∃ settings before after, Settings.read (fun _ => none) = .ok settings ∧
      readWorkspace (some lastOnly) = .ok before ∧
      readWorkspace (run ⟨settings, false, "now", []⟩ ["-n"]
        (.single "session-1" 1 (some lastOnly))).desk.file = .ok after ∧
      lastSession? before = .ok (some (.str "session-1")) ∧ lastSession? after = .ok none := by
  obtain ⟨settings, hsettings⟩ : ∃ settings, Settings.read (fun _ => none) = .ok settings :=
    ⟨_, rfl⟩
  have horder : InOrder [(lastName, .str "session-1")] := by
    constructor
    · intro j hj
      cases hj
    · intro j hj
      cases hj
      exact .inr ⟨_, rfl⟩
  have hnext : Store.sessionName (1 + 1) ≠ "session-1" := by decide
  have hd := sound_single settings.limits hnext lastOnly_tells horder
  have hwords : Arguments.read ["-n"] = .accepted ⟨none, false, true, []⟩ := by decide
  have hends := (runDialogue_ends (c := ⟨settings, false, "now", []⟩)
    (a := ⟨none, false, true, []⟩) hd (Settings.history_limits_lt hsettings) nofun).2
  have hleft := hends.read hd
  rw [← run_eq_runDialogue hwords rfl] at hleft
  refine ⟨settings, _, _, hsettings, lastOnly_tells.readWorkspace, hleft, ?_, ?_⟩
  · rw [lastSession?_object]
    rfl
  · rw [lastSession?_object, recorded?_forgotten_last]

end DeskCalc.Shell
