import DeskCalc.Proofs.Json.Members
import DeskCalc.Proofs.Json.Numbers
import DeskCalc.Proofs.Json.Strings

/-!
# Documents read back

A document can be written for reading if its objects have every name once, if its integers have no
more digits than are read, and if its parts are not nested too deeply.  It is read back from its own
text, with the halves of pairs joined that meet in its strings.  A document is storable if no halves
meet.  These are the documents that texts can give.
-/

namespace DeskCalc.Json

open Number (natText)
open Text (StopsBefore stopsBefore_cons)

/-- A number that documents can hold: all but the NaNs that no text gives. -/
def StorableFloat (x : Float) : Prop :=
  x.isFinite = true ∨ x = Number.infinity ∨ x = -Number.infinity ∨ x = Number.notANumber

/-- A document that is not nested more deeply than there is room, and that a text can give. -/
inductive Storable : Nat → Json → Prop
  | null {room : Nat} : Storable room null
  | bool {room : Nat} (b : Bool) : Storable room (bool b)
  | int {room : Nat} {n : Int} (hn : (natText n.natAbs).length ≤ Number.digitLimit) :
    Storable room (int n)
  | float {room : Nat} {x : Float} (hx : StorableFloat x) : Storable room (float x)
  | str {room : Nat} {s : String} (hs : Text.Storable s.toList) : Storable room (str s)
  | list {room : Nat} {items : List Json} (hitems : ∀ j ∈ items, Storable room j) :
    Storable (room + 1) (list items)
  | object {room : Nat} {members : List (String × Json)}
    (hnames : (members.map Prod.fst).Nodup) (hstorable : ∀ m ∈ members, Text.Storable m.1.toList)
    (hvalues : ∀ m ∈ members, Storable room m.2) : Storable (room + 1) (object members)

/-- A document that is not nested more deeply than there is room, and that can be read back apart
from halves of pairs that meet. -/
inductive Writable : Nat → Json → Prop
  | null {room : Nat} : Writable room null
  | bool {room : Nat} (b : Bool) : Writable room (bool b)
  | int {room : Nat} {n : Int} (hn : (natText n.natAbs).length ≤ Number.digitLimit) :
    Writable room (int n)
  | float {room : Nat} {x : Float} (hx : StorableFloat x) : Writable room (float x)
  | str {room : Nat} (s : String) : Writable room (str s)
  | list {room : Nat} {items : List Json} (hitems : ∀ j ∈ items, Writable room j) :
    Writable (room + 1) (list items)
  | object {room : Nat} {members : List (String × Json)}
    (hnames : (members.map Prod.fst).Nodup) (hstorable : ∀ m ∈ members, Text.Storable m.1.toList)
    (hvalues : ∀ m ∈ members, Writable room m.2) : Writable (room + 1) (object members)

mutual

/-- A document in which the halves of pairs that meet in strings are joined.  The names of objects
are left as they are. -/
def joined : Json → Json
  | str s => str (Text.joinedString s)
  | list items => list (joinedItems items)
  | object members => object (joinedMembers members)
  | j => j

/-- The items of a list, joined. -/
def joinedItems : List Json → List Json
  | [] => []
  | item :: items => joined item :: joinedItems items

/-- The members of an object, joined. -/
def joinedMembers : List (String × Json) → List (String × Json)
  | [] => []
  | (name, value) :: members => (name, joined value) :: joinedMembers members

end

theorem joinedItems_eq_map (items : List Json) : joinedItems items = items.map joined := by
  induction items with
  | nil => rw [joinedItems, List.map_nil]
  | cons j items ih => rw [joinedItems, ih, List.map_cons]

theorem joinedMembers_eq_map (members : List (String × Json)) :
    joinedMembers members = members.map fun m => (m.1, joined m.2) := by
  induction members with
  | nil => rw [joinedMembers, List.map_nil]
  | cons m members ih =>
    obtain ⟨name, value⟩ := m
    rw [joinedMembers, ih, List.map_cons]

theorem Storable.writable {room : Nat} {j : Json} (h : Storable room j) : Writable room j := by
  induction h with
  | null => exact .null
  | bool b => exact .bool b
  | int hn => exact .int hn
  | float hx => exact .float hx
  | @str _ s _ => exact .str s
  | list _ ih => exact .list ih
  | object hnames hstorable _ ih => exact .object hnames hstorable ih

theorem Writable.joined {room : Nat} {j : Json} (h : Writable room j) : Writable room j.joined := by
  induction h with
  | null => exact .null
  | bool b => exact .bool b
  | int hn => exact .int hn
  | float hx => exact .float hx
  | str s => exact .str _
  | list _ ih =>
    rw [Json.joined, joinedItems_eq_map]
    exact .list (List.forall_mem_map.mpr ih)
  | object hnames hstorable _ ih =>
    rw [Json.joined, joinedMembers_eq_map]
    refine .object ?_ (List.forall_mem_map.mpr hstorable) (List.forall_mem_map.mpr ih)
    rw [List.map_map]
    exact hnames

theorem Storable.joined_eq {room : Nat} {j : Json} (h : Storable room j) : joined j = j := by
  induction h with
  | str hs => rw [joined, hs.joinedString_eq]
  | list _ ih =>
    rw [joined, joinedItems_eq_map, List.map_congr_left ih, List.map_id']
  | object _ _ _ ih =>
    have heq := List.map_congr_left fun m hm => congrArg (Prod.mk m.1) (ih m hm)
    rw [joined, joinedMembers_eq_map, heq, List.map_id']
  | _ => rw [joined] <;> exact nofun

theorem Storable.mono {room more : Nat} {j : Json} (h : Storable room j) (hle : room ≤ more) :
    Storable more j := by
  induction h generalizing more with
  | null => exact .null
  | bool b => exact .bool b
  | int hn => exact .int hn
  | float hx => exact .float hx
  | str hs => exact .str hs
  | list _ ih =>
    obtain ⟨m, rfl⟩ : ∃ m, more = m + 1 := ⟨more - 1, by omega⟩
    exact .list fun j hj => ih j hj (by omega)
  | object hnames hstorable _ ih =>
    obtain ⟨m, rfl⟩ : ∃ m, more = m + 1 := ⟨more - 1, by omega⟩
    exact .object hnames hstorable fun v hv => ih v hv (by omega)

/-! ## How documents begin -/

/-- The characters that numbers and words begin with. -/
def isAtomHead (c : Char) : Bool :=
  c.isAlphanum || c == '-'

theorem isAtomHead_of_isDigit {c : Char} (h : c.isDigit = true) : isAtomHead c = true := by
  simp [isAtomHead, Char.isAlphanum, h]

theorem intText_head (n : Int) : ∃ c s, Number.intText n = c :: s ∧ isAtomHead c = true := by
  obtain ⟨c, s, hs⟩ := List.exists_cons_of_ne_nil (Number.natText_ne_nil n.natAbs)
  rw [Number.intText, hs]
  split
  · exact ⟨'-', _, rfl, rfl⟩
  · exact ⟨c, s, rfl, isAtomHead_of_isDigit (Number.isDigit_of_mem_natText (hs ▸ List.mem_cons_self))⟩

theorem text_notANumber : Number.documentLayout.text Number.notANumber = "NaN".toList := by
  decide

theorem text_infinity : Number.documentLayout.text Number.infinity = "Infinity".toList := by
  decide

theorem text_neg_infinity :
    Number.documentLayout.text (-Number.infinity) = "-Infinity".toList := by
  decide

theorem floatText_head {x : Float} (hx : StorableFloat x) :
    ∃ c s, Number.documentLayout.text x = c :: s ∧ isAtomHead c = true := by
  rcases hx with hx | rfl | rfl | rfl
  · obtain ⟨d, text, -, ⟨whole, fraction, power, hparts, rfl, -⟩, htext⟩ := exists_numeral hx
    obtain ⟨c, t, rfl, hc⟩ : ∃ c t, whole = c :: t ∧ c.isDigit = true := by
      rcases hparts.whole_digits with rfl | ⟨hdigits, c, t, rfl, -⟩
      · exact ⟨'0', [], rfl, rfl⟩
      · exact ⟨c, t, rfl, hdigits c List.mem_cons_self⟩
    rw [htext]
    cases Number.signBit x with
    | true => exact ⟨'-', _, rfl, rfl⟩
    | false => exact ⟨c, _, rfl, isAtomHead_of_isDigit hc⟩
  · exact ⟨_, _, text_infinity, rfl⟩
  · exact ⟨_, _, text_neg_infinity, rfl⟩
  · exact ⟨_, _, text_notANumber, rfl⟩

theorem isSpace_of_isAtomHead {c : Char} (h : isAtomHead c = true) :
    isSpace c = false ∧ c ≠ '"' ∧ c ≠ '[' ∧ c ≠ '\x7b' ∧ c ≠ ']' := by
  have hne {d : Char} (hd : isAtomHead d = false) : c ≠ d := by
    rintro rfl
    rw [hd] at h
    cases h
  refine ⟨?_, hne (by decide), hne (by decide), hne (by decide), hne (by decide)⟩
  have hspace : c ≠ ' ' ∧ c ≠ '\t' ∧ c ≠ '\n' ∧ c ≠ '\r' :=
    ⟨hne (by decide), hne (by decide), hne (by decide), hne (by decide)⟩
  simp [isSpace, hspace]

theorem writeString_head (s : String) : ∃ t, writeString s = '"' :: t :=
  ⟨_, rfl⟩

theorem write_head {room : Nat} {j : Json} (h : Writable room j) :
    ∃ c s, write j = c :: s ∧ isSpace c = false ∧ c ≠ ']' := by
  have hatom {c : Char} (hc : isAtomHead c = true) : isSpace c = false ∧ c ≠ ']' :=
    ⟨(isSpace_of_isAtomHead hc).1, (isSpace_of_isAtomHead hc).2.2.2.2⟩
  cases h with
  | null => exact ⟨'n', _, rfl, by decide, by decide⟩
  | bool b =>
    cases b with
    | true => exact ⟨'t', _, rfl, by decide, by decide⟩
    | false => exact ⟨'f', _, rfl, by decide, by decide⟩
  | int =>
    rw [write]
    obtain ⟨c, s, hs, hc⟩ := intText_head _
    exact ⟨c, s, hs, hatom hc⟩
  | float hx =>
    obtain ⟨c, s, hs, hc⟩ := floatText_head hx
    exact ⟨c, s, by rw [write, hs], hatom hc⟩
  | str => exact ⟨'"', _, rfl, by decide, by decide⟩
  | list => exact ⟨'[', _, rfl, by decide, by decide⟩
  | object => exact ⟨'\x7b', _, rfl, by decide, by decide⟩

/-! ## Reading atoms back -/

theorem skipSpace_cons {c : Char} {s : Text} (hc : isSpace c = false) :
    skipSpace (c :: s) = c :: s :=
  List.dropWhile_cons_of_neg (by rw [hc]; exact Bool.false_ne_true)

theorem readValue_atom {c : Char} {s : Text} (hc : isAtomHead c = true) (fuel room : Nat) :
    readValue (fuel + 1) room (c :: s) = readAtom (c :: s) := by
  obtain ⟨-, hquote, hlist, hobject, -⟩ := isSpace_of_isAtomHead hc
  rw [readValue]
  simp only [if_neg hquote, if_neg hlist, if_neg hobject]

theorem readAtom_storableFloat {x : Float} (hx : StorableFloat x) {rest : Text}
    (hrest : StopsBefore isNumberPart rest) :
    readAtom (Number.documentLayout.text x ++ rest) = .ok (float x, rest) := by
  rcases hx with hx | rfl | rfl | rfl
  · exact readAtom_float hx hrest
  · rw [text_infinity]
    rfl
  · rw [text_neg_infinity]
    rfl
  · rw [text_notANumber]
    rfl

/-! ## Reading lists and objects back -/

section Parts

variable {room : Nat} (rest : Text)

/-- A document is read back from its text, joined, whatever follows it. -/
def ReadsBack (room : Nat) (j : Json) : Prop :=
  ∀ rest, StopsBefore isNumberPart rest → ∀ fuel ≥ (write j).length,
    readValue fuel room (write j ++ rest) = .ok (joined j, rest)

theorem readItems_writeItems {items : List Json} (hne : items ≠ [])
    (hitems : ∀ j ∈ items, Writable room j) (hread : ∀ j ∈ items, ReadsBack room j) :
    ∀ fuel ≥ (writeItems items).length + 1,
      readItems fuel room (writeItems items ++ ']' :: rest) = .ok (items.map joined, rest) := by
  induction items with
  | nil => exact absurd rfl hne
  | cons j items ih =>
    intro fuel hfuel
    have hj := hread j List.mem_cons_self
    rw [writeItems, List.length_append, List.length_append] at hfuel
    obtain ⟨f, rfl⟩ : ∃ f, fuel = f + 1 := ⟨fuel - 1, by omega⟩
    rw [writeItems, readItems]
    cases items with
    | nil =>
      have hclose : StopsBefore isNumberPart (']' :: rest) := by
        rw [stopsBefore_cons]
        decide
      simp only [List.isEmpty_nil, if_true, writeItems, List.append_nil]
      rw [hj _ hclose f (by omega)]
      rfl
    | cons k items =>
      have hcomma (s : Text) : StopsBefore isNumberPart (',' :: s) := by
        rw [stopsBefore_cons]
        decide
      simp only [List.isEmpty_cons, Bool.false_eq_true, if_false, List.append_assoc,
        List.cons_append, List.nil_append]
      rw [hj _ (hcomma _) f (by omega)]
      have hitems' := fun i hi => hitems i (List.mem_cons_of_mem j hi)
      have hrest := ih (List.cons_ne_nil k items) hitems'
        (fun i hi => hread i (List.mem_cons_of_mem j hi)) f (by simp at hfuel; omega)
      obtain ⟨c, s, hs, hspace, -⟩ := write_head (hitems' k List.mem_cons_self)
      have hskip : skipSpace (' ' :: (writeItems (k :: items) ++ ']' :: rest)) =
          writeItems (k :: items) ++ ']' :: rest := by
        rw [writeItems, hs]
        exact skipSpace_cons hspace
      simp only [bind, Except.bind, skipSpace_cons (show isSpace ',' = false by decide), hskip,
        hrest]
      rfl

theorem length_writeMembers_cons (name : String) (j : Json) (members : List (String × Json)) :
    (write j).length + (writeMembers members).length + 2 ≤
      (writeMembers ((name, j) :: members)).length := by
  simp only [writeMembers, List.length_append, List.length_cons, List.length_nil]
  omega

/-- The name and the value of a member are read back from its text. -/
theorem member_readsBack {name : String} {j : Json} (hname : Text.Storable name.toList)
    (hj : Writable room j) (hread : ReadsBack room j) {fuel : Nat} (hfuel : fuel ≥ (write j).length)
    {tail : Text} (htail : StopsBefore isNumberPart tail) :
    ∃ s, writeString name ++ ':' :: ' ' :: (write j ++ tail) = '"' :: s ∧
      readString s = .ok (name, ':' :: ' ' :: (write j ++ tail)) ∧
      readValue fuel room (skipSpace (' ' :: (write j ++ tail))) = .ok (joined j, tail) := by
  obtain ⟨body, hbody, hstring⟩ := readString_writeString name (':' :: ' ' :: (write j ++ tail))
  rw [hname.joinedString_eq] at hstring
  refine ⟨body ++ ':' :: ' ' :: (write j ++ tail), ?_, hstring, ?_⟩
  · rw [hbody, List.cons_append]
  · obtain ⟨c, s, hs, hspace, -⟩ := write_head hj
    have hskip : skipSpace (' ' :: (write j ++ tail)) = write j ++ tail := by
      rw [hs]
      exact skipSpace_cons hspace
    rw [hskip]
    exact hread tail htail fuel hfuel

theorem readMembers_writeMembers {members done : List (String × Json)} (hne : members ≠ [])
    (hnames : ((done ++ members).map Prod.fst).Nodup)
    (hstorable : ∀ m ∈ members, Text.Storable m.1.toList)
    (hvalues : ∀ m ∈ members, Writable room m.2) (hread : ∀ m ∈ members, ReadsBack room m.2) :
    ∀ fuel ≥ (writeMembers members).length + 1,
      readMembers fuel room done (writeMembers members ++ '\x7d' :: rest) =
        .ok (done ++ members.map fun m => (m.1, joined m.2), rest) := by
  induction members generalizing done with
  | nil => exact absurd rfl hne
  | cons m members ih =>
    obtain ⟨name, j⟩ := m
    intro fuel hfuel
    have hlength := length_writeMembers_cons name j members
    obtain ⟨f, rfl⟩ : ∃ f, fuel = f + 1 := ⟨fuel - 1, by omega⟩
    have hset : setMember name (joined j) done = done ++ [(name, joined j)] := by
      rw [List.map_append, List.nodup_append] at hnames
      exact setMember_of_not_mem fun hmem => hnames.2.2 name hmem name List.mem_cons_self rfl
    have hcolon (s : Text) : skipSpace (':' :: s) = ':' :: s := skipSpace_cons (by decide)
    have hmember {tail : Text} := @member_readsBack room name j (hstorable _ List.mem_cons_self)
      (hvalues _ List.mem_cons_self) (hread _ List.mem_cons_self) f (by omega) tail
    cases members with
    | nil =>
      have htext : writeMembers [(name, j)] ++ '\x7d' :: rest =
          writeString name ++ ':' :: ' ' :: (write j ++ '\x7d' :: rest) := by
        simp [writeMembers]
      have hclose : StopsBefore isNumberPart ('\x7d' :: rest) := by
        rw [stopsBefore_cons]
        decide
      obtain ⟨s, hs, hname, hvalue⟩ := hmember hclose
      rw [htext, hs, readMembers]
      simp only [bind, Except.bind, hname, hcolon, hvalue, hset]
      rfl
    | cons k members =>
      have htext : writeMembers ((name, j) :: k :: members) ++ '\x7d' :: rest =
          writeString name ++ ':' :: ' ' ::
            (write j ++ ',' :: ' ' :: (writeMembers (k :: members) ++ '\x7d' :: rest)) := by
        simp [writeMembers]
      have hcomma : StopsBefore isNumberPart
          (',' :: ' ' :: (writeMembers (k :: members) ++ '\x7d' :: rest)) := by
        rw [stopsBefore_cons]
        decide
      have hskip : skipSpace (' ' :: (writeMembers (k :: members) ++ '\x7d' :: rest)) =
          writeMembers (k :: members) ++ '\x7d' :: rest := by
        obtain ⟨t, ht⟩ := writeString_head k.1
        rw [writeMembers, ht]
        exact skipSpace_cons (show isSpace '"' = false by decide)
      have hmore := @ih (done ++ [(name, joined j)]) (List.cons_ne_nil k members)
        (by simpa using hnames) (fun i hi => hstorable i (List.mem_cons_of_mem _ hi))
        (fun i hi => hvalues i (List.mem_cons_of_mem _ hi))
        (fun i hi => hread i (List.mem_cons_of_mem _ hi)) f (by omega)
      obtain ⟨s, hs, hname, hvalue⟩ := hmember hcomma
      rw [htext, hs, readMembers]
      simp only [bind, Except.bind, hname, hcolon, hvalue, hset,
        skipSpace_cons (show isSpace ',' = false by decide), hskip]
      rw [hmore, List.append_assoc, List.singleton_append]
      rfl

end Parts

theorem exists_fuel {j : Json} {fuel : Nat} (h : fuel ≥ (write j).length)
    (hne : write j ≠ []) : ∃ f, fuel = f + 1 := by
  have hpos := List.length_pos_iff.mpr hne
  exact ⟨fuel - 1, by omega⟩

theorem readsBack_atom {room : Nat} {j : Json}
    (hhead : ∃ c s, write j = c :: s ∧ isAtomHead c = true)
    (hread : ∀ rest, StopsBefore isNumberPart rest → readAtom (write j ++ rest) = .ok (j, rest))
    (hjoined : joined j = j) : ReadsBack room j := by
  intro rest hrest fuel hfuel
  obtain ⟨c, s, hs, hc⟩ := hhead
  obtain ⟨f, rfl⟩ := exists_fuel hfuel (hs ▸ List.cons_ne_nil c s)
  have hatom := hread rest hrest
  rw [hjoined]
  rw [hs] at hatom ⊢
  exact (readValue_atom hc f room).trans hatom

theorem readsBack_list {room : Nat} {items : List Json} (hitems : ∀ j ∈ items, Writable room j)
    (hread : ∀ j ∈ items, ReadsBack room j) : ReadsBack (room + 1) (list items) := by
  intro rest _ fuel hfuel
  obtain ⟨f, rfl⟩ := exists_fuel hfuel (List.cons_ne_nil _ _)
  have htext : write (list items) ++ rest = '[' :: (writeItems items ++ ']' :: rest) := by
    rw [write]
    simp
  rw [htext, readValue]
  cases items with
  | nil => rfl
  | cons j items =>
    have hlist := readItems_writeItems rest (List.cons_ne_nil j items) hitems hread f
      (by rw [write] at hfuel; simp at hfuel; omega)
    obtain ⟨c, s, hs, hspace, hclose⟩ := write_head (hitems j List.mem_cons_self)
    have hfirst : ∃ t, writeItems (j :: items) ++ ']' :: rest = c :: t := by
      rw [writeItems, hs]
      exact ⟨_, rfl⟩
    obtain ⟨t, ht⟩ := hfirst
    rw [ht] at hlist ⊢
    rw [skipSpace_cons hspace, if_neg (by decide), if_pos rfl, if_neg (Nat.succ_ne_zero room)]
    split
    next heq => exact absurd (List.cons.inj heq).1 hclose
    · rw [Nat.add_sub_cancel, hlist, joined, joinedItems_eq_map]
      rfl

theorem readsBack_object {room : Nat} {members : List (String × Json)}
    (hnames : (members.map Prod.fst).Nodup) (hstorable : ∀ m ∈ members, Text.Storable m.1.toList)
    (hvalues : ∀ m ∈ members, Writable room m.2) (hread : ∀ m ∈ members, ReadsBack room m.2) :
    ReadsBack (room + 1) (object members) := by
  intro rest _ fuel hfuel
  obtain ⟨f, rfl⟩ := exists_fuel hfuel (List.cons_ne_nil _ _)
  have htext : write (object members) ++ rest =
      '\x7b' :: (writeMembers members ++ '\x7d' :: rest) := by
    rw [write]
    simp
  rw [htext, readValue]
  cases members with
  | nil => rfl
  | cons m members =>
    have hobject : readMembers f room [] (writeMembers (m :: members) ++ '\x7d' :: rest) =
        .ok ((m :: members).map fun m => (m.1, joined m.2), rest) :=
      readMembers_writeMembers rest (List.cons_ne_nil m members) hnames hstorable hvalues hread f
        (by rw [write] at hfuel; simp at hfuel; omega)
    obtain ⟨t, ht⟩ : ∃ t, writeMembers (m :: members) ++ '\x7d' :: rest = '"' :: t := by
      obtain ⟨t, ht⟩ := writeString_head m.1
      rw [writeMembers, ht]
      exact ⟨_, rfl⟩
    rw [ht] at hobject ⊢
    rw [skipSpace_cons (by decide), if_neg (by decide), if_neg (by decide), if_pos rfl,
      if_neg (Nat.succ_ne_zero room)]
    split
    next heq => exact absurd (List.cons.inj heq).1 (by decide)
    · rw [Nat.add_sub_cancel, hobject, joined, joinedMembers_eq_map]
      rfl

/-- Every document that can be written for reading is read back from its text, joined, whatever
follows it. -/
theorem Writable.readsBack {room : Nat} {j : Json} (h : Writable room j) : ReadsBack room j := by
  induction h with
  | null => exact readsBack_atom ⟨'n', _, rfl, rfl⟩ (fun _ _ => rfl) rfl
  | bool b =>
    cases b with
    | true => exact readsBack_atom ⟨'t', _, rfl, rfl⟩ (fun _ _ => rfl) rfl
    | false => exact readsBack_atom ⟨'f', _, rfl, rfl⟩ (fun _ _ => rfl) rfl
  | @int _ n hn =>
    refine readsBack_atom ?_ ?_ rfl
    · rw [write]
      exact intText_head n
    · rw [write]
      exact fun _ hrest => readAtom_int hn hrest
  | @float _ x hx =>
    refine readsBack_atom ?_ ?_ rfl
    · rw [write]
      exact floatText_head hx
    · rw [write]
      exact fun _ hrest => readAtom_storableFloat hx hrest
  | @str room s =>
    intro rest _ fuel hfuel
    obtain ⟨f, rfl⟩ := exists_fuel hfuel (List.cons_ne_nil _ _)
    obtain ⟨body, hbody, hread⟩ := readString_writeString s rest
    rw [write, hbody, List.cons_append, readValue, if_pos rfl, hread]
    rfl
  | list hitems ih => exact readsBack_list hitems ih
  | object hnames hstorable hvalues ih => exact readsBack_object hnames hstorable hvalues ih

/-- A document is read back, joined, from the text that it is stored as. -/
theorem Writable.read_write {j : Json} (h : Writable nestingRoom j) :
    read (write j) = .ok j.joined := by
  obtain ⟨c, s, hs, hspace, -⟩ := write_head h
  have hskip : skipSpace (write j) = write j := by
    rw [hs]
    exact skipSpace_cons hspace
  have hread := h.readsBack [] rfl ((write j).length + 1) (Nat.le_succ _)
  rw [List.append_nil] at hread
  rw [read, hskip]
  simp only [bind, Except.bind, hread]
  rfl

/-- A storable document is read back from the text that it is stored as. -/
theorem read_write {j : Json} (h : Storable nestingRoom j) : read (write j) = .ok j := by
  rw [h.writable.read_write, h.joined_eq]

end DeskCalc.Json
