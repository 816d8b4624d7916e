import DeskCalc.Proofs.Attempt
import DeskCalc.Proofs.Json.Plain
import DeskCalc.Proofs.Number.Arithmetic

/-!
# Documents that texts give

Whatever is read from a text of characters is a storable document.  Its strings may hold halves
from numeric escapes, but never a first half right before a second one: two such escapes give one
character, and the text itself has no halves.
-/

namespace DeskCalc

open Text (mark markCode ofCode ofCodes isHalf isHighHalf isLowHalf Unsplit)

/-! ## Texts of characters -/

namespace Text

/-- A text in which nothing is the writing of a half. -/
inductive Whole : Text → Prop
  | nil : Whole []
  | char {c : Char} {s : Text} (hc : c ≠ mark) (hs : Whole s) : Whole (c :: s)
  | mark {s : Text} (hs : Whole s) : Whole (mark :: mark :: s)

theorem whole_ofChars (s : List Char) : Whole (ofChars s) := by
  induction s with
  | nil => exact .nil
  | cons c s ih =>
    rw [ofChars, List.map_cons, ofCodes_cons]
    by_cases hc : c = Text.mark
    · have hcode : ofCode c.toNat = [Text.mark, Text.mark] := by
        rw [hc, mark_toNat]
        rfl
      rw [hcode]
      exact .mark ih
    · rw [ofCode_toNat hc]
      exact .char hc ih

/-- `rest` is left of `s`, and nothing in front of it is a mark. -/
def Passes (s rest : Text) : Prop :=
  ∃ w, s = w ++ rest ∧ Text.mark ∉ w

variable {s t rest : Text}

theorem Passes.refl (s : Text) : Passes s s :=
  ⟨[], rfl, List.not_mem_nil⟩

theorem Passes.trans (h : Passes s t) (ht : Passes t rest) : Passes s rest := by
  obtain ⟨v, rfl, hv⟩ := h
  obtain ⟨w, rfl, hw⟩ := ht
  exact ⟨v ++ w, (List.append_assoc v w rest).symm, by simp [hv, hw]⟩

theorem passes_cons {c : Char} (hc : Text.mark ≠ c) (h : Passes s rest) : Passes (c :: s) rest := by
  obtain ⟨w, rfl, hw⟩ := h
  exact ⟨c :: w, rfl, by simp [hc, hw]⟩

theorem passes_dropWhile {p : Char → Bool} (hp : Low p) (s : Text) : Passes s (s.dropWhile p) :=
  ⟨s.takeWhile p, List.takeWhile_append_dropWhile.symm,
    hp.mark_not_mem fun _ hc => List.mem_takeWhile_imp hc⟩

theorem Whole.of_cons {c : Char} (hc : Text.mark ≠ c) (h : Whole (c :: s)) : Whole s := by
  cases h with
  | char _ hs => exact hs
  | mark => exact absurd rfl hc

theorem Whole.passes (h : Whole s) (hpass : Passes s rest) : Whole rest := by
  obtain ⟨w, rfl, hw⟩ := hpass
  induction w with
  | nil => exact h
  | cons c w ih =>
    rw [List.mem_cons, not_or] at hw
    exact ih hw.2 (h.of_cons hw.1)

end Text

namespace Json

open Number (natText)
open Text (Whole Passes passes_cons passes_dropWhile)

variable {s rest : Text}

/-! ## Numeric escapes -/

theorem of_hexValue? {c : Char} {v : Nat} (h : hexValue? c = some v) : v < 16 ∧ mark ≠ c := by
  have hmark : hexValue? mark = none := by decide
  have hne : mark ≠ c := by
    rintro rfl
    rw [hmark] at h
    cases h
  refine ⟨?_, hne⟩
  rw [hexValue?] at h
  split at h
  next hdigit =>
    cases h
    simp only [Char.isDigit, Bool.and_eq_true, decide_eq_true_eq, UInt32.le_iff_toNat_le] at hdigit
    have heq : c.toNat = c.val.toNat := rfl
    have hnine : ('9' : Char).val.toNat = 57 := rfl
    omega
  · split at h
    next hlower =>
      cases h
      simp only [Char.le_def, UInt32.le_iff_toNat_le] at hlower
      have heq : c.toNat = c.val.toNat := rfl
      have hlast : ('f' : Char).val.toNat = 102 := rfl
      omega
    · split at h
      next hupper =>
        cases h
        simp only [Char.le_def, UInt32.le_iff_toNat_le] at hupper
        have heq : c.toNat = c.val.toNat := rfl
        have hlast : ('F' : Char).val.toNat = 70 := rfl
        omega
      · cases h

theorem of_readHex? {n : Nat} (h : readHex? s = some (n, rest)) :
    n < 0x10000 ∧ Passes s rest := by
  unfold readHex? at h
  split at h
  next a b c d after =>
    simp only [Option.bind_eq_bind, Option.bind_eq_some_iff, Option.pure_def, Option.some.injEq,
      Prod.mk.injEq] at h
    obtain ⟨va, ha, vb, hb, vc, hc, vd, hd, rfl, rfl⟩ := h
    obtain ⟨hva, hma⟩ := of_hexValue? ha
    obtain ⟨hvb, hmb⟩ := of_hexValue? hb
    obtain ⟨hvc, hmc⟩ := of_hexValue? hc
    obtain ⟨hvd, hmd⟩ := of_hexValue? hd
    refine ⟨by omega, ?_⟩
    exact passes_cons hma (passes_cons hmb (passes_cons hmc (passes_cons hmd (.refl _))))
  · cases h

theorem of_readLowHalf? {n : Nat} (h : readLowHalf? s = some (n, rest)) :
    isLowHalf n = true ∧ Passes s rest := by
  unfold readLowHalf? at h
  split at h
  next more =>
    rw [Option.filter_eq_some_iff] at h
    refine ⟨h.2, ?_⟩
    exact passes_cons (by decide) (passes_cons (by decide) (of_readHex? h.1).2)
  · cases h

/-! ## Strings -/

/-- `t` consists of characters and halves, and it begins with a second half only if `s` begins with
the escape of one. -/
def Spells (s t : Text) : Prop :=
  ∃ ns, (∀ n ∈ ns, n < 0x110000) ∧ Unsplit ns ∧ t = ofCodes ns ∧
    ∀ n ∈ ns.head?, isLowHalf n = true → readLowHalf? s ≠ none

theorem Spells.storable {t : Text} (h : Spells s t) : Text.Storable t := by
  obtain ⟨ns, hbound, hunsplit, rfl, -⟩ := h
  exact ⟨ns, hbound, hunsplit, rfl⟩

theorem spells_nil (s : Text) : Spells s [] :=
  ⟨[], nofun, List.isChain_nil, rfl, nofun⟩

/-- A number in front, where what follows does not complete it to a pair. -/
theorem spells_cons {n : Nat} {t u : Text} (hn : n < 0x110000) (h : Spells u t)
    (hpair : isHighHalf n = true → readLowHalf? u = none)
    (hlow : isLowHalf n = true → readLowHalf? s ≠ none) : Spells s (ofCode n ++ t) := by
  obtain ⟨ns, hbound, hunsplit, rfl, hhead⟩ := h
  refine ⟨n :: ns, List.forall_mem_cons.mpr ⟨hn, hbound⟩, ?_, rfl, ?_⟩
  · rw [Unsplit, List.isChain_cons]
    refine ⟨fun m hm hboth => ?_, hunsplit⟩
    exact hhead m hm hboth.2 (hpair hboth.1)
  · intro m hm
    cases hm
    exact hlow

theorem spells_char {n : Nat} {t u : Text} (hn : n < 0x110000) (hwhole : isHalf n = false)
    (h : Spells u t) : Spells s (ofCode n ++ t) := by
  refine spells_cons hn h (fun hhigh => ?_) (fun hlow => ?_)
  · rw [Text.isHalf_of_isHighHalf hhigh] at hwhole
    cases hwhole
  · rw [Text.isHalf_of_isLowHalf hlow] at hwhole
    cases hwhole

theorem spells_number {n : Nat} {more after rest t : Text} {sign : Text}
    (hn : n < 0x10000) (hread : readHex? more = some (n, after))
    (hpair : pairUp n after = (sign, rest)) (h : Spells rest t) :
    Spells ('\\' :: 'u' :: more) (sign ++ t) := by
  rw [pairUp] at hpair
  split at hpair
  next low tail hlow =>
    obtain ⟨rfl, rfl⟩ := Prod.mk.inj hpair
    split at hlow
    next hhigh =>
      obtain ⟨hsecond, -⟩ := of_readLowHalf? hlow
      have hbound : 0x10000 ≤ Text.ofHalves n low ∧ Text.ofHalves n low < 0x110000 := by
        rw [Text.isHighHalf_iff] at hhigh
        rw [Text.isLowHalf_iff] at hsecond
        unfold Text.ofHalves
        omega
      refine spells_char hbound.2 ?_ h
      rw [Bool.eq_false_iff, Ne, Text.isHalf_iff]
      omega
    · cases hlow
  next hnone =>
    cases hpair
    refine spells_cons (by omega) h (fun hhigh => ?_) (fun hlow => ?_)
    · rwa [if_pos hhigh] at hnone
    · rw [readLowHalf?, hread, Option.filter_some, if_pos hlow]
      exact Option.some_ne_none _

theorem passes_pairUp {n : Nat} {after rest sign : Text} (h : pairUp n after = (sign, rest)) :
    Passes after rest := by
  rw [pairUp] at h
  split at h
  next low tail hlow =>
    obtain ⟨-, rfl⟩ := Prod.mk.inj h
    split at hlow
    · exact (of_readLowHalf? hlow).2
    · cases hlow
  · cases h
    exact .refl _

theorem of_escape? {c d : Char} (h : escape? c = some d) : d ≠ mark ∧ c ≠ mark := by
  unfold escape? at h
  split at h <;> first | (cases h; decide) | cases h

theorem spells_append {c : Char} {t u : Text} (hc : c ≠ mark) (h : Spells u t) :
    Spells s (c :: t) := by
  have hspell : Spells s (ofCode c.toNat ++ t) :=
    spells_char (Text.toNat_lt c) (Text.isHalf_toNat c) h
  rwa [Text.ofCode_toNat hc] at hspell

/-- The ways in which one more sign of a string is read, and what is left behind it. -/
inductive ReadsSign : Text → Text → Text → Prop where
  | number {more after sign tail : Text} {n : Nat} (hread : readHex? more = some (n, after))
    (hpair : pairUp n after = (sign, tail)) : ReadsSign ('\\' :: 'u' :: more) sign tail
  | escape {e d : Char} {more : Text} (hescape : escape? e = some d) :
    ReadsSign ('\\' :: e :: more) [d] more
  | bare (c : Char) (s : Text) : ReadsSign (c :: s) [c] s

/-- A string that is read is at its end, or a sign is read and then the rest of the string. -/
theorem readsSign_of_readStringBody {fuel : Nat} {t : Text}
    (h : readStringBody (fuel + 1) s = .ok (t, rest)) :
    s = '"' :: rest ∧ t = [] ∨ ∃ sign tail u, ReadsSign s sign tail ∧
      readStringBody fuel tail = .ok (u, rest) ∧ t = sign ++ u := by
  cases s with
  | nil => cases h
  | cons c s =>
    unfold readStringBody at h
    split at h
    next hquote =>
      subst hquote
      cases h
      exact .inl ⟨rfl, rfl⟩
    · right
      split at h
      next hback =>
        subst hback
        split at h
        next more =>
          split at h
          next n after hhex =>
            obtain ⟨sign, tail, hpair⟩ : ∃ sign tail, pairUp n after = (sign, tail) :=
              ⟨_, _, rfl⟩
            rw [hpair] at h
            obtain ⟨⟨u, r⟩, hread, heq⟩ := map_eq_ok h
            obtain ⟨rfl, rfl⟩ := Prod.mk.inj heq
            exact ⟨sign, tail, u, .number hhex hpair, hread, rfl⟩
          · cases h
        next e more _ =>
          split at h
          next d hescape =>
            obtain ⟨⟨u, r⟩, hread, heq⟩ := map_eq_ok h
            obtain ⟨rfl, rfl⟩ := Prod.mk.inj heq
            exact ⟨[d], more, u, .escape hescape, hread, rfl⟩
          · cases h
        · cases h
      · split at h
        · cases h
        · obtain ⟨⟨u, r⟩, hread, heq⟩ := map_eq_ok h
          obtain ⟨rfl, rfl⟩ := Prod.mk.inj heq
          exact ⟨[c], s, u, .bare c s, hread, rfl⟩

theorem ReadsSign.whole {c : Char} {sign tail : Text} (h : ReadsSign (c :: s) sign tail)
    (hs : Whole s) : Whole tail := by
  cases h with
  | number hhex hpair =>
    have hmore := hs.of_cons (by decide)
    exact (hmore.passes (of_readHex? hhex).2).passes (passes_pairUp hpair)
  | escape hescape => exact hs.of_cons (of_escape? hescape).2.symm
  | bare => exact hs

theorem ReadsSign.spells {c : Char} {sign tail u : Text} (h : ReadsSign (c :: s) sign tail)
    (hc : c ≠ mark) (hu : Spells tail u) : Spells (c :: s) (sign ++ u) := by
  cases h with
  | number hhex hpair => exact spells_number (of_readHex? hhex).1 hhex hpair hu
  | escape hescape => exact spells_append (of_escape? hescape).1 hu
  | bare => exact spells_append hc hu

/-- A mark stands for itself. -/
theorem readStringBody_mark {fuel : Nat} {t : Text}
    (h : readStringBody (fuel + 1) (mark :: s) = .ok (t, rest)) :
    ∃ u, readStringBody fuel s = .ok (u, rest) ∧ t = mark :: u := by
  have hbare : isBare mark = true := by decide
  rw [readStringBody_bare hbare] at h
  obtain ⟨⟨u, r⟩, hread, heq⟩ := map_eq_ok h
  obtain ⟨rfl, rfl⟩ := Prod.mk.inj heq
  exact ⟨u, hread, rfl⟩

/-- What is read of a string is spelled by the text, and what is left is a text of characters. -/
theorem readStringBody_spells {fuel : Nat} {t : Text} (hs : Whole s)
    (h : readStringBody fuel s = .ok (t, rest)) : Spells s t ∧ Whole rest := by
  -- The two characters that the mark is written by take two steps.
  induction fuel using Nat.strong_induction_on generalizing s t with
  | _ fuel ih =>
    cases fuel with
    | zero => cases h
    | succ fuel =>
      cases hs with
      | nil => cases h
      | char hc hs =>
        rcases readsSign_of_readStringBody h with ⟨heq, rfl⟩ | ⟨sign, tail, u, hsign, hread, rfl⟩
        · cases heq
          exact ⟨spells_nil _, hs⟩
        · obtain ⟨hu, hr⟩ := ih fuel (by omega) (hsign.whole hs) hread
          exact ⟨hsign.spells hc hu, hr⟩
      | mark hs =>
        obtain ⟨u, hread, rfl⟩ := readStringBody_mark h
        cases fuel with
        | zero => cases hread
        | succ fuel =>
          obtain ⟨v, hrest, rfl⟩ := readStringBody_mark hread
          obtain ⟨hv, hr⟩ := ih fuel (by omega) hs hrest
          exact ⟨spells_char (n := markCode) (by decide) (by decide) hv, hr⟩

/-! ## Numbers -/

/-- The doubles that numerals denote are finite or infinite. -/
theorem storableFloat_value (negative : Bool) (n : Number.Numeral) :
    StorableFloat (Number.applySign negative n.value) := by
  obtain ⟨hsign, hbits⟩ := Number.ofDecimal_parts false (Text.digitsValue (n.whole ++ n.fraction))
    (n.exponent - n.fraction.length)
  have hle : Number.unsignedBits n.value ≤ Number.infinityBits := by
    rw [Number.Numeral.value, hbits]
    exact Number.nearestBits_le
  rcases Nat.lt_or_eq_of_le hle with hlt | heq
  · left
    have hfinite := (Number.isFinite_iff n.value).mpr hlt
    rw [Number.applySign]
    split
    · obtain ⟨-, hsame⟩ := Number.neg_parts hfinite
      rwa [Number.isFinite_iff, hsame]
    · exact hfinite
  · have hvalue : n.value = Number.infinity :=
      Number.eq_of_parts (hsign.trans Number.parts_infinity.1.symm)
        (heq.trans Number.parts_infinity.2.symm)
    rw [hvalue, Number.applySign]
    split
    · exact .inr (.inr (.inl rfl))
    · exact .inr (.inl rfl)

theorem low_digit : Text.Low Char.isDigit :=
  Text.low_isAlphanum.mono fun c hc => by simp [Char.isAlphanum, hc]

theorem passes_digits (s : Text) : Passes s (s.dropWhile Char.isDigit) :=
  passes_dropWhile low_digit s

theorem of_readWhole? {digits : Text} (h : readWhole? s = some (digits, rest)) :
    Passes s rest ∧ ∀ c ∈ digits, c.isDigit = true := by
  unfold readWhole? at h
  split at h
  · cases h
    exact ⟨passes_cons (by decide) (.refl _), List.forall_mem_singleton.mpr rfl⟩
  · split at h
    · cases h
    · cases h
      exact ⟨passes_digits s, fun c hc => List.mem_takeWhile_imp hc⟩

theorem of_readFraction {digits : Text} (h : readFraction s = (digits, rest)) : Passes s rest := by
  unfold readFraction at h
  split at h
  · split at h
    · cases h
      exact .refl _
    · cases h
      exact passes_cons (by decide) (passes_digits _)
  · cases h
    exact .refl _

theorem passes_readSign (s : Text) : Passes s (Number.readSign s).2 := by
  unfold Number.readSign
  split
  · exact passes_cons (by decide) (.refl _)
  · exact passes_cons (by decide) (.refl _)
  · exact .refl _

theorem of_readPower? {n : Int} (h : readPower? s = some (n, rest)) : Passes s rest := by
  unfold readPower? at h
  split at h
  next c t =>
    split at h
    next hc =>
      have hmark : mark ≠ c := by
        rcases hc with rfl | rfl <;> decide
      simp only at h
      split at h
      · cases h
      · cases h
        exact passes_cons hmark ((passes_readSign t).trans (passes_digits _))
    · cases h
  · cases h

theorem readMagnitude_storable {negative : Bool} {room : Nat} {j : Json}
    (h : readMagnitude negative s = .ok (j, rest)) : Storable room j ∧ Passes s rest := by
  unfold readMagnitude at h
  split at h
  · cases h
  next whole after hwhole =>
    obtain ⟨hpass, hdigits⟩ := of_readWhole? hwhole
    obtain ⟨fraction, behind, hfraction⟩ : ∃ fraction behind, readFraction after =
        (fraction, behind) := ⟨_, _, rfl⟩
    have hbehind := hpass.trans (of_readFraction hfraction)
    simp only [hfraction] at h
    split at h
    · split at h
      next n hread =>
        cases h
        refine ⟨.int ?_, hbehind⟩
        have habs : (if negative = true then -(n : Int) else n).natAbs = n := by
          split <;> omega
        rw [habs]
        exact Number.length_natText_le (by decide) (Number.readNat?_lt hread)
      · cases h
    · cases h
      refine ⟨.float (storableFloat_value _ _), ?_⟩
      cases hpower : readPower? behind with
      | none => exact hbehind
      | some p => exact hbehind.trans (of_readPower? hpower)

theorem storable_word {n : Nat} {w : Text × Json} (h : w ∈ words) :
    Storable n w.2 ∧ mark ∉ w.1 := by
  simp only [words, List.mem_cons, List.not_mem_nil, or_false] at h
  rcases h with rfl | rfl | rfl | rfl | rfl | rfl
  · exact ⟨.null, by decide⟩
  · exact ⟨.bool true, by decide⟩
  · exact ⟨.bool false, by decide⟩
  · exact ⟨.float (.inr (.inr (.inr rfl))), by decide⟩
  · exact ⟨.float (.inr (.inl rfl)), by decide⟩
  · exact ⟨.float (.inr (.inr (.inl rfl))), by decide⟩

theorem readAtom_storable {room : Nat} {j : Json} (h : readAtom s = .ok (j, rest)) :
    Storable room j ∧ Passes s rest := by
  unfold readAtom at h
  split at h
  next w k hword =>
    cases h
    obtain ⟨hj, hmark⟩ := storable_word (n := room) (List.mem_of_find?_eq_some hword)
    have hstarts := List.find?_some hword
    obtain ⟨t, rfl⟩ : w <+: s := List.isPrefixOf_iff_prefix.mp hstarts
    rw [List.drop_left]
    exact ⟨hj, w, rfl, hmark⟩
  · split at h
    next t =>
      obtain ⟨hj, hpass⟩ := readMagnitude_storable h
      exact ⟨hj, passes_cons (by decide) hpass⟩
    · exact readMagnitude_storable h

/-! ## Documents -/

theorem low_isSpace : Text.Low isSpace := by
  intro c hc
  simp only [isSpace, Bool.or_eq_true, beq_iff_eq] at hc
  rcases hc with ((rfl | rfl) | rfl) | rfl <;> decide

theorem whole_skipSpace (hs : Whole s) : Whole (skipSpace s) :=
  hs.passes (passes_dropWhile low_isSpace s)

theorem readString_storable {t : String} (hs : Whole s) (h : readString s = .ok (t, rest)) :
    Text.Storable t.toList ∧ Whole rest := by
  obtain ⟨⟨u, r⟩, hread, heq⟩ := map_eq_ok h
  obtain ⟨rfl, rfl⟩ := Prod.mk.inj heq
  obtain ⟨hu, hr⟩ := readStringBody_spells hs hread
  rw [String.toList_ofList]
  exact ⟨hu.storable, hr⟩

/-- Members that an object can have. -/
structure Members (room : Nat) (members : List (String × Json)) : Prop where
  names : (members.map Prod.fst).Nodup
  storable : ∀ m ∈ members, Text.Storable m.1.toList
  values : ∀ m ∈ members, Storable room m.2

theorem Members.set {room : Nat} {members : List (String × Json)} (h : Members room members)
    {name : String} {j : Json} (hname : Text.Storable name.toList) (hj : Storable room j) :
    Members room (setMember name j members) where
  names := nodup_setMember h.names
  storable := by
    intro m hm
    rcases mem_setMember hm with rfl | hm
    · exact hname
    · exact h.storable m hm
  values := by
    intro m hm
    rcases mem_setMember hm with rfl | hm
    · exact hj
    · exact h.values m hm

/-- What one more step of reading gives. -/
structure Gives (fuel : Nat) : Prop where
  value : ∀ {room s j rest}, Whole s → readValue fuel room s = .ok (j, rest) →
    Storable room j ∧ Whole rest
  items : ∀ {room s items rest}, Whole s → readItems fuel room s = .ok (items, rest) →
    (∀ j ∈ items, Storable room j) ∧ Whole rest
  members : ∀ {room given s members rest}, Members room given → Whole s →
    readMembers fuel room given s = .ok (members, rest) → Members room members ∧ Whole rest

theorem gives_zero : Gives 0 where
  value := fun _ h => by cases h
  items := fun _ h => by cases h
  members := fun _ _ h => by cases h

section Steps

variable {fuel room : Nat}

theorem readValue_step (ih : Gives fuel) {j : Json} (hs : Whole s)
    (h : readValue (fuel + 1) room s = .ok (j, rest)) : Storable room j ∧ Whole rest := by
  unfold readValue at h
  split at h
  · cases h
  next c after =>
    split at h
    next hquote =>
      subst hquote
      obtain ⟨⟨t, r⟩, hread, heq⟩ := map_eq_ok h
      obtain ⟨rfl, rfl⟩ := Prod.mk.inj heq
      obtain ⟨ht, hr⟩ := readString_storable (hs.of_cons (by decide)) hread
      exact ⟨.str ht, hr⟩
    · split at h
      next hopen =>
        subst hopen
        have hafter := whole_skipSpace (hs.of_cons (by decide))
        split at h
        · cases h
        next hroom =>
          obtain ⟨n, rfl⟩ : ∃ n, room = n + 1 := ⟨room - 1, by omega⟩
          split at h
          next heq =>
            cases h
            rw [heq] at hafter
            exact ⟨.list (List.forall_mem_nil _), hafter.of_cons (by decide)⟩
          · obtain ⟨⟨items, r⟩, hread, heq⟩ := map_eq_ok h
            obtain ⟨rfl, rfl⟩ := Prod.mk.inj heq
            obtain ⟨hitems, hr⟩ := ih.items hafter hread
            exact ⟨.list hitems, hr⟩
      · split at h
        next hopen =>
          subst hopen
          have hafter := whole_skipSpace (hs.of_cons (by decide))
          split at h
          · cases h
          next hroom =>
            obtain ⟨n, rfl⟩ : ∃ n, room = n + 1 := ⟨room - 1, by omega⟩
            have hnone : Members n [] := ⟨List.nodup_nil, List.forall_mem_nil _, List.forall_mem_nil _⟩
            split at h
            next heq =>
              cases h
              rw [heq] at hafter
              exact ⟨.object hnone.names hnone.storable hnone.values, hafter.of_cons (by decide)⟩
            · obtain ⟨⟨members, r⟩, hread, heq⟩ := map_eq_ok h
              obtain ⟨rfl, rfl⟩ := Prod.mk.inj heq
              obtain ⟨hmembers, hr⟩ := ih.members hnone hafter hread
              exact ⟨.object hmembers.names hmembers.storable hmembers.values, hr⟩
        · obtain ⟨hj, hpass⟩ := readAtom_storable h
          exact ⟨hj, hs.passes hpass⟩

theorem readItems_step (ih : Gives fuel) {items : List Json} (hs : Whole s)
    (h : readItems (fuel + 1) room s = .ok (items, rest)) :
    (∀ j ∈ items, Storable room j) ∧ Whole rest := by
  unfold readItems at h
  obtain ⟨⟨j, r⟩, hread, h⟩ := bind_eq_ok h
  obtain ⟨hj, hr⟩ := ih.value hs hread
  have hnext := whole_skipSpace hr
  simp only at h
  split at h
  next heq =>
    rw [heq] at hnext
    obtain ⟨⟨more, q⟩, hmore, heq⟩ := map_eq_ok h
    obtain ⟨rfl, rfl⟩ := Prod.mk.inj heq
    obtain ⟨hitems, hq⟩ := ih.items (whole_skipSpace (hnext.of_cons (by decide))) hmore
    exact ⟨List.forall_mem_cons.mpr ⟨hj, hitems⟩, hq⟩
  next heq =>
    cases h
    rw [heq] at hnext
    exact ⟨List.forall_mem_singleton.mpr hj, hnext.of_cons (by decide)⟩
  · cases h

theorem readMembers_step (ih : Gives fuel) {given members : List (String × Json)}
    (hgiven : Members room given) (hs : Whole s)
    (h : readMembers (fuel + 1) room given s = .ok (members, rest)) :
    Members room members ∧ Whole rest := by
  unfold readMembers at h
  split at h
  next after =>
    obtain ⟨⟨name, r⟩, hname, h⟩ := bind_eq_ok h
    obtain ⟨hstorable, hr⟩ := readString_storable (hs.of_cons (by decide)) hname
    have hcolon := whole_skipSpace hr
    simp only at h
    split at h
    next heq =>
      rw [heq] at hcolon
      obtain ⟨⟨j, q⟩, hread, h⟩ := bind_eq_ok h
      obtain ⟨hj, hq⟩ := ih.value (whole_skipSpace (hcolon.of_cons (by decide))) hread
      have hnext := whole_skipSpace hq
      have hset := hgiven.set hstorable hj
      simp only at h
      split at h
      next heq =>
        rw [heq] at hnext
        exact ih.members hset (whole_skipSpace (hnext.of_cons (by decide))) h
      next heq =>
        cases h
        rw [heq] at hnext
        exact ⟨hset, hnext.of_cons (by decide)⟩
      · cases h
    · cases h
  · cases h

end Steps

theorem gives (fuel : Nat) : Gives fuel := by
  induction fuel with
  | zero => exact gives_zero
  | succ fuel ih =>
    exact ⟨readValue_step ih, readItems_step ih, readMembers_step ih⟩

/-- A document that is read from a text of characters is storable. -/
theorem storable_of_read {j : Json} (hs : Whole s) (h : read s = .ok j) :
    Storable nestingRoom j := by
  rw [read] at h
  cases hread : readValue (s.length + 1) nestingRoom (skipSpace s) with
  | error e =>
    rw [hread] at h
    cases h
  | ok found =>
    obtain ⟨k, r⟩ := found
    rw [hread] at h
    simp only [bind, Except.bind] at h
    split at h
    · cases h
      exact ((gives _).value (whole_skipSpace hs) hread).1
    · cases h

/-! ## Texts of documents -/

theorem whole_of_mark_not_mem {t : Text} (h : mark ∉ t) : Whole t := by
  induction t with
  | nil => exact .nil
  | cons c t ih =>
    rw [List.mem_cons, not_or] at h
    exact .char (Ne.symm h.1) (ih h.2)

theorem whole_append {t : Text} (hs : Whole s) (ht : Whole t) : Whole (s ++ t) := by
  induction hs with
  | nil => exact ht
  | char hc _ ih => exact .char hc ih
  | mark _ ih => exact .mark ih

theorem exists_ofChars (hs : Whole s) : ∃ cs : List Char, s = Text.ofChars cs := by
  induction hs with
  | nil => exact ⟨[], rfl⟩
  | @char c s hc _ ih =>
    obtain ⟨cs, rfl⟩ := ih
    refine ⟨c :: cs, ?_⟩
    rw [Text.ofChars, Text.ofChars, List.map_cons, Text.ofCodes_cons, Text.ofCode_toNat hc]
    rfl
  | mark _ ih =>
    obtain ⟨cs, rfl⟩ := ih
    refine ⟨mark :: cs, ?_⟩
    rw [Text.ofChars, Text.ofChars, List.map_cons, Text.ofCodes_cons, Text.mark_toNat]
    rfl

theorem whole_ofCode {n : Nat} (hn : n < 0x110000) (hwhole : isHalf n = false) :
    Whole (ofCode n) := by
  rw [ofCode, hwhole, if_neg Bool.false_ne_true]
  split
  · exact .mark .nil
  next hcode =>
    have hnumber := Text.toNat_ofNat hn (by rw [hwhole]; exact Bool.false_ne_true)
    exact .char (Text.ne_mark (by rwa [hnumber])) .nil

theorem whole_writeCode {n : Nat} (hn : n < 0x110000) : Whole (writeCode n) := by
  rcases writeCode_cases hn with ⟨c, hcode, hescape, -⟩ | ⟨hcode, -⟩ | ⟨hcode, hwhole, -⟩
  · rw [hcode]
    exact .char (by decide) (.char (of_escape? hescape).1 .nil)
  · rw [hcode]
    exact .char (by decide) (.char (by decide) (whole_of_mark_not_mem (mark_not_mem_hexText 4 n)))
  · rw [hcode]
    exact whole_ofCode hn hwhole

theorem whole_writeString {t : String} (ht : Text.Storable t.toList) : Whole (writeString t) := by
  obtain ⟨ns, hbound, -, hcodes⟩ := ht
  have hbody : Whole (ns.flatMap writeCode) := by
    clear hcodes
    induction ns with
    | nil => exact .nil
    | cons n ns ih =>
      rw [List.forall_mem_cons] at hbound
      rw [List.flatMap_cons]
      exact whole_append (whole_writeCode hbound.1) (ih hbound.2)
  rw [writeString, hcodes, Text.codes_ofCodes hbound]
  exact .char (by decide) (whole_append hbody (.char (by decide) .nil))

theorem whole_comma (b : Bool) : Whole (if b = true then [] else [',', ' ']) := by
  cases b <;> exact whole_of_mark_not_mem (by decide)

theorem whole_writeItems {items : List Json} (h : ∀ j ∈ items, Whole (write j)) :
    Whole (writeItems items) := by
  induction items with
  | nil => exact .nil
  | cons j items ih =>
    rw [List.forall_mem_cons] at h
    rw [writeItems]
    exact whole_append (whole_append h.1 (whole_comma _)) (ih h.2)

theorem whole_writeMembers {members : List (String × Json)}
    (hnames : ∀ m ∈ members, Text.Storable m.1.toList) (h : ∀ m ∈ members, Whole (write m.2)) :
    Whole (writeMembers members) := by
  induction members with
  | nil => exact .nil
  | cons m members ih =>
    obtain ⟨name, j⟩ := m
    rw [List.forall_mem_cons] at hnames h
    have hcolon : Whole [':', ' '] := whole_of_mark_not_mem (by decide)
    rw [writeMembers]
    exact whole_append (whole_append (whole_append (whole_append (whole_writeString hnames.1) hcolon)
      h.1) (whole_comma _)) (ih hnames.2 h.2)

theorem whole_documentText (x : Float) : Whole (Number.documentLayout.text x) :=
  whole_of_mark_not_mem (Number.isNumberText_layout (l := Number.documentLayout)
    ⟨⟨'N', ['a', 'N'], rfl, by decide⟩, List.all_eq_true.mp (by decide)⟩
    ⟨⟨'I', "nfinity".toList, rfl, by decide⟩, List.all_eq_true.mp (by decide)⟩ x).mark_not_mem

theorem Storable.whole_write {room : Nat} {j : Json} (h : Storable room j) : Whole (write j) := by
  induction h with
  | null => exact whole_of_mark_not_mem (by decide)
  | bool b => cases b <;> exact whole_of_mark_not_mem (by decide)
  | int _ => exact whole_of_mark_not_mem (mark_not_mem_intText _)
  | float _ => exact whole_documentText _
  | str hs => exact whole_writeString hs
  | list _ ih =>
    rw [write]
    exact .char (by decide) (whole_append (whole_writeItems ih) (.char (by decide) .nil))
  | object _ hstorable _ ih =>
    rw [write]
    exact .char (by decide)
      (whole_append (whole_writeMembers hstorable ih) (.char (by decide) .nil))

/-- The storable documents are those that are read from texts of characters. -/
theorem storable_iff {j : Json} :
    Storable nestingRoom j ↔ ∃ cs : List Char, read (Text.ofChars cs) = .ok j := by
  constructor
  · intro h
    obtain ⟨cs, hcs⟩ := exists_ofChars h.whole_write
    exact ⟨cs, hcs ▸ read_write h⟩
  · rintro ⟨cs, hread⟩
    exact storable_of_read (Text.whole_ofChars cs) hread

end Json
end DeskCalc
