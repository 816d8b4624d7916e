import DeskCalc.Proofs.Query.Dimensions
import DeskCalc.Query.Detect

/-!
# The telltales of queries

A line is offered to the rules only if it bears a telltale of a query.  The telltales know whole
numbers only, units of plain letters, and `in` in lower case; the rules for conversions read
decimals, fractions, raised digits and both keywords in either case.  Of the lines that these rules
answer, just those that bear a telltale are offered to them.
-/

namespace DeskCalc

theorem Text.occursIn_iff {part s : Text} :
    Text.occursIn part s = true ↔ ∃ front behind, front ++ (part ++ behind) = s := by
  induction s with
  | nil => simp [Text.occursIn]
  | cons c s ih =>
    rw [Text.occursIn, Bool.or_eq_true, ih, List.isPrefixOf_iff_prefix]
    constructor
    · rintro (⟨behind, hsplit⟩ | ⟨front, behind, rfl⟩)
      · exact ⟨[], behind, hsplit⟩
      · exact ⟨c :: front, behind, rfl⟩
    · rintro ⟨front, behind, hsplit⟩
      cases front with
      | nil => exact .inl ⟨behind, hsplit⟩
      | cons d front =>
        cases hsplit
        exact .inr ⟨front, behind, rfl⟩

namespace Query

open Outcome (ofOption_eq_answer)
open Text (Shape StopsBefore isBlank isDigit)
open Text.Shape (Fits fits_iff fitsWithin_iff fits_bind fits_pure fits_opt fits_one fits_char
  fits_run_append fits_run1_append fits_many1_append fits_exactly_append fits_word_append
  fits_anyWord of_fits_run of_fits_run1 of_fits_many1 of_fits_exactly of_fits_word)

/-! ## The telltales -/

/-- The parts of a line that make it look like a query. -/
inductive Telltale : Text → Prop
  | spaced : Telltale " in ".toList
  | sum {d sign u : Char} {gap₁ unit gap₂ gap₃ count gap₄ : Text} (hd : isDigit d = true)
    (hgap₁ : ∀ c ∈ gap₁, isBlank c = true) (hne : unit ≠ [])
    (hunit : ∀ c ∈ unit, isPlainUnitChar c = true) (hgap₂ : ∀ c ∈ gap₂, isBlank c = true)
    (hsign : sign = '+' ∨ sign = '-') (hgap₃ : ∀ c ∈ gap₃, isBlank c = true) (hcount : count ≠ [])
    (hdigits : ∀ c ∈ count, isDigit c = true) (hgap₄ : ∀ c ∈ gap₄, isBlank c = true)
    (hu : isPlainUnitChar u = true) :
    Telltale (d :: (gap₁ ++ (unit ++ (gap₂ ++ sign :: (gap₃ ++ (count ++ (gap₄ ++ [u])))))))
  | conversion {d u : Char} {gap unit before behind : Text} (hd : isDigit d = true)
    (hgap : ∀ c ∈ gap, isBlank c = true) (hne : unit ≠ [])
    (hunit : ∀ c ∈ unit, isPlainUnitChar c = true) (hbefore : before ≠ [])
    (hblanks : ∀ c ∈ before, isBlank c = true) (hbehind : behind ≠ [])
    (hblanks' : ∀ c ∈ behind, isBlank c = true) (hu : isPlainUnitChar u = true) :
    Telltale (d :: (gap ++ (unit ++ (before ++ ("in".toList ++ (behind ++ [u]))))))
  | scales {d a b : Char} {gap key : Text} (hd : isDigit d = true)
    (hgap : ∀ c ∈ gap, isBlank c = true) (ha : isScaleLetter a = true) (hkey : Keyword "to" key)
    (hb : isScaleLetter b = true) : Telltale (d :: (gap ++ a :: (key ++ [b])))
  | codes {d : Char} {gap code key code' : Text} (hd : isDigit d = true) (hgapne : gap ≠ [])
    (hgap : ∀ c ∈ gap, isBlank c = true) (hlength : code.length = 3)
    (hcode : ∀ c ∈ code, Text.isLetterAnyCase c = true) (hkey : Keyword "to" key)
    (hlength' : code'.length = 3) (hcode' : ∀ c ∈ code', Text.isLetterAnyCase c = true) :
    Telltale (d :: (gap ++ (code ++ (key ++ code'))))
  | base {c : Char} {key name : Text} (hc : c ≠ '\n') (hkey : Keyword "in" key)
    (hname : ∃ w ∈ ["hex", "octal", "binary", "decimal"], Text.sameLetters name w.toList = true) :
    Telltale (c :: (key ++ name))

/-- A telltale stands somewhere in the line. -/
def Bears (s : Text) : Prop :=
  ∃ front part behind, front ++ (part ++ behind) = s ∧ Telltale part

/-! ## What stops a run -/

theorem isTargetChar_of_isPlainUnitChar {c : Char} (h : isPlainUnitChar c = true) :
    isTargetChar c = true := by
  rw [isPlainUnitChar, Bool.or_eq_true, beq_iff_eq] at h
  rcases h with h | rfl
  · exact isTargetChar_of_isLetter h
  · decide

theorem isTargetChar_of_isLetterAnyCase {c : Char} (h : Text.isLetterAnyCase c = true) :
    isTargetChar c = true := by
  simp [isTargetChar, Measure.isUnitCharAnyCase, h]

theorem isLetterAnyCase_of_isScaleLetter {c : Char} (h : isScaleLetter c = true) :
    Text.isLetterAnyCase c = true := by
  have hall : ['c', 'f', 'k', 'r'].all Text.isLetter = true := by decide
  exact List.all_eq_true.mp hall _ (List.contains_iff_mem.mp h)

theorem stopsBefore_visible {c : Char} (hc : isBlank c = false) (rest : Text) :
    StopsBefore isBlank (c :: rest) :=
  Text.stopsBefore_cons.mpr hc

/-- A run stops before a text that begins with characters of another class. -/
theorem stopsBefore_append {p q : Char → Bool} (hpq : ∀ c, q c = true → p c = false) {w : Text}
    (hne : w ≠ []) (hw : ∀ c ∈ w, q c = true) (rest : Text) : StopsBefore p (w ++ rest) := by
  obtain ⟨c, w, rfl⟩ := List.exists_cons_of_ne_nil hne
  exact Text.stopsBefore_cons.mpr (hpq c (hw c List.mem_cons_self))

theorem isBlank_of_isPlainUnitChar {c : Char} (h : isPlainUnitChar c = true) : isBlank c = false :=
  isBlank_of_isTargetChar (isTargetChar_of_isPlainUnitChar h)

theorem isPlainUnitChar_of_isBlank {c : Char} (h : isBlank c = true) :
    isPlainUnitChar c = false := by
  by_contra hplain
  rw [Bool.not_eq_false] at hplain
  rw [isBlank_of_isPlainUnitChar hplain] at h
  cases h

/-- Digits stop before blanks, or before what follows the blanks. -/
theorem stopsBefore_isDigit_gap {gap rest : Text} (hgap : ∀ c ∈ gap, isBlank c = true)
    (hrest : StopsBefore isDigit rest) : StopsBefore isDigit (gap ++ rest) := by
  cases gap with
  | nil => exact hrest
  | cons c gap =>
    exact Text.stopsBefore_cons.mpr (Text.isDigit_of_isBlank (hgap c List.mem_cons_self))

theorem isLetterAnyCase_of_sameLetters {w v : Text} (h : Text.sameLetters w v = true)
    (hv : ∀ c ∈ v, Text.isLetterAnyCase c = true) : ∀ c ∈ w, Text.isLetterAnyCase c = true := by
  induction w generalizing v with
  | nil => exact nofun
  | cons c w ih =>
    cases v with
    | nil => cases h
    | cons d v =>
      rw [Text.sameLetters, Bool.and_eq_true, Text.sameLetter, beq_iff_eq] at h
      obtain ⟨hd, hv⟩ := List.forall_mem_cons.mp hv
      refine List.forall_mem_cons.mpr ⟨?_, ih h.2 hv⟩
      rwa [Text.isLetterAnyCase, h.1]

/-- The words of keywords and bases. -/
def lineWords : List String :=
  ["in", "to", "hex", "octal", "binary", "decimal"]

theorem letters_of_word {name : Text} {w : String} (hw : w ∈ lineWords)
    (h : Text.sameLetters name w.toList = true) :
    name ≠ [] ∧ ∀ c ∈ name, Text.isLetterAnyCase c = true := by
  have hall : lineWords.all (fun w =>
      0 < w.toList.length && w.toList.all Text.isLetterAnyCase) = true := by decide
  have hword := List.all_eq_true.mp hall w hw
  rw [Bool.and_eq_true, decide_eq_true_eq, List.all_eq_true] at hword
  refine ⟨?_, isLetterAnyCase_of_sameLetters h hword.2⟩
  rw [← List.length_pos_iff, Text.Shape.length_of_sameLetters h]
  exact hword.1

theorem isBlank_of_isLetterAnyCase {c : Char} (h : Text.isLetterAnyCase c = true) :
    isBlank c = false :=
  isBlank_of_isTargetChar (isTargetChar_of_isLetterAnyCase h)

theorem Keyword.fits {w : String} {key rest : Text} (hkey : Keyword w key) (hw : w ∈ ["in", "to"])
    (hrest : StopsBefore isBlank rest) : Fits (keyword w) (key ++ rest) () rest := by
  cases hkey with
  | @mk before word behind hbefore hblanks hword hbehind hblanks' =>
    have hlineword : w ∈ lineWords := by
      rcases List.mem_pair.mp hw with rfl | rfl <;> decide
    obtain ⟨hne, hletters⟩ := letters_of_word hlineword hword
    have hstart : StopsBefore isBlank (word ++ (behind ++ rest)) :=
      stopsBefore_append (fun _ => isBlank_of_isLetterAnyCase) hne hletters _
    simp only [keyword, fits_bind, fits_pure, List.append_assoc]
    exact ⟨before, _, fits_run1_append hbefore hblanks hstart, word, _, fits_word_append hword _,
      behind, _, fits_run1_append hbehind hblanks' hrest, trivial, rfl⟩

/-! ## What the detecting shapes fit -/

theorem fits_lastDigit {s rest : Text} {d : Char} :
    Fits lastDigit s d rest ↔ s = d :: rest ∧ isDigit d = true :=
  fits_one

theorem bears_of_looksLikeSum {s : Text} (h : looksLikeSum.fitsWithin s = true) : Bears s := by
  obtain ⟨front, behind, rfl, e, rest, hfits⟩ := fitsWithin_iff.mp h
  simp only [looksLikeSum, fits_bind, fits_pure, fits_lastDigit, fits_one] at hfits
  obtain ⟨d, t, ⟨rfl, hd⟩, gap₁, t₁, hgap₁, unit, t₂, hunit, gap₂, t₃, hgap₂, sign, t₄,
    ⟨rfl, hsign⟩, gap₃, t₅, hgap₃, count, t₆, hcount, gap₄, t₇, hgap₄, u, t₈, ⟨rfl, hu⟩, -, rfl⟩ :=
    hfits
  obtain ⟨hblanks₁, rfl⟩ := of_fits_run hgap₁
  obtain ⟨hne, hchars, rfl⟩ := of_fits_many1 hunit
  obtain ⟨hblanks₂, rfl⟩ := of_fits_run hgap₂
  obtain ⟨hblanks₃, rfl⟩ := of_fits_run hgap₃
  obtain ⟨hcountne, hdigits, rfl⟩ := of_fits_run1 hcount
  obtain ⟨hblanks₄, rfl⟩ := of_fits_run hgap₄
  simp only [Bool.or_eq_true, beq_iff_eq] at hsign
  refine ⟨front, _, rest, ?_, .sum hd hblanks₁ hne hchars hblanks₂ hsign hblanks₃ hcountne hdigits
    hblanks₄ hu⟩
  simp

theorem bears_of_looksLikeConversion {s : Text} (h : looksLikeConversion.fitsWithin s = true) :
    Bears s := by
  obtain ⟨front, behind, rfl, e, rest, hfits⟩ := fitsWithin_iff.mp h
  simp only [looksLikeConversion, fits_bind, fits_pure, fits_lastDigit, fits_one] at hfits
  obtain ⟨d, t, ⟨rfl, hd⟩, gap, t₁, hgap, unit, t₂, hunit, before, t₃, hbefore, word, t₄, hword,
    behind, t₅, hbehind, u, t₆, ⟨rfl, hu⟩, -, rfl⟩ := hfits
  obtain ⟨hblanks, rfl⟩ := of_fits_run hgap
  obtain ⟨hne, hchars, rfl⟩ := of_fits_run1 hunit
  obtain ⟨hbeforene, hbeforeblank, rfl⟩ := of_fits_run1 hbefore
  obtain ⟨rfl, rfl⟩ := of_fits_exactly hword
  obtain ⟨hbehindne, hbehindblank, rfl⟩ := of_fits_run1 hbehind
  refine ⟨front, _, rest, ?_, .conversion hd hblanks hne hchars hbeforene hbeforeblank hbehindne
    hbehindblank hu⟩
  simp

theorem bears_of_looksLikeTemperature {s : Text} (h : looksLikeTemperature.fitsWithin s = true) :
    Bears s := by
  obtain ⟨front, behind, rfl, e, rest, hfits⟩ := fitsWithin_iff.mp h
  simp only [looksLikeTemperature, fits_bind, fits_pure, fits_lastDigit, fits_one] at hfits
  obtain ⟨d, t, ⟨rfl, hd⟩, gap, t₁, hgap, a, t₂, ⟨rfl, ha⟩, e', t₃, hkeyword, b, t₄, ⟨rfl, hb⟩, -,
    rfl⟩ := hfits
  obtain ⟨hblanks, rfl⟩ := of_fits_run hgap
  obtain ⟨key, hkey, rfl⟩ := of_keyword hkeyword
  refine ⟨front, _, rest, ?_, .scales hd hblanks ha hkey hb⟩
  simp

theorem of_fits_currencyCode {s code rest : Text} (h : Fits currencyCode s code rest) :
    code.length = 3 ∧ (∀ c ∈ code, Text.isLetterAnyCase c = true) ∧ code ++ rest = s := by
  simp only [currencyCode, fits_bind, fits_pure, fits_one] at h
  obtain ⟨a, t, ⟨rfl, ha⟩, b, t', ⟨rfl, hb⟩, c, t'', ⟨rfl, hc⟩, rfl, rfl⟩ := h
  exact ⟨rfl, by simp [ha, hb, hc], rfl⟩

theorem fits_currencyCode {code : Text} (hlength : code.length = 3)
    (hcode : ∀ c ∈ code, Text.isLetterAnyCase c = true) (rest : Text) :
    Fits currencyCode (code ++ rest) code rest := by
  obtain ⟨a, b, c, rfl⟩ := List.length_eq_three.mp hlength
  simp only [List.mem_cons, List.not_mem_nil, or_false, forall_eq_or_imp, forall_eq] at hcode
  simp only [currencyCode, fits_bind, fits_pure, fits_one]
  exact ⟨a, _, ⟨rfl, hcode.1⟩, b, _, ⟨rfl, hcode.2.1⟩, c, _, ⟨rfl, hcode.2.2⟩, rfl, rfl⟩

theorem bears_of_looksLikeCurrency {s : Text} (h : looksLikeCurrency.fitsWithin s = true) :
    Bears s := by
  obtain ⟨front, behind, rfl, e, rest, hfits⟩ := fitsWithin_iff.mp h
  simp only [looksLikeCurrency, fits_bind, fits_pure, fits_lastDigit] at hfits
  obtain ⟨d, t, ⟨rfl, hd⟩, gap, t₁, hgap, code, t₂, hcode, e', t₃, hkeyword, code', t₄, hcode', -,
    rfl⟩ := hfits
  obtain ⟨hgapne, hblanks, rfl⟩ := of_fits_run1 hgap
  obtain ⟨hlength, hletters, rfl⟩ := of_fits_currencyCode hcode
  obtain ⟨key, hkey, rfl⟩ := of_keyword hkeyword
  obtain ⟨hlength', hletters', rfl⟩ := of_fits_currencyCode hcode'
  refine ⟨front, _, rest, ?_, .codes hd hgapne hblanks hlength hletters hkey hlength' hletters'⟩
  simp

theorem bears_of_looksLikeBase {s : Text} (h : looksLikeBase.fitsWithin s = true) : Bears s := by
  obtain ⟨front, behind, rfl, e, rest, hfits⟩ := fitsWithin_iff.mp h
  simp only [looksLikeBase, fits_bind, fits_pure, fits_one, fits_anyWord] at hfits
  obtain ⟨c, t, ⟨rfl, hc⟩, e', t₁, hkeyword, name, t₂, ⟨w, hw, hname⟩, -, rfl⟩ := hfits
  obtain ⟨key, hkey, rfl⟩ := of_keyword hkeyword
  obtain ⟨hsame, rfl⟩ := of_fits_word hname
  have hbase : ∃ w ∈ ["hex", "octal", "binary", "decimal"],
      Text.sameLetters name w.toList = true := by
    simp only [List.mem_cons, List.not_mem_nil, or_false] at hw
    rcases hw with rfl | rfl | rfl | rfl
    · exact ⟨"hex", by simp, hsame⟩
    · exact ⟨"octal", by simp, hsame⟩
    · exact ⟨"binary", by simp, hsame⟩
    · exact ⟨"decimal", by simp, hsame⟩
  refine ⟨front, _, rest, ?_, .base (by simpa [isOnLine] using hc) hkey hbase⟩
  simp

/-! ## Lines that bear a telltale -/

theorem fits_of_sum {d sign u : Char} {gap₁ unit gap₂ gap₃ count gap₄ : Text}
    (hd : isDigit d = true) (hgap₁ : ∀ c ∈ gap₁, isBlank c = true) (hne : unit ≠ [])
    (hunit : ∀ c ∈ unit, isPlainUnitChar c = true) (hgap₂ : ∀ c ∈ gap₂, isBlank c = true)
    (hsign : sign = '+' ∨ sign = '-') (hgap₃ : ∀ c ∈ gap₃, isBlank c = true) (hcount : count ≠ [])
    (hdigits : ∀ c ∈ count, isDigit c = true) (hgap₄ : ∀ c ∈ gap₄, isBlank c = true)
    (hu : isPlainUnitChar u = true) (rest : Text) :
    Fits looksLikeSum
      (d :: (gap₁ ++ (unit ++ (gap₂ ++ sign :: (gap₃ ++ (count ++ (gap₄ ++ u :: rest)))))))
      () rest := by
  have hunitstart := stopsBefore_append (fun _ => isBlank_of_isPlainUnitChar) hne hunit
    (gap₂ ++ sign :: (gap₃ ++ (count ++ (gap₄ ++ u :: rest))))
  have hsignstart : StopsBefore isBlank (sign :: (gap₃ ++ (count ++ (gap₄ ++ u :: rest)))) :=
    stopsBefore_visible (by rcases hsign with rfl | rfl <;> decide) _
  have hcountstart := stopsBefore_append (fun _ => Text.isBlank_of_isDigit) hcount hdigits
    (gap₄ ++ u :: rest)
  have hlast : StopsBefore isBlank (u :: rest) :=
    stopsBefore_visible (isBlank_of_isPlainUnitChar hu) rest
  have hend : StopsBefore isDigit (gap₄ ++ u :: rest) :=
    stopsBefore_isDigit_gap hgap₄ (Text.stopsBefore_cons.mpr
      (isDigit_of_isTargetChar (isTargetChar_of_isPlainUnitChar hu)))
  simp only [looksLikeSum, fits_bind, fits_pure, fits_lastDigit, fits_one]
  exact ⟨d, _, ⟨rfl, hd⟩, gap₁, _, fits_run_append hgap₁ hunitstart, unit, _,
    fits_many1_append hne hunit _, gap₂, _, fits_run_append hgap₂ hsignstart, sign, _,
    ⟨rfl, by simpa using hsign⟩, gap₃, _, fits_run_append hgap₃ hcountstart, count, _,
    fits_run1_append hcount hdigits hend, gap₄, _, fits_run_append hgap₄ hlast, u, _, ⟨rfl, hu⟩,
    trivial, rfl⟩

theorem fits_of_conversion {d u : Char} {gap unit before behind : Text} (hd : isDigit d = true)
    (hgap : ∀ c ∈ gap, isBlank c = true) (hne : unit ≠ [])
    (hunit : ∀ c ∈ unit, isPlainUnitChar c = true) (hbefore : before ≠ [])
    (hblanks : ∀ c ∈ before, isBlank c = true) (hbehind : behind ≠ [])
    (hblanks' : ∀ c ∈ behind, isBlank c = true) (hu : isPlainUnitChar u = true) (rest : Text) :
    Fits looksLikeConversion
      (d :: (gap ++ (unit ++ (before ++ ("in".toList ++ (behind ++ u :: rest)))))) () rest := by
  have hunitstart := stopsBefore_append (fun _ => isBlank_of_isPlainUnitChar) hne hunit
    (before ++ ("in".toList ++ (behind ++ u :: rest)))
  have hunitend := stopsBefore_append (fun _ => isPlainUnitChar_of_isBlank) hbefore hblanks
    ("in".toList ++ (behind ++ u :: rest))
  have hword : StopsBefore isBlank ("in".toList ++ (behind ++ u :: rest)) :=
    stopsBefore_visible (by decide) _
  have hlast : StopsBefore isBlank (u :: rest) :=
    stopsBefore_visible (isBlank_of_isPlainUnitChar hu) rest
  simp only [looksLikeConversion, fits_bind, fits_pure, fits_lastDigit, fits_one]
  exact ⟨d, _, ⟨rfl, hd⟩, gap, _, fits_run_append hgap hunitstart, unit, _,
    fits_run1_append hne hunit hunitend, before, _, fits_run1_append hbefore hblanks hword, _, _,
    fits_exactly_append _ _, behind, _, fits_run1_append hbehind hblanks' hlast, u, _, ⟨rfl, hu⟩,
    trivial, rfl⟩

theorem fits_of_scales {d a b : Char} {gap key : Text} (hd : isDigit d = true)
    (hgap : ∀ c ∈ gap, isBlank c = true) (ha : isScaleLetter a = true) (hkey : Keyword "to" key)
    (hb : isScaleLetter b = true) (rest : Text) :
    Fits looksLikeTemperature (d :: (gap ++ a :: (key ++ b :: rest))) () rest := by
  have hvisible {c : Char} (hc : isScaleLetter c = true) (s : Text) :
      StopsBefore isBlank (c :: s) :=
    stopsBefore_visible (isBlank_of_isLetterAnyCase (isLetterAnyCase_of_isScaleLetter hc)) s
  simp only [looksLikeTemperature, fits_bind, fits_pure, fits_lastDigit, fits_one]
  exact ⟨d, _, ⟨rfl, hd⟩, gap, _, fits_run_append hgap (hvisible ha _), a, _, ⟨rfl, ha⟩, (), _,
    hkey.fits (by simp) (hvisible hb rest), b, _, ⟨rfl, hb⟩, trivial, rfl⟩

theorem fits_of_codes {d : Char} {gap code key code' : Text} (hd : isDigit d = true)
    (hgapne : gap ≠ []) (hgap : ∀ c ∈ gap, isBlank c = true) (hlength : code.length = 3)
    (hcode : ∀ c ∈ code, Text.isLetterAnyCase c = true) (hkey : Keyword "to" key)
    (hlength' : code'.length = 3) (hcode' : ∀ c ∈ code', Text.isLetterAnyCase c = true)
    (rest : Text) :
    Fits looksLikeCurrency (d :: (gap ++ (code ++ (key ++ (code' ++ rest))))) () rest := by
  have hvisible {w : Text} (hw : w.length = 3) (hletters : ∀ c ∈ w, Text.isLetterAnyCase c = true)
      (s : Text) : StopsBefore isBlank (w ++ s) :=
    stopsBefore_append (fun _ => isBlank_of_isLetterAnyCase)
      (List.length_pos_iff.mp (hw ▸ Nat.succ_pos 2)) hletters s
  simp only [looksLikeCurrency, fits_bind, fits_pure, fits_lastDigit]
  exact ⟨d, _, ⟨rfl, hd⟩, gap, _, fits_run1_append hgapne hgap (hvisible hlength hcode _), code, _,
    fits_currencyCode hlength hcode _, (), _, hkey.fits (by simp) (hvisible hlength' hcode' rest),
    code', _, fits_currencyCode hlength' hcode' rest, trivial, rfl⟩

theorem fits_of_base {c : Char} {key name : Text} {w : String} (hc : c ≠ '\n')
    (hkey : Keyword "in" key) (hw : w ∈ ["hex", "octal", "binary", "decimal"])
    (hname : Text.sameLetters name w.toList = true) (rest : Text) :
    Fits looksLikeBase (c :: (key ++ (name ++ rest))) () rest := by
  have hlineword : w ∈ lineWords := by
    simp only [List.mem_cons, List.not_mem_nil, or_false] at hw
    rcases hw with rfl | rfl | rfl | rfl <;> decide
  obtain ⟨hne, hletters⟩ := letters_of_word hlineword hname
  have hstart : StopsBefore isBlank (name ++ rest) :=
    stopsBefore_append (fun _ => isBlank_of_isLetterAnyCase) hne hletters rest
  simp only [looksLikeBase, fits_bind, fits_pure, fits_one, fits_anyWord]
  exact ⟨c, _, ⟨rfl, by simpa [isOnLine] using hc⟩, (), _, hkey.fits (by simp) hstart, name, _,
    ⟨w.toList, List.mem_map_of_mem (f := String.toList) hw, fits_word_append hname rest⟩, trivial,
    rfl⟩

/-- A line that bears a telltale looks like a query. -/
theorem looksLikeQuery_of_bears {s : Text} (h : Bears s) : looksLikeQuery s = true := by
  obtain ⟨front, part, behind, hsplit, htelltale⟩ := h
  have hwithin {x : Shape Unit} (hfits : Fits x (part ++ behind) () behind) :
      x.fitsWithin s = true :=
    fitsWithin_iff.mpr ⟨front, part ++ behind, hsplit, (), behind, hfits⟩
  simp only [looksLikeQuery, Bool.or_eq_true]
  cases htelltale with
  | spaced =>
    have hin : Text.occursIn " in ".toList s = true :=
      Text.occursIn_iff.mpr ⟨front, behind, hsplit⟩
    have hletter : s.any Text.isLetter = true := by
      rw [List.any_eq_true]
      exact ⟨'i', by simp [← hsplit], by decide⟩
    simp only [hin, hletter, Bool.and_self, true_or]
  | sum hd hgap₁ hne hunit hgap₂ hsign hgap₃ hcount hdigits hgap₄ hu =>
    have hfits := fits_of_sum hd hgap₁ hne hunit hgap₂ hsign hgap₃ hcount hdigits hgap₄ hu behind
    have hsum := @hwithin looksLikeSum (by simpa using hfits)
    simp [hsum]
  | conversion hd hgap hne hunit hbefore hblanks hbehind hblanks' hu =>
    have hfits := fits_of_conversion hd hgap hne hunit hbefore hblanks hbehind hblanks' hu behind
    have hconversion := @hwithin looksLikeConversion (by simpa using hfits)
    simp [hconversion]
  | scales hd hgap ha hkey hb =>
    have hfits := fits_of_scales hd hgap ha hkey hb behind
    have hscales := @hwithin looksLikeTemperature (by simpa using hfits)
    simp [hscales]
  | codes hd hgapne hgap hlength hcode hkey hlength' hcode' =>
    have hfits := fits_of_codes hd hgapne hgap hlength hcode hkey hlength' hcode' behind
    have hcodes := @hwithin looksLikeCurrency (by simpa using hfits)
    simp [hcodes]
  | base hc hkey hname =>
    obtain ⟨w, hw, hname⟩ := hname
    have hfits := fits_of_base hc hkey hw hname behind
    have hbase := @hwithin looksLikeBase (by simpa using hfits)
    simp [hbase]

/-! ## What the rules for conversions answer -/

/-- The rules that convert quantities, sums and products. -/
def Rule.conversions : List Rule :=
  [.feetInches, .product, .group, .twoUnits, .conversion, .sum]

theorem asks_of_apply {s t : Text} {rule : Rule} (hrule : rule ∈ Rule.conversions)
    (h : rule.apply s = .answer t) :
    ∃ value target us, us ≠ [] ∧ Asks s value target ∧ Quantities us (bare value) ∧
      (target = none → rule = .sum) := by
  simp only [Rule.conversions, List.mem_cons, List.not_mem_nil, or_false] at hrule
  rcases hrule with rfl | rfl | rfl | rfl | rfl | rfl
  · obtain ⟨target, value, us, -, hne, hasks, hquantities, -⟩ := keeps_answerFeetInches h
    exact ⟨value, some target, us, hne, hasks, hquantities, nofun⟩
  · have h := ofOption_eq_answer.mp h
    simp only [Option.bind_eq_bind, Option.bind_eq_some_iff] at h
    obtain ⟨⟨⟨n, u⟩, ⟨m, v⟩, target⟩, hread, -⟩ := h
    obtain ⟨value, hasks, hquantities⟩ := of_productShape hread
    exact ⟨value, some target, [u, v], List.cons_ne_nil _ _, hasks, hquantities, nofun⟩
  · obtain ⟨target, value, us, -, hne, hasks, hquantities, -⟩ := keeps_answerGroup h
    exact ⟨value, some target, us, hne, hasks, hquantities, nofun⟩
  · obtain ⟨target, hkeeps | hcrosses⟩ := keeps_answerTwoUnits h
    · obtain ⟨value, us, -, hne, hasks, hquantities, -⟩ := hkeeps
      exact ⟨value, some target, us, hne, hasks, hquantities, nofun⟩
    · obtain ⟨value, us, -, hne, hasks, hquantities, -⟩ := hcrosses
      exact ⟨value, some target, us, hne, hasks, hquantities, nofun⟩
  · obtain ⟨target, value, us, -, hne, hasks, hquantities, -⟩ := keeps_answerConversion h
    exact ⟨value, some target, us, hne, hasks, hquantities, nofun⟩
  · obtain ⟨value, us, -, hne, hasks, hquantities, -⟩ := keeps_answerSum h
    exact ⟨value, none, us, hne, hasks, hquantities, fun _ => rfl⟩

theorem Asks.exists_append {s value : Text} {target : Option Text} (h : Asks s value target) :
    ∃ rest, value ++ rest = s := by
  cases h with
  | alone => exact ⟨[], List.append_nil _⟩
  | within => exact ⟨_, rfl⟩

theorem isUnitMark_of_isSpacing {c : Char} (h : isSpacing c = true) : isUnitMark c = false := by
  simp only [isSpacing, Bool.or_eq_true, beq_iff_eq] at h
  rcases h with (h | rfl) | rfl
  · exact isUnitMark_of_isBlank h
  · decide
  · decide

/-- What names quantities has a digit, and does not begin with a unit. -/
theorem head_of_quantities {value : Text} {us : List Text} (hus : us ≠ [])
    (h : Quantities us (bare value)) :
    (∃ d ∈ value, isDigit d = true) ∧ ∃ c rest, value = c :: rest ∧ isUnitMark c = false := by
  generalize hbare : bare value = s at h
  cases h with
  | done => exact absurd rfl hus
  | @more amount unit rest us hmarks hdigit hne hunit hrest =>
    obtain ⟨d, hd, hdigit⟩ := hdigit
    have hmem : d ∈ bare value := by
      rw [hbare]
      exact List.mem_append_left _ hd
    refine ⟨⟨d, (mem_bare.mp hmem).1, hdigit⟩, ?_⟩
    cases value with
    | nil => cases (mem_bare.mp hmem).1
    | cons c value =>
      refine ⟨c, value, rfl, ?_⟩
      cases hc : isSpacing c with
      | true => exact isUnitMark_of_isSpacing hc
      | false =>
        rw [bare_cons_of_not hc] at hbare
        obtain ⟨b, amount, rfl⟩ := List.exists_cons_of_ne_nil (List.ne_nil_of_mem hd)
        obtain ⟨rfl, -⟩ := List.cons.inj hbare
        exact hmarks _ List.mem_cons_self

section Answered

variable {s value : Text} {target : Option Text} {us : List Text}

/-- A line with quantities is no call of a function. -/
theorem not_functionCall (hus : us ≠ []) (hasks : Asks s value target)
    (hquantities : Quantities us (bare value)) : functionCall.fits s = false := by
  by_contra hcall
  rw [Bool.not_eq_false, fits_iff] at hcall
  obtain ⟨e, rest, hfits⟩ := hcall
  obtain ⟨-, c, v, rfl, hmark⟩ := head_of_quantities hus hquantities
  obtain ⟨w, rfl⟩ := hasks.exists_append
  simp only [functionCall, fits_bind, fits_pure] at hfits
  obtain ⟨name, t, hname, -⟩ := hfits
  obtain ⟨hne, hletters, hsplit⟩ := of_fits_run1 hname
  obtain ⟨d, name, rfl⟩ := List.exists_cons_of_ne_nil hne
  obtain ⟨rfl, -⟩ := List.cons.inj hsplit
  have hletter := hletters d List.mem_cons_self
  have hsign : d ≠ '-' ∧ d ≠ '/' := by
    constructor
    · rintro rfl
      revert hletter
      decide
    · rintro rfl
      revert hletter
      decide
  simp [isUnitMark, isTargetChar_of_isLetterAnyCase hletter, hsign] at hmark

theorem digit_mem (hus : us ≠ []) (hasks : Asks s value target)
    (hquantities : Quantities us (bare value)) : ∃ d ∈ s, isDigit d = true := by
  obtain ⟨⟨d, hd, hdigit⟩, -⟩ := head_of_quantities hus hquantities
  obtain ⟨w, rfl⟩ := hasks.exists_append
  exact ⟨d, List.mem_append_left _ hd, hdigit⟩

/-- A line with quantities is no single word. -/
theorem not_singleWord (hus : us ≠ []) (hasks : Asks s value target)
    (hquantities : Quantities us (bare value)) : singleWord.fits s = false := by
  by_contra hword
  rw [Bool.not_eq_false, fits_iff] at hword
  obtain ⟨e, rest, hfits⟩ := hword
  simp only [singleWord, plainUnit, fits_bind] at hfits
  obtain ⟨w, t, hw, hend⟩ := hfits
  obtain ⟨-, hchars, rfl⟩ := of_fits_run1 hw
  obtain ⟨d, hd, hdigit⟩ := digit_mem hus hasks hquantities
  rcases List.mem_append.mp hd with hd | hd
  · rw [isDigit_of_isTargetChar (isTargetChar_of_plainUnit (hchars d hd))] at hdigit
    cases hdigit
  · rw [Text.isDigit_of_isBlank (isBlank_of_atEnd hend d hd)] at hdigit
    cases hdigit

end Answered

/-- In a text that begins with a run of the class `p`, whatever changes class after its first
character goes on behind the run. -/
theorem sublist_of_run {p : Char → Bool} {w t l : Text} {x y : Char} (hw : ∀ c ∈ w, p c = true)
    (hy : p y = false) (h : List.Sublist (x :: y :: l) (w ++ t)) : List.Sublist (y :: l) t := by
  obtain ⟨l₁, l₂, hsplit, hleft, hright⟩ := List.sublist_append_iff.mp h
  match l₁, hsplit, hleft with
  | [], hsplit, _ =>
    rw [List.nil_append] at hsplit
    rw [← hsplit] at hright
    exact (List.sublist_cons_self x _).trans hright
  | [_], hsplit, _ =>
    cases hsplit
    exact hright
  | _ :: _ :: _, hsplit, hleft =>
    cases hsplit
    have hmem := hw y (hleft.subset (by simp))
    rw [hy] at hmem
    cases hmem

theorem of_plainQuantity {s rest : Text} {e : Unit} (h : Fits plainQuantity s e rest) :
    ∃ w gap unit tail, w ++ (gap ++ (unit ++ tail)) = s ∧
      IsAmount '/' w ∧ (∀ c ∈ gap, isBlank c = true) ∧
      (∀ c ∈ unit, isPlainUnitChar c = true) ∧ ∀ c ∈ tail, isBlank c = true := by
  simp only [plainQuantity, fits_bind, fits_opt, fits_char] at h
  obtain ⟨whole, t, hwhole, fraction, t₁, hfraction, gap, t₂, hgap, unit, t₃, hunit, hend⟩ := h
  obtain ⟨hne, hdigits, rfl⟩ := of_fits_run1 hwhole
  obtain ⟨hblanks, rfl⟩ := of_fits_run hgap
  obtain ⟨-, hchars, rfl⟩ := of_fits_run1 hunit
  rcases hfraction with ⟨denominator, -, c, t, ⟨rfl, -⟩, hdenominator⟩ | ⟨-, rfl⟩
  · obtain ⟨-, hdigits', rfl⟩ := of_fits_run1 hdenominator
    exact ⟨whole ++ '/' :: denominator, gap, unit, t₃, by simp, .marked hne hdigits hdigits',
      hblanks, hchars, isBlank_of_atEnd hend⟩
  · exact ⟨whole, gap, unit, t₃, rfl, .whole hne hdigits, hblanks, hchars, isBlank_of_atEnd hend⟩

/-- A line that asks for a target is no single quantity: it has blanks in two places. -/
theorem not_plainQuantity {s value target : Text} {us : List Text} (hus : us ≠ [])
    (hasks : Asks s value (some target)) (hquantities : Quantities us (bare value)) :
    plainQuantity.fits s = false := by
  obtain ⟨⟨d, hd, hdigit⟩, -⟩ := head_of_quantities hus hquantities
  by_contra hplain
  rw [Bool.not_eq_false, fits_iff] at hplain
  obtain ⟨e, rest, hfits⟩ := hplain
  -- A digit, a blank, a letter of the keyword, a blank and a character of the target, in this order.
  obtain ⟨b, x, b', y, hb, hx, hb', hy, hsublist⟩ : ∃ b x b' y, isBlank b = true ∧
      isBlank x = false ∧ isBlank b' = true ∧ isBlank y = false ∧
      List.Sublist [d, b, x, b', y] s := by
    cases hasks with
    | @within _ key _ tail hkey htarget hchars htail =>
      obtain ⟨w, hw, hkey⟩ := hkey
      cases hkey with
      | @mk before word behind hbefore hblanks hword hbehind hblanks' =>
        have hlineword : w ∈ lineWords := by
          rcases List.mem_pair.mp hw with rfl | rfl <;> decide
        obtain ⟨hne, hletters⟩ := letters_of_word hlineword hword
        obtain ⟨b, hb⟩ := List.exists_mem_of_ne_nil before hbefore
        obtain ⟨x, hx⟩ := List.exists_mem_of_ne_nil word hne
        obtain ⟨b', hb'⟩ := List.exists_mem_of_ne_nil behind hbehind
        obtain ⟨y, hy⟩ := List.exists_mem_of_ne_nil target htarget
        refine ⟨b, x, b', y, hblanks b hb, isBlank_of_isLetterAnyCase (hletters x hx),
          hblanks' b' hb', isBlank_of_isTargetChar (hchars y hy), ?_⟩
        have hend := (List.singleton_sublist.mpr hy).trans (List.sublist_append_left target tail)
        have hkeyword := (List.singleton_sublist.mpr hb).append
          ((List.singleton_sublist.mpr hx).append (List.singleton_sublist.mpr hb'))
        exact (List.singleton_sublist.mpr hd).append (hkeyword.append hend)
  obtain ⟨w, gap, unit, tail, rfl, hw, hgap, hunit, htail⟩ := of_plainQuantity hfits
  have hfromgap := sublist_of_run (p := fun c => !isBlank c)
    (fun c hc => by simp [hw.visible (by decide) c hc]) (by simp [hb]) hsublist
  have hfromunit := sublist_of_run hgap hx hfromgap
  have hfromtail := sublist_of_run (p := fun c => !isBlank c)
    (fun c hc => by simp [isBlank_of_isPlainUnitChar (hunit c hc)]) (by simp [hb']) hfromunit
  have hlast := htail y (hfromtail.subset (by simp))
  rw [hy] at hlast
  cases hlast

theorem isMicroUnitChar_of_isPlainUnitChar {c : Char} (h : isPlainUnitChar c = true) :
    Measure.isMicroUnitChar c = true := by
  rw [isPlainUnitChar, Bool.or_eq_true] at h
  rcases h with h | h
  · simp [Measure.isMicroUnitChar, Measure.isUnitChar, h]
  · simp [Measure.isMicroUnitChar, Measure.isUnitChar, h]

/-- A plain quantity alone is one that halts the search. -/
theorem bareQuantity_of_plainQuantity {s : Text} (h : plainQuantity.fits s = true) :
    bareQuantity.fits s = true := by
  obtain ⟨e, rest, hfits⟩ := fits_iff.mp h
  simp only [plainQuantity, fits_bind] at hfits
  obtain ⟨whole, t, hwhole, fraction, t₁, hfraction, gap, t₂, hgap, unit, t₃, hunit, hend⟩ := hfits
  obtain ⟨hne, hchars, rfl⟩ := of_fits_run1 hunit
  have hstop : StopsBefore Measure.isMicroUnitChar t₃ := by
    rcases (Text.Shape.fits_atEnd.mp hend).1 with rfl | rfl
    · exact Text.stopsBefore_nil _
    · exact Text.stopsBefore_cons.mpr (by decide)
  have hmicro := fits_run1_append hne (fun c hc => isMicroUnitChar_of_isPlainUnitChar (hchars c hc))
    hstop
  rw [fits_iff]
  simp only [bareQuantity, Measure.unitToEnd, fits_bind, fits_pure]
  exact ⟨(), _, whole, t, hwhole, fraction, t₁, hfraction, gap, _, hgap, unit, _,
    ⟨unit, _, hmicro, e, _, hend, rfl, rfl⟩, trivial, rfl⟩

theorem pass_of_firstAnswer? {s t : Text} {rule : Rule} {front rules : List Rule}
    (hrule : rule ∉ front) (h : firstAnswer? s (front ++ rules) = some (rule, t)) :
    ∀ r ∈ front, r.apply s = .pass := by
  induction front with
  | nil => exact nofun
  | cons first front ih =>
    rw [List.mem_cons, not_or] at hrule
    rw [List.cons_append, firstAnswer?] at h
    split at h
    next hfirst => exact List.forall_mem_cons.mpr ⟨hfirst, ih hrule.2 h⟩
    · cases h
      exact absurd rfl hrule.1
    · cases h

/-- What is answered as a sum is no single quantity. -/
theorem not_plainQuantity_of_sum {s t : Text} (h : firstAnswer? s Rule.all = some (.sum, t)) :
    plainQuantity.fits s = false := by
  have hpass : answerBareQuantity s = .pass :=
    @pass_of_firstAnswer? s t .sum (Rule.all.take 15) (Rule.all.drop 15) (by decide) h
      .bareQuantity (by decide)
  by_contra hplain
  rw [Bool.not_eq_false] at hplain
  rw [answerBareQuantity, if_pos (bareQuantity_of_plainQuantity hplain)] at hpass
  cases hpass

/-- Of the lines that the rules for conversions answer, those are offered to them that bear a
telltale. -/
theorem looksLikeQuery_iff {s t : Text} {rule : Rule} (hrule : rule ∈ Rule.conversions)
    (h : answeredBy? s = some (rule, t)) :
    looksLikeQuery (Text.strip s) = true ↔ Bears (Text.strip s) := by
  obtain ⟨value, target, us, hus, hasks, hquantities, htarget⟩ :=
    asks_of_apply hrule (apply_of_answeredBy? h)
  refine ⟨fun hlooks => ?_, looksLikeQuery_of_bears⟩
  have hplain : plainQuantity.fits (Text.strip s) = false := by
    cases target with
    | some target => exact not_plainQuantity hus hasks hquantities
    | none =>
      obtain rfl := htarget rfl
      rw [answeredBy?] at h
      split at h
      · cases h
      · exact not_plainQuantity_of_sum h
  simp only [looksLikeQuery, not_functionCall hus hasks hquantities,
    not_singleWord hus hasks hquantities, hplain, Bool.or_false, Bool.or_eq_true,
    Bool.and_eq_true] at hlooks
  rcases hlooks with ((((⟨hin, -⟩ | hsum) | hconversion) | hscales) | hcodes) | hbase
  · obtain ⟨front, behind, hsplit⟩ := Text.occursIn_iff.mp hin
    exact ⟨front, _, behind, hsplit, .spaced⟩
  · exact bears_of_looksLikeSum hsum
  · exact bears_of_looksLikeConversion hconversion
  · exact bears_of_looksLikeTemperature hscales
  · exact bears_of_looksLikeCurrency hcodes
  · exact bears_of_looksLikeBase hbase

end Query
end DeskCalc
