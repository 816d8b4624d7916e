import DeskCalc.Proofs.Attempt
import DeskCalc.Proofs.Number.Digits
import DeskCalc.Settings

/-!
# Limits that can be set

An integer is read up to a number of digits, and the settings are integers that are read or their
defaults.  The length of a history is therefore always a number that a document can hold.
-/

namespace DeskCalc

open Number (digitLimit)

theorem Number.natAbs_wholeInt?_lt {s : Text} {n : Int} (h : Number.wholeInt? s = some n) :
    n.natAbs < 10 ^ digitLimit := by
  rw [Number.wholeInt?] at h
  obtain ⟨given, -, h⟩ := Option.bind_eq_some_iff.mp h
  simp only at h
  split at h
  · cases h
  · obtain ⟨m, hread, heq⟩ := Option.bind_eq_some_iff.mp h
    have habs : n.natAbs = m := by
      rw [← Option.some.inj heq]
      split <;> omega
    rw [habs]
    exact Number.readNat?_lt hread

namespace Settings

variable {env : Environment}

theorem natAbs_integer_lt {name : String} {default n : Int}
    (hdefault : default.natAbs < 10 ^ digitLimit) (h : integer env name default = .ok n) :
    n.natAbs < 10 ^ digitLimit := by
  rw [integer] at h
  split at h
  · cases h
    exact hdefault
  · split at h
    next hread =>
      cases h
      exact Number.natAbs_wholeInt?_lt hread
    · cases h

theorem history_limits_lt {settings : Settings} (h : read env = .ok settings) :
    settings.limits.history < 10 ^ digitLimit := by
  obtain ⟨port, -, h⟩ := bind_eq_ok h
  obtain ⟨maxHistory, hread, h⟩ := bind_eq_ok h
  obtain ⟨maxVariables, -, h⟩ := bind_eq_ok h
  obtain ⟨maxResults, -, h⟩ := bind_eq_ok h
  cases h
  have hdefault : (100 : Int).natAbs < 10 ^ digitLimit :=
    Number.lt_pow_digitLimit (by decide)
  have hlt := natAbs_integer_lt hdefault hread
  have htoNat : maxHistory.toNat ≤ maxHistory.natAbs := by omega
  exact htoNat.trans_lt hlt

end Settings
end DeskCalc
