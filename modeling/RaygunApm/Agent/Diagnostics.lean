import Mathlib.Data.Nat.Log
import Mathlib.Tactic.IntervalCases
import Mathlib.Tactic.Positivity
import RaygunApm.Library.Numerals
import RaygunApm.Ring.Bipbuffer

/-! # The check of the Agent

`Diagnostics#verify_agent` asks the Agent for its version and turns the tracer into a noop when the
minimum version is not met. The version is a string or a hash of four numbers, and is compared with
the minimum as a string; `minimumAgentVersionNotMet_iff` says for which versions this is the order
of the numbers. -/

namespace RaygunApm

open Numerals

/-! ## The code -/

/-- `.`. -/
def versionDot : UInt8 := 0x2e

/-- Four numbers of a version. -/
structure Version where
  major : Nat
  minor : Nat
  build : Nat
  revision : Nat
deriving DecidableEq

/-- `"#{version['Major']}.#{version['Minor']}.#{version['Build']}.#{version['Revision']}"`. -/
def Version.dotted (v : Version) : Bytes :=
  decimal v.major ++ versionDot :: (decimal v.minor ++ versionDot ::
    (decimal v.build ++ versionDot :: decimal v.revision))

/-- `MINIMUM_AGENT_VERSION`. -/
def minimumAgentVersion : Bytes :=
  [0x31, 0x2e, 0x30, 0x2e, 0x31, 0x31, 0x39, 0x30, 0x2e, 0x30]

/-- `response['Version']`: a string, or a hash of the four numbers. -/
inductive AgentVersion where
  | string (version : Bytes)
  | hash (version : Version)

/-- `minimum_agent_version_not_met?`. Strings are compared byte by byte. -/
def minimumAgentVersionNotMet : AgentVersion → Bool
  | .string version => decide (version < minimumAgentVersion)
  | .hash version => decide (version.dotted < minimumAgentVersion)

/-- What comes of asking the Agent. -/
inductive AgentReply where
  /-- The connection is refused. -/
  | refused
  /-- Any other error, in the connection or in what came back. -/
  | failed
  /-- The reply: `response['Version']` and `response['Status']`. -/
  | info (version : AgentVersion) (status : Option Int)

/-- The texts that `verify_agent` prints. -/
inductive AgentNotice where
  | agentStateDown
  | agentStateUnknown
  | agentStateUpMisconfigured
  | agentStateUpConfigured
  | agentMinimumVersionNotMet
  | profilerNooped
deriving DecidableEq

/-- `verify_agent`: whether `tracer.noop!` is called, and what is printed. -/
def verifyAgent : AgentReply → Bool × List AgentNotice
  | .refused => (false, [.agentStateDown])
  | .failed => (false, [.agentStateUnknown])
  | .info version status =>
      if minimumAgentVersionNotMet version then (true, [.agentMinimumVersionNotMet, .profilerNooped])
      else if status = some 1 then (false, [.agentStateUpConfigured])
      else if status = some 0 then (false, [.agentStateUpMisconfigured])
      else (false, [])

/-! ## The order of versions -/

/-- The version is before the other one, number by number. -/
def Version.Before (v w : Version) : Prop :=
  v.major < w.major ∨ v.major = w.major ∧ (v.minor < w.minor ∨ v.minor = w.minor ∧
    (v.build < w.build ∨ v.build = w.build ∧ v.revision < w.revision))

instance (v w : Version) : Decidable (v.Before w) := by unfold Version.Before; infer_instance

/-- 1.0.1190.0, as numbers. -/
def Version.minimum : Version := ⟨1, 0, 1190, 0⟩

/-- The minimum is written as its numbers are. -/
theorem dotted_minimum : Version.minimum.dotted = minimumAgentVersion := by decide

/-- The build is smaller than 1190 and its numeral is not before that of 1190, or the other way
round. -/
def MisorderedBuild (build : Nat) : Prop :=
  (2 ≤ build ∧ build ≤ 9 ∨ 12 ≤ build ∧ build ≤ 99 ∨ 120 ≤ build ∧ build ≤ 999) ∨
    ∃ j ≥ 1, 1000 * 10 ^ j ≤ build ∧ build < 1190 * 10 ^ j

/-- The version is 1.0 with a build that is misordered. -/
def Version.Misordered (v : Version) : Prop := v.major = 1 ∧ v.minor = 0 ∧ MisorderedBuild v.build

/-! ## Numerals against the minimum -/

/-- The dot comes before the digits. -/
theorem versionDot_lt (n : Nat) : ∀ c ∈ decimal n, versionDot < c := by
  intro c hc
  obtain ⟨d, hd, rfl⟩ := mem_decimal hc
  show versionDot.toNat < (glyph d).toNat
  rw [toNat_glyph hd]
  show 0x2e < 48 + d
  omega

/-- **Versions as strings are compared numeral by numeral.** -/
theorem dotted_lt_dotted_iff (v w : Version) :
    v.dotted < w.dotted ↔
      decimal v.major < decimal w.major ∨ v.major = w.major ∧
        (decimal v.minor < decimal w.minor ∨ v.minor = w.minor ∧
          (decimal v.build < decimal w.build ∨ v.build = w.build ∧
            decimal v.revision < decimal w.revision)) := by
  rw [Version.dotted, Version.dotted, separated_lt_iff (versionDot_lt _) (versionDot_lt _),
    separated_lt_iff (versionDot_lt _) (versionDot_lt _),
    separated_lt_iff (versionDot_lt _) (versionDot_lt _), decimal_injective.eq_iff,
    decimal_injective.eq_iff, decimal_injective.eq_iff]

/-- The length of a numeral between two powers. -/
theorem length_decimal {n k : Nat} (hlow : 10 ^ k ≤ n) (hhigh : n < 10 ^ (k + 1)) :
    (decimal n).length = k + 1 := by
  apply le_antisymm ((length_decimal_le_iff k.succ_pos).mpr hhigh)
  cases k with
  | zero => exact length_decimal_pos n
  | succ k =>
      by_contra hlt
      have hle : (decimal n).length ≤ k + 1 := by omega
      exact absurd ((length_decimal_le_iff k.succ_pos).mp hle) (not_lt.mpr hlow)

/-- The numeral of a number below ten is a single digit. -/
theorem length_decimal_digit {n : Nat} (h : n < 10) : (decimal n).length = 1 :=
  le_antisymm ((length_decimal_le_iff Nat.one_pos).mpr (by simpa using h)) (length_decimal_pos n)

/-- Only the numeral of 0 comes before that of 1: any other starts with 1 or more. -/
theorem decimal_lt_one_iff (n : Nat) : decimal n < decimal 1 ↔ n < 1 := by
  rw [decimal_lt_decimal_iff (by rw [length_decimal_digit (by decide)]; exact length_decimal_pos n),
    length_decimal_digit (n := 1) (by decide)]
  by_cases hn : n < 10
  · rw [length_decimal_digit hn]
    simp
  · -- Of a longer numeral the first digit is left, which is not 0.
    obtain ⟨k, hk⟩ : ∃ k, (decimal n).length = k + 1 :=
      ⟨_, (Nat.succ_pred_eq_of_pos (length_decimal_pos n)).symm⟩
    have hpow : 10 ^ k ≤ n := by
      by_contra hlt
      cases k with
      | zero => simp at hlt; omega
      | succ k =>
          have hle := (length_decimal_le_iff k.succ_pos).mpr (not_le.mp hlt)
          omega
    have hdiv : 1 ≤ n / 10 ^ k := (Nat.one_le_div_iff (by positivity)).mpr hpow
    rw [hk, Nat.add_sub_cancel]
    omega

/-- No numeral comes before that of 0. -/
theorem not_decimal_lt_zero (n : Nat) : ¬ decimal n < decimal 0 := by
  rw [decimal_lt_decimal_iff (by rw [length_decimal_digit (by decide)]; exact length_decimal_pos n)]
  exact Nat.not_lt_zero _

/-- The numeral of the build of the minimum version has four digits. -/
theorem length_decimal_1190 : (decimal 1190).length = 4 :=
  length_decimal (k := 3) (by decide) (by decide)

/-- A power of ten with three zeros more is a thousand times as large. -/
theorem pow_add_three (j : Nat) : 10 ^ (j + 3) = 1000 * 10 ^ j := by
  rw [pow_add]
  ring

/-- A build of fewer digits: its numeral is compared with 1, 11 or 119. -/
theorem decimal_lt_1190_iff_of_short {build : Nat} (hsmall : build < 10 ^ 3) :
    (decimal build < decimal 1190 ↔ build < 1190) ↔ ¬ MisorderedBuild build := by
  obtain ⟨k, hk, hlow, hhigh⟩ : ∃ k < 3, (k ≠ 0 → 10 ^ k ≤ build) ∧ build < 10 ^ (k + 1) := by
    by_cases h1 : build < 10
    · exact ⟨0, by omega, by simp, by simpa using h1⟩
    · by_cases h2 : build < 100
      · exact ⟨1, by omega, fun _ => by omega, by simpa using h2⟩
      · exact ⟨2, by omega, fun _ => by omega, by simpa using hsmall⟩
  have hlength : (decimal build).length = k + 1 := by
    by_cases hzero : k = 0
    · subst hzero
      exact length_decimal_digit (by simpa using hhigh)
    · exact length_decimal (hlow hzero) hhigh
  have hpow : ∀ j ≥ 1, build < 1000 * 10 ^ j := by
    intro j hj
    have hone : 1 ≤ 10 ^ j := Nat.one_le_pow _ _ (by decide)
    omega
  have hmis : MisorderedBuild build ↔
      2 ≤ build ∧ build ≤ 9 ∨ 12 ≤ build ∧ build ≤ 99 ∨ 120 ≤ build ∧ build ≤ 999 := by
    apply or_iff_left
    rintro ⟨j, hj, hle, -⟩
    exact absurd (hpow j hj) (not_lt.mpr hle)
  rw [hmis, decimal_lt_decimal_of_shorter (by rw [length_decimal_1190]; omega), length_decimal_1190,
    hlength]
  interval_cases k <;> norm_num at hlow hhigh ⊢ <;> omega

/-- The number of digits says which power it is. -/
theorem eq_of_misordered {build i j : Nat} (hlow : 10 ^ (j + 3) ≤ build) (hhigh : build < 10 ^ (j + 4))
    (hle : 1000 * 10 ^ i ≤ build) (hlt : build < 1190 * 10 ^ i) : i = j := by
  have hup : 1190 * 10 ^ i ≤ 10 ^ (i + 4) := by
    rw [pow_add, mul_comm]
    exact Nat.mul_le_mul_left _ (by decide)
  have hdown : 10 ^ (i + 3) < 10 ^ (j + 4) := (pow_add_three i).trans_lt (hle.trans_lt hhigh)
  have hover : 10 ^ (j + 3) < 10 ^ (i + 4) := hlow.trans_lt (hlt.trans_le hup)
  have h1 := (Nat.pow_lt_pow_iff_right (by decide)).mp hdown
  have h2 := (Nat.pow_lt_pow_iff_right (by decide)).mp hover
  omega

/-- A build of at least four digits: the first four are compared. -/
theorem decimal_lt_1190_iff_of_long {build : Nat} (hlarge : 10 ^ 3 ≤ build) :
    (decimal build < decimal 1190 ↔ build < 1190) ↔ ¬ MisorderedBuild build := by
  obtain ⟨j, hlow, hhigh⟩ : ∃ j, 10 ^ (j + 3) ≤ build ∧ build < 10 ^ (j + 4) := by
    have hpos : build ≠ 0 := by omega
    refine ⟨Nat.log 10 build - 3, ?_, ?_⟩
    · have hlog : 3 ≤ Nat.log 10 build := Nat.le_log_of_pow_le (by decide) hlarge
      rw [Nat.sub_add_cancel hlog]
      exact Nat.pow_log_le_self 10 hpos
    · exact (Nat.lt_pow_succ_log_self (by decide) build).trans_le
        (Nat.pow_le_pow_right (by decide) (by omega))
  have hlength : (decimal build).length = j + 4 := length_decimal hlow hhigh
  rw [decimal_lt_decimal_iff (by rw [length_decimal_1190]; omega), length_decimal_1190, hlength,
    Nat.add_sub_cancel, Nat.div_lt_iff_lt_mul (by positivity)]
  have hsmall : ¬ (2 ≤ build ∧ build ≤ 9 ∨ 12 ≤ build ∧ build ≤ 99 ∨
      120 ≤ build ∧ build ≤ 999) := by omega
  rw [MisorderedBuild, or_iff_right hsmall]
  cases j with
  | zero =>
      -- with four digits the order is that of the numbers
      apply iff_of_true (by simp)
      rintro ⟨i, hi, hle, hlt⟩
      obtain rfl := eq_of_misordered hlow hhigh hle hlt
      exact absurd hi (by decide)
  | succ j =>
      have hbig : ¬ build < 1190 := by
        have hle : 10 ^ (0 + 4) ≤ 10 ^ (j + 1 + 3) := Nat.pow_le_pow_right (by decide) (by omega)
        norm_num at hle
        omega
      rw [iff_false_right hbig, not_iff_not]
      constructor
      · intro hlt
        exact ⟨j + 1, by omega, pow_add_three (j + 1) ▸ hlow, hlt⟩
      · rintro ⟨i, -, hle, hlt⟩
        obtain rfl := eq_of_misordered hlow hhigh hle hlt
        exact hlt

/-- **The builds that are misordered**: comparing the numerals of a build and of 1190 as strings
gives the order of the numbers unless the build is a misordered one. -/
theorem decimal_lt_1190_iff (build : Nat) :
    (decimal build < decimal 1190 ↔ build < 1190) ↔ ¬ MisorderedBuild build := by
  rcases Nat.lt_or_ge build (10 ^ 3) with hsmall | hlarge
  · exact decimal_lt_1190_iff_of_short hsmall
  · exact decimal_lt_1190_iff_of_long hlarge

/-! ## The check -/

/-- A version is before the minimum, as a string. -/
theorem dotted_lt_minimum_iff (v : Version) :
    v.dotted < minimumAgentVersion ↔
      v.major < 1 ∨ v.major = 1 ∧ v.minor = 0 ∧ decimal v.build < decimal 1190 := by
  have hminor := not_decimal_lt_zero v.minor
  have hrevision := not_decimal_lt_zero v.revision
  rw [← dotted_minimum, dotted_lt_dotted_iff, Version.minimum, decimal_lt_one_iff]
  simp only [hminor, hrevision, and_false, or_false, false_or]

/-- A version is before the minimum, as numbers. -/
theorem before_minimum_iff (v : Version) :
    v.Before .minimum ↔ v.major < 1 ∨ v.major = 1 ∧ v.minor = 0 ∧ v.build < 1190 := by
  simp only [Version.Before, Version.minimum, Nat.not_lt_zero, and_false, or_false, false_or]

/-- The two orders agree on the versions that are not misordered. -/
theorem dotted_lt_minimum_iff_before_iff (v : Version) :
    (v.dotted < minimumAgentVersion ↔ v.Before .minimum) ↔ ¬ v.Misordered := by
  rw [dotted_lt_minimum_iff, before_minimum_iff, Version.Misordered]
  by_cases hmajor : v.major = 1
  · by_cases hminor : v.minor = 0
    · simp only [hmajor, hminor, lt_irrefl, false_or, true_and, decimal_lt_1190_iff]
    · simp [hminor]
  · simp [hmajor]

/-- `verify_agent` turns the tracer off by `tracer.noop!` exactly if the minimum version is not met,
whatever the status. -/
theorem fst_verifyAgent (version : AgentVersion) (status : Option Int) :
    (verifyAgent (.info version status)).1 = minimumAgentVersionNotMet version := by
  rw [verifyAgent]
  cases minimumAgentVersionNotMet version with
  | true => rfl
  | false =>
      rw [if_neg Bool.false_ne_true]
      split_ifs <;> rfl

/-- **The minimum Agent version.** The check answers by the order of the numbers, and the profiler
is disabled by it, for a version given either way, if and only if the version is not 1.0 with a
build of 2 to 9, 12 to 99 or 120 to 999, which are let through, or of 1000 to 1189 followed by more
digits, which are refused. -/
theorem minimumAgentVersionNotMet_iff (v : Version) :
    ((minimumAgentVersionNotMet (.string v.dotted) = true ↔ v.Before .minimum) ∧
      (minimumAgentVersionNotMet (.hash v) = true ↔ v.Before .minimum) ∧
      ∀ status, ((verifyAgent (.info (.string v.dotted) status)).1 = true ↔ v.Before .minimum) ∧
        ((verifyAgent (.info (.hash v) status)).1 = true ↔ v.Before .minimum)) ↔
    ¬ v.Misordered := by
  simp only [fst_verifyAgent, minimumAgentVersionNotMet, decide_eq_true_eq, forall_const, and_self,
    dotted_lt_minimum_iff_before_iff]

/-- Version 1.0.200.0 is older than the minimum and is let through. -/
theorem minimumAgentVersionNotMet_accepts_older :
    ¬ (minimumAgentVersionNotMet (.hash ⟨1, 0, 200, 0⟩) = true ↔
      Version.Before ⟨1, 0, 200, 0⟩ .minimum) := by
  decide

end RaygunApm
