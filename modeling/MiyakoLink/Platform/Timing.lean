import Mathlib.Data.UInt
import Mathlib.Tactic.Common

/-!
# Timeouts

`timing.c` on the clock of `platform_time_ms`, which is the uptime in milliseconds without what does
not fit into 32 bits. The deadline of a timeout is a sum in 32 bits too, and the two are compared as
numbers.

* `expired_of_deadline_wrap`: a deadline behind the wrap has passed before the clock wraps.
* `not_expired_of_clock_wrap`: one in front of it has not passed any more behind it.
* `expired_iff`: so a timeout is right as long as both have wrapped, or neither has.
-/

namespace MiyakoLink.Platform

/-- `platform_time_ms`, from the microseconds of `System_GetUptime`. -/
def platformTimeMs (uptime : UInt64) : UInt32 := (uptime / 1000).toUInt32

/-- `platform_timeout`. -/
structure PlatformTimeout where
  time : UInt32

/-- `platform_timeout_set`. -/
def platformTimeoutSet (uptime : UInt64) (ms : UInt32) : PlatformTimeout :=
  ⟨platformTimeMs uptime + ms⟩

/-- `platform_timeout_is_expired`. -/
def platformTimeoutIsExpired (uptime : UInt64) (t : PlatformTimeout) : Bool :=
  decide (platformTimeMs uptime > t.time)

/-- The milliseconds from one uptime to a later one. -/
def elapsedMs (start now : UInt64) : Nat := now.toNat / 1000 - start.toNat / 1000

/-- The deadline has wrapped when the timeout is set. -/
def DeadlineWraps (start : UInt64) (ms : UInt32) : Prop :=
  2 ^ 32 ≤ (platformTimeMs start).toNat + ms.toNat

/-- The clock wraps before it has gone on for so long. -/
def ClockWraps (start : UInt64) (elapsed : Nat) : Prop :=
  2 ^ 32 ≤ (platformTimeMs start).toNat + elapsed

instance (start : UInt64) (ms : UInt32) : Decidable (DeadlineWraps start ms) :=
  inferInstanceAs (Decidable (2 ^ 32 ≤ _))

instance (start : UInt64) (elapsed : Nat) : Decidable (ClockWraps start elapsed) :=
  inferInstanceAs (Decidable (2 ^ 32 ≤ _))

section

variable {start now : UInt64} {ms : UInt32}

theorem platformTimeMs_toNat (uptime : UInt64) :
    (platformTimeMs uptime).toNat = uptime.toNat / 1000 % 2 ^ 32 := by
  rw [platformTimeMs, UInt64.toNat_toUInt32, UInt64.toNat_div]
  rfl

/-- The clock goes on with the time, in 32 bits. -/
theorem clock_toNat (h : start ≤ now) :
    (platformTimeMs now).toNat = ((platformTimeMs start).toNat + elapsedMs start now) % 2 ^ 32 := by
  have hdiv : start.toNat / 1000 ≤ now.toNat / 1000 :=
    Nat.div_le_div_right (UInt64.le_iff_toNat_le.mp h)
  rw [platformTimeMs_toNat, platformTimeMs_toNat, elapsedMs]
  omega

theorem isExpired_iff : platformTimeoutIsExpired now (platformTimeoutSet start ms) = true ↔
    ((platformTimeMs start).toNat + ms.toNat) % 2 ^ 32 < (platformTimeMs now).toNat := by
  unfold platformTimeoutIsExpired platformTimeoutSet
  rw [decide_eq_true_iff, gt_iff_lt, UInt32.lt_iff_toNat_lt, UInt32.toNat_add]

/-- Before the clock wraps, every deadline behind the wrap has passed. -/
theorem expired_of_deadline_wrap (h : start ≤ now) (hdeadline : DeadlineWraps start ms)
    (hclock : ¬ ClockWraps start (elapsedMs start now)) :
    platformTimeoutIsExpired now (platformTimeoutSet start ms) = true := by
  have hstart := (platformTimeMs start).toNat_lt
  have hms := ms.toNat_lt
  unfold DeadlineWraps at hdeadline
  unfold ClockWraps at hclock
  rw [isExpired_iff, clock_toNat h]
  omega

/-- When the clock has wrapped, no deadline in front of the wrap has passed, unless the clock has
come round to it. -/
theorem not_expired_of_clock_wrap (h : start ≤ now) (hdeadline : ¬ DeadlineWraps start ms)
    (hclock : ClockWraps start (elapsedMs start now)) (helapsed : elapsedMs start now < 2 ^ 31) :
    platformTimeoutIsExpired now (platformTimeoutSet start ms) = false := by
  have hstart := (platformTimeMs start).toNat_lt
  unfold DeadlineWraps at hdeadline
  unfold ClockWraps at hclock
  rw [Bool.eq_false_iff, Ne, isExpired_iff, clock_toNat h]
  omega

/-- With both on the same side of the wrap, the comparison is one of the times themselves. -/
theorem isExpired_of_same_side (h : start ≤ now) (helapsed : elapsedMs start now < 2 ^ 31)
    (hside : DeadlineWraps start ms ↔ ClockWraps start (elapsedMs start now)) :
    platformTimeoutIsExpired now (platformTimeoutSet start ms) = true ↔
      ms.toNat < elapsedMs start now := by
  have hstart := (platformTimeMs start).toNat_lt
  have hms := ms.toNat_lt
  unfold DeadlineWraps ClockWraps at hside
  rw [isExpired_iff, clock_toNat h]
  omega

/-- A timeout is expired just if more than its time has passed, as long as the deadline and the
clock have both wrapped or both not wrapped. -/
theorem expired_iff (h : start ≤ now) (helapsed : elapsedMs start now < 2 ^ 31) :
    (platformTimeoutIsExpired now (platformTimeoutSet start ms) = true ↔
      ms.toNat < elapsedMs start now) ↔
    (DeadlineWraps start ms ↔ ClockWraps start (elapsedMs start now)) := by
  refine ⟨fun hright => ?_, isExpired_of_same_side h helapsed⟩
  constructor
  · intro hdeadline
    by_contra hclock
    have hpassed := hright.mp (expired_of_deadline_wrap h hdeadline hclock)
    unfold DeadlineWraps at hdeadline
    unfold ClockWraps at hclock
    omega
  · intro hclock
    by_contra hdeadline
    have hnot := not_expired_of_clock_wrap h hdeadline hclock helapsed
    have hpassed : ms.toNat < elapsedMs start now := by
      unfold DeadlineWraps at hdeadline
      unfold ClockWraps at hclock
      omega
    rw [hright.mpr hpassed] at hnot
    contradiction

end

/-- A second after a minute before the wrap. -/
theorem expired_iff_minute :
    (platformTimeoutIsExpired 4294908000000 (platformTimeoutSet 4294907000000 100) = true ↔
      (100 : UInt32).toNat < elapsedMs 4294907000000 4294908000000) ↔
    (DeadlineWraps 4294907000000 100 ↔
      ClockWraps 4294907000000 (elapsedMs 4294907000000 4294908000000)) :=
  expired_iff (by decide) (by decide)

/-- A timeout that is set in the last millisecond before the wrap has expired at once. -/
theorem expired_at_wrap : ¬ ∀ (start now : UInt64) (ms : UInt32), start ≤ now →
    ms.toNat < 2 ^ 31 → elapsedMs start now < 2 ^ 31 →
    (platformTimeoutIsExpired now (platformTimeoutSet start ms) = true ↔
      ms.toNat < elapsedMs start now) := by
  intro h
  have hexpired := (h 4294967295000 4294967295000 10 (by decide) (by decide) (by decide)).mp
    (by decide)
  exact absurd hexpired (by decide)

end MiyakoLink.Platform
