import ReliableTransfer.Framework.Rounding

/-!
# Remaining time on the socket

`struct timeval` and the two functions of `socketUtils.cpp` that compare it with the clock. They
compute in `double`, and the conversions back to `long` truncate toward zero. Below `2^53`
microseconds, some 285 years, the roundings change nothing, and the functions are modelled on
whole microseconds.
-/

namespace ReliableTransfer

open Framework

structure Timeval where
  tvSec : Int
  tvUsec : Int
deriving DecidableEq

def Timeval.micros (tv : Timeval) : Int := tv.tvSec * 1000000 + tv.tvUsec

/-- `{TIMEOUT_SEC, TIMEOUT_MSEC}`. -/
def fullTimeout : Timeval := ⟨0,1000⟩

/-- `update_remaining_timeout_nc` when `gettimeofday` answers `newTime`: whether the time is
over, and what it leaves in `tv`. -/
def updateRemainingTimeoutNc (tv oldTime newTime : Timeval) : Bool × Timeval :=
  let diff := newTime.micros - oldTime.micros
  let currentDiff := tv.micros
  (decide (currentDiff ≤ diff),
    ⟨(tv.tvSec * 1000000 - diff).tdiv 1000000,tv.tvUsec - diff.tmod 1000000⟩)

section Double

/-- The microseconds of a time as the two functions compute them. -/
def Timeval.toDouble (R : Rounding 53) (tv : Timeval) : ℚ :=
  R.apply (R.apply (R.apply tv.tvSec * 1000000) + R.apply tv.tvUsec)

/-- `update_remaining_timeout_nc` with every rounding of its `double` arithmetic. -/
def updateRemainingTimeoutNcDouble (R : Rounding 53) (tv oldTime newTime : Timeval) :
    Bool × Timeval :=
  let diff := R.apply (newTime.toDouble R - oldTime.toDouble R)
  let currentDiff := tv.toDouble R
  (decide (currentDiff ≤ diff),
    ⟨truncate (R.apply (R.apply tv.tvSec - R.apply (diff / 1000000))),
      tv.tvUsec - (truncate diff).tmod 1000000⟩)

/-- Rounding to nearest in the format of `double`. -/
def binary64 : Rounding 53 := .nearest (by decide)

/-- A reading of the clock that `double` holds to the microsecond. -/
def Timeval.Exact (tv : Timeval) : Prop := 0 ≤ tv.tvSec ∧ 0 ≤ tv.tvUsec ∧ tv.micros < 2^53

instance (tv : Timeval) : Decidable tv.Exact := inferInstanceAs (Decidable (_ ∧ _))

variable {tv oldTime newTime : Timeval}

theorem Timeval.toDouble_eq (R : Rounding 53) (hsec : |tv.tvSec * 1000000| < 2^53)
    (husec : |tv.tvUsec| < 2^53) (hmicros : |tv.micros| < 2^53) : tv.toDouble R = tv.micros := by
  have hsec' : |tv.tvSec| < 2^53 := by
    rw [abs_lt] at hsec ⊢
    omega
  have hmul : (tv.tvSec : ℚ) * 1000000 = (tv.tvSec * 1000000 : ℤ) := by push_cast; rfl
  rw [toDouble,R.apply_int hsec',hmul,R.apply_int hsec,R.apply_int husec,← Int.cast_add]
  exact R.apply_int hmicros

theorem Timeval.Exact.toDouble (R : Rounding 53) (h : tv.Exact) : tv.toDouble R = tv.micros := by
  obtain ⟨hsec,husec,hlt⟩ := h
  have hmicros : tv.micros = tv.tvSec * 1000000 + tv.tvUsec := rfl
  apply toDouble_eq R <;> rw [abs_lt] <;> omega

/-- On readings that `double` holds the roundings change nothing. -/
theorem updateRemainingTimeoutNcDouble_eq (R : Rounding 53) (hsec : tv.tvSec = 0)
    (husec : |tv.tvUsec| < 2^53) (hold : oldTime.Exact) (hnew : newTime.Exact) :
    updateRemainingTimeoutNcDouble R tv oldTime newTime =
      updateRemainingTimeoutNc tv oldTime newTime := by
  have hcurrent : tv.toDouble R = tv.micros := by
    have hmicros : tv.micros = tv.tvUsec := by
      rw [Timeval.micros,hsec,Int.zero_mul,Int.zero_add]
    exact Timeval.toDouble_eq R (by rw [hsec]; decide) husec (hmicros ▸ husec)
  have hbound : |newTime.micros - oldTime.micros| < 2^53 := by
    obtain ⟨hsec₁,husec₁,hlt₁⟩ := hold
    obtain ⟨hsec₂,husec₂,hlt₂⟩ := hnew
    rw [abs_lt]
    unfold Timeval.micros at *
    omega
  have hdiff : R.apply (newTime.toDouble R - oldTime.toDouble R) =
      (newTime.micros - oldTime.micros : ℤ) := by
    rw [hold.toDouble,hnew.toDouble,← Int.cast_sub]
    exact R.apply_int hbound
  have hquot : truncate (R.apply (R.apply tv.tvSec -
      R.apply ((newTime.micros - oldTime.micros : ℤ) / 1000000))) =
      (tv.tvSec * 1000000 - (newTime.micros - oldTime.micros)).tdiv 1000000 := by
    have hdiv := R.truncate_div (d := 1000000) (by decide) hbound
    rw [Nat.cast_ofNat] at hdiv
    have hzero : R.apply ((0 : ℤ) : ℚ) = (0 : ℤ) := R.apply_int (by decide)
    rw [hsec,hzero,Int.cast_zero,zero_sub,R.apply_neg_apply,truncate_neg,hdiv,Int.zero_mul,
      Int.zero_sub,Int.neg_tdiv]
    rfl
  unfold updateRemainingTimeoutNcDouble updateRemainingTimeoutNc
  dsimp only
  rw [hdiff,hcurrent,hquot,truncate_int]
  simp only [Int.cast_le]

end Double

/-- `update_remaining_timeout` also moves `*old_time` to the new reading. -/
def updateRemainingTimeout (tv oldTime newTime : Timeval) : Bool × Timeval × Timeval :=
  let (isOver,tv') := updateRemainingTimeoutNc tv oldTime newTime
  (isOver,tv',newTime)

def remaining (sentAt now : Timeval) : Timeval := ⟨0,1000 - (now.micros - sentAt.micros)⟩

@[simp] theorem remaining_self (t : Timeval) : remaining t t = fullTimeout := by
  simp [remaining,fullTimeout]

/-- The test compares the time since `sentAt`, in however many parts it has been subtracted. -/
theorem updateRemainingTimeout_over (sentAt oldTime now : Timeval) :
    (updateRemainingTimeout (remaining sentAt oldTime) oldTime now).1 = true ↔
      sentAt.micros + 1000 ≤ now.micros := by
  unfold updateRemainingTimeout updateRemainingTimeoutNc remaining
  rw [decide_eq_true_iff]
  change 0 * 1000000 + (1000 - (oldTime.micros - sentAt.micros)) ≤ _ ↔ _
  omega

theorem updateRemainingTimeout_left {sentAt oldTime now : Timeval}
    (hsent : sentAt.micros ≤ oldTime.micros) (hold : oldTime.micros ≤ now.micros)
    (hnow : now.micros < sentAt.micros + 1000) :
    (updateRemainingTimeout (remaining sentAt oldTime) oldTime now).2 =
      (remaining sentAt now,now) := by
  have hdiff : 0 ≤ now.micros - oldTime.micros := by omega
  have hsec : (0 * 1000000 - (now.micros - oldTime.micros)).tdiv 1000000 = 0 := by
    rw [Int.zero_mul,Int.zero_sub,Int.neg_tdiv,Int.tdiv_eq_zero_of_lt hdiff (by omega),Int.neg_zero]
  have husec : (now.micros - oldTime.micros).tmod 1000000 = now.micros - oldTime.micros :=
    Int.tmod_eq_of_lt hdiff (by omega)
  unfold updateRemainingTimeout updateRemainingTimeoutNc remaining
  simp only [hsec,husec,Prod.mk.injEq,Timeval.mk.injEq,and_true,true_and]
  omega

def expired (sentAt now : Timeval) : Bool :=
  (updateRemainingTimeoutNc fullTimeout sentAt now).1

theorem expired_iff (sentAt now : Timeval) :
    expired sentAt now = true ↔ sentAt.micros + 1000 ≤ now.micros := by
  unfold expired updateRemainingTimeoutNc fullTimeout
  rw [decide_eq_true_iff]
  simp only [Timeval.micros]
  omega

theorem not_expired_self (t : Timeval) : expired t t = false := by
  rw [← Bool.not_eq_true,expired_iff]
  omega

theorem expired_late {t : Timeval} {n : Int} (h : t.micros + 1000 ≤ n) :
    expired t ⟨0,n⟩ = true := by
  rw [expired_iff]
  simpa [Timeval.micros] using h

/-- What a receiving call reports: a datagram, or one of the two ways it fails. -/
inductive Recv (α : Type) where
  | ok (packet : α)
  | timeOut
  | error
deriving DecidableEq

end ReliableTransfer
