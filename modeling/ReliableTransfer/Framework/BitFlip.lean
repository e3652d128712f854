import Mathlib

/-!
# Single-bit errors in byte buffers

A buffer is a vector of bytes, and an error inverts exactly one of its bits. Bit `pos` is bit
`pos % 8` (least significant first) of byte `pos / 8`. The effect on every number assembled
from the buffer is stated in plain arithmetic: one power of two is added or taken away.
-/

namespace Framework

/-- `y` is `x` with bit `k` inverted. -/
def FlipsAt (k x y : Nat) : Prop :=
  (x / 2^k % 2 = 0 ∧ y = x + 2^k) ∨ (x / 2^k % 2 = 1 ∧ x = y + 2^k)

theorem FlipsAt.ne {k x y : Nat} (h : FlipsAt k x y) : x ≠ y := by
  have hpos : 0 < 2^k := Nat.two_pow_pos k
  rcases h with ⟨_,rfl⟩ | ⟨_,rfl⟩ <;> omega

theorem flipsAt_xor (k x : Nat) : FlipsAt k x (x ^^^ 2^k) := by
  induction k generalizing x with
  | zero =>
    have hdiv : (x ^^^ 1) / 2 = x / 2 := by
      rw [Nat.xor_div_two]
      exact Nat.xor_zero _
    have hmod : (x ^^^ 1) % 2 = (x + 1) % 2 := Nat.xor_mod_two_eq
    simp only [FlipsAt,pow_zero,Nat.div_one]
    omega
  | succ k ih =>
    have hdiv : (x ^^^ 2^(k+1)) / 2 = x / 2 ^^^ 2^k := by
      rw [Nat.xor_div_two,Nat.pow_succ,Nat.mul_div_cancel _ (by decide)]
    have hmod : (x ^^^ 2^(k+1)) % 2 = x % 2 := by
      rw [Nat.xor_mod_two_eq,Nat.pow_succ]
      omega
    have hbit : x / 2^(k+1) = x / 2 / 2^k := by
      rw [Nat.div_div_eq_div_mul,Nat.pow_succ,Nat.mul_comm]
    have hpow : 2^(k+1) = 2 * 2^k := by rw [Nat.pow_succ,Nat.mul_comm]
    rcases ih (x / 2) with ⟨hb,hv⟩ | ⟨hb,hv⟩
    · left
      rw [hbit]
      omega
    · right
      rw [hbit]
      omega

section Digits

variable {k w x y : Nat}

/-- Bit `k` of the upper digit of a two-digit number is bit `w + k` of the number. -/
theorem FlipsAt.high {low : Nat} (h : FlipsAt k x y) (hlow : low < 2^w) :
    FlipsAt (w + k) (2^w * x + low) (2^w * y + low) := by
  have hdiv (z : Nat) : (2^w * z + low) / 2^(w+k) = z / 2^k := by
    rw [Nat.pow_add,← Nat.div_div_eq_div_mul,Nat.mul_add_div (Nat.two_pow_pos w),
      Nat.div_eq_of_lt hlow,Nat.add_zero]
  have hpow : 2^(w+k) = 2^w * 2^k := Nat.pow_add 2 w k
  rcases h with ⟨hb,rfl⟩ | ⟨hb,rfl⟩
  · left
    rw [hdiv,hpow,Nat.mul_add]
    omega
  · right
    rw [hdiv,hpow,Nat.mul_add]
    omega

theorem FlipsAt.low {high : Nat} (h : FlipsAt k x y) (hk : k < w) :
    FlipsAt k (2^w * high + x) (2^w * high + y) := by
  obtain ⟨d,rfl⟩ : ∃ d, w = k + 1 + d := ⟨w - (k + 1),by omega⟩
  have hdiv (z : Nat) : (2^(k+1+d) * high + z) / 2^k % 2 = z / 2^k % 2 := by
    have he : 2^(k+1+d) * high = 2^k * (2 * (2^d * high)) := by ring
    rw [he,Nat.mul_add_div (Nat.two_pow_pos k)]
    omega
  rcases h with ⟨hb,rfl⟩ | ⟨hb,rfl⟩
  · left
    rw [hdiv]
    omega
  · right
    rw [hdiv]
    omega

theorem FlipsAt.mod_eq (h : FlipsAt (w + k) x y) : x % 2^w = y % 2^w := by
  have hpow : 2^(w+k) = 2^w * 2^k := Nat.pow_add 2 w k
  rcases h with ⟨_,rfl⟩ | ⟨_,rfl⟩ <;> rw [hpow,Nat.add_mul_mod_self_left]

theorem FlipsAt.div (h : FlipsAt (w + k) x y) : FlipsAt k (x / 2^w) (y / 2^w) := by
  have hpow : 2^(w+k) = 2^w * 2^k := Nat.pow_add 2 w k
  rcases h with ⟨hb,rfl⟩ | ⟨hb,rfl⟩
  · left
    rw [hpow,← Nat.div_div_eq_div_mul] at hb
    rw [hpow,Nat.add_mul_div_left _ _ (Nat.two_pow_pos w)]
    exact ⟨hb,rfl⟩
  · right
    rw [hpow,← Nat.div_div_eq_div_mul,Nat.add_mul_div_left _ _ (Nat.two_pow_pos w)] at hb
    rw [hpow,Nat.add_mul_div_left _ _ (Nat.two_pow_pos w)]
    exact ⟨hb,rfl⟩

theorem FlipsAt.div_eq (h : FlipsAt k x y) (hk : k < w) : x / 2^w = y / 2^w := by
  have key {z : Nat} (hb : z / 2^k % 2 = 0) : z / 2^w = (z + 2^k) / 2^w := by
    obtain ⟨d,rfl⟩ : ∃ d, w = k + 1 + d := ⟨w - (k + 1),by omega⟩
    have hpow : 2^(k+1+d) = 2^k * (2 * 2^d) := by ring
    rw [hpow]
    simp only [← Nat.div_div_eq_div_mul]
    rw [Nat.add_div_right _ (Nat.two_pow_pos k)]
    congr 1
    omega
  rcases h with ⟨hb,rfl⟩ | ⟨hb,rfl⟩
  · exact key hb
  · rw [Nat.add_div_right _ (Nat.two_pow_pos k)] at hb
    exact (key (by omega)).symm

theorem FlipsAt.mod (h : FlipsAt k x y) (hk : k < w) : FlipsAt k (x % 2^w) (y % 2^w) := by
  have hq := h.div_eq hk
  have hx := Nat.div_add_mod x (2^w)
  have hy := Nat.div_add_mod y (2^w)
  have hbit : x % 2^w / 2^k % 2 = x / 2^k % 2 := by
    obtain ⟨d,rfl⟩ : ∃ d, w = k + 1 + d := ⟨w - (k + 1),by omega⟩
    have hpow : 2^(k+1+d) = 2^k * (2 * 2^d) := by ring
    rw [hpow,Nat.mod_mul_right_div_self,Nat.mod_mul_right_mod]
  rw [← hq] at hy
  rcases h with ⟨hb,hv⟩ | ⟨hb,hv⟩
  · left
    omega
  · right
    omega

end Digits

def flipBit {n : Nat} (b : Vector UInt8 n) (pos : Nat) : Vector UInt8 n :=
  Vector.ofFn fun i => if i.val = pos / 8 then b[i] ^^^ (1 <<< UInt8.ofNat (pos % 8)) else b[i]

theorem flipBit_other {n : Nat} (b : Vector UInt8 n) {pos i : Nat} (hi : i < n)
    (hne : i ≠ pos / 8) : (flipBit b pos)[i] = b[i] := by
  simp [flipBit,hne]

theorem flipBit_flipsAt {n : Nat} (b : Vector UInt8 n) {pos i : Nat} (hi : i < n)
    (he : i = pos / 8) : FlipsAt (pos % 8) b[i].toNat (flipBit b pos)[i].toNat := by
  have hk : pos % 8 < 8 := Nat.mod_lt _ (by decide)
  have hmask : ((1 : UInt8) <<< UInt8.ofNat (pos % 8)).toNat = 2^(pos % 8) := by
    generalize pos % 8 = k at hk
    interval_cases k <;> rfl
  have hval : (flipBit b pos)[i].toNat = b[i].toNat ^^^ 2^(pos % 8) := by
    simp [flipBit,he,← hmask]
  rw [hval]
  exact flipsAt_xor _ _

end Framework
