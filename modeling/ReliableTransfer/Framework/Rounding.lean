import Mathlib

/-!
# Rounding to a fixed precision

The numbers of a binary format with `p` bits and no bound on its exponents, and what a rounding
into them promises: it leaves them alone, and moves everything else by at most one part in `2^p`.
A quotient of integers below `2^p` keeps its integral part when it is rounded.
-/

namespace Framework

variable {p : Nat}

def Representable (p : Nat) (q : ℚ) : Prop := ∃ m e : ℤ, |m| < 2^p ∧ q = m * 2^e

theorem Representable.neg {q : ℚ} (h : Representable p q) : Representable p (-q) := by
  obtain ⟨m,e,hm,rfl⟩ := h
  refine ⟨-m,e,by rwa [abs_neg],?_⟩
  push_cast
  ring

theorem representable_int {n : ℤ} (h : |n| < 2^p) : Representable p n :=
  ⟨n,0,h,by simp⟩

structure Rounding (p : Nat) where
  apply : ℚ → ℚ
  representable : ∀ q, Representable p (apply q)
  exact : ∀ q, Representable p q → apply q = q
  error : ∀ q, |apply q - q| ≤ |q| / 2^p

/-- The conversion to an integer, toward zero. -/
def truncate (q : ℚ) : ℤ := if 0 ≤ q then ⌊q⌋ else ⌈q⌉

theorem truncate_neg (q : ℚ) : truncate (-q) = -truncate q := by
  unfold truncate
  rcases lt_trichotomy q 0 with hneg | rfl | hpos
  · rw [if_pos (by linarith),if_neg (by linarith),Int.floor_neg]
  · simp
  · rw [if_neg (by linarith),if_pos hpos.le,Int.ceil_neg]

theorem truncate_int (n : ℤ) : truncate n = n := by
  unfold truncate
  split <;> simp

theorem truncate_eq {q : ℚ} {n : ℤ} (hn : 0 ≤ n) (hle : n ≤ q) (hlt : q < n + 1) :
    truncate q = n := by
  have hq : 0 ≤ q := le_trans (by exact_mod_cast hn) hle
  rw [truncate,if_pos hq,Int.floor_eq_iff]
  exact ⟨hle,hlt⟩

namespace Rounding

theorem apply_int (R : Rounding p) {n : ℤ} (h : |n| < 2^p) : R.apply n = n :=
  R.exact _ (representable_int h)

theorem apply_neg_apply (R : Rounding p) (q : ℚ) : R.apply (-R.apply q) = -R.apply q :=
  R.exact _ (R.representable q).neg

def mirror (R : Rounding p) : Rounding p where
  apply q := -R.apply (-q)
  representable q := (R.representable (-q)).neg
  exact q hq := by rw [R.exact _ hq.neg,neg_neg]
  error q := by
    have herr := R.error (-q)
    rw [abs_neg] at herr
    rwa [← abs_neg,neg_sub,sub_neg_eq_add,add_comm,← sub_neg_eq_add]

/-- Two quotients by `d` are at least `1 / d` apart, and rounding moves none of them that far. -/
theorem truncate_div_of_nonneg (R : Rounding p) {n : ℤ} {d : Nat} (hd : 0 < d) (hn : 0 ≤ n)
    (hlt : n < 2^p) : truncate (R.apply (n / d)) = n / d := by
  have hd' : (0 : ℚ) < d := by exact_mod_cast hd
  have hn' : (0 : ℚ) ≤ n := by exact_mod_cast hn
  have hquot : (0 : ℤ) ≤ n / d := Int.ediv_nonneg hn (Int.natCast_nonneg d)
  have hsplit := Int.mul_ediv_add_emod n d
  have hrest := Int.emod_nonneg n (by exact_mod_cast hd.ne' : (d : ℤ) ≠ 0)
  have hmod := Int.emod_lt_of_pos n (by exact_mod_cast hd : (0 : ℤ) < d)
  have herr : |R.apply (n / d) - n / d| < 1 / d := by
    refine (R.error _).trans_lt ?_
    rw [abs_of_nonneg (div_nonneg hn' hd'.le),div_div,div_lt_div_iff₀ (by positivity) hd',one_mul,
      mul_comm (d : ℚ)]
    exact mul_lt_mul_of_pos_right (by exact_mod_cast hlt) hd'
  obtain ⟨hlow,hhigh⟩ := abs_lt.mp herr
  by_cases hwhole : n % d = 0
  · have heq : (n : ℚ) / d = (n / d : ℤ) := by
      rw [div_eq_iff hd'.ne',mul_comm]
      exact_mod_cast (by omega : n = d * (n / d))
    have hbound : |n / (d : ℤ)| < 2^p := by
      rw [abs_of_nonneg hquot]
      exact (Int.ediv_le_self _ hn).trans_lt hlt
    rw [heq,R.apply_int hbound,truncate_int]
  · have hbelow : ((n / d : ℤ) : ℚ) + 1 / d ≤ n / d := by
      rw [le_div_iff₀ hd',add_mul,one_div_mul_cancel hd'.ne',mul_comm]
      exact_mod_cast (by omega : d * (n / d) + 1 ≤ n)
    have habove : (n : ℚ) / d + 1 / d ≤ (n / d : ℤ) + 1 := by
      rw [← add_div,div_le_iff₀ hd',add_mul,one_mul,mul_comm]
      exact_mod_cast (by omega : n + 1 ≤ d * (n / d) + d)
    exact truncate_eq hquot (by linarith) (by linarith)

theorem truncate_div (R : Rounding p) {n : ℤ} {d : Nat} (hd : 0 < d) (hlt : |n| < 2^p) :
    truncate (R.apply (n / d)) = n.tdiv d := by
  obtain ⟨hlow,hhigh⟩ := abs_lt.mp hlt
  rcases le_total 0 n with hn | hn
  · rw [R.truncate_div_of_nonneg hd hn hhigh,Int.tdiv_eq_ediv_of_nonneg hn]
  · have hmirror := R.mirror.truncate_div_of_nonneg hd (by omega : 0 ≤ -n) (by omega)
    change truncate (-R.apply (-((-n : ℤ) / d))) = _ at hmirror
    rw [truncate_neg,Int.cast_neg,neg_div,neg_neg,← Int.tdiv_eq_ediv_of_nonneg (by omega),
      Int.neg_tdiv] at hmirror
    exact neg_inj.mp hmirror

end Rounding

section Nearest

/-- The distance of the numbers of the format around `q`. -/
def ulp (p : Nat) (q : ℚ) : ℚ := 2^(Int.log 2 |q| + 1 - p)

theorem ulp_pos (p : Nat) (q : ℚ) : 0 < ulp p q := zpow_pos two_pos _

def nearest (p : Nat) (q : ℚ) : ℚ := round (q / ulp p q) * ulp p q

theorem abs_lt_ulp (p : Nat) (q : ℚ) : |q| < 2^p * ulp p q := by
  have hlog := Int.lt_zpow_succ_log_self one_lt_two |q|
  rwa [ulp,← zpow_natCast,← zpow_add₀ two_ne_zero,add_sub_cancel]

theorem ulp_le {q : ℚ} (h : q ≠ 0) : ulp p q / 2 ≤ |q| / 2^p := by
  have hlog := Int.zpow_log_le_self one_lt_two (abs_pos.mpr h)
  rw [ulp,zpow_sub₀ two_ne_zero,zpow_add_one₀ two_ne_zero,zpow_natCast,div_right_comm,
    mul_div_cancel_right₀ _ two_ne_zero]
  exact div_le_div_of_nonneg_right hlog (by positivity)

theorem nearest_error (p : Nat) (q : ℚ) : |nearest p q - q| ≤ |q| / 2^p := by
  by_cases hzero : q = 0
  · subst hzero
    simp [nearest]
  · have hulp := ulp_pos p q
    have hround := abs_sub_round (q / ulp p q)
    calc |nearest p q - q| = |round (q / ulp p q) - q / ulp p q| * ulp p q := by
          rw [← abs_of_pos hulp,← abs_mul,abs_of_pos hulp,sub_mul,div_mul_cancel₀ _ hulp.ne',nearest]
      _ ≤ 1 / 2 * ulp p q := by
          rw [abs_sub_comm]
          exact mul_le_mul_of_nonneg_right hround hulp.le
      _ = ulp p q / 2 := by ring
      _ ≤ |q| / 2^p := ulp_le hzero

theorem nearest_representable (hp : 0 < p) (q : ℚ) : Representable p (nearest p q) := by
  have hulp := ulp_pos p q
  have hlt : |q / ulp p q| < 2^p := by
    rw [abs_div,abs_of_pos hulp,div_lt_iff₀ hulp]
    exact abs_lt_ulp p q
  have hle : |round (q / ulp p q)| < 2^p + 1 := by
    have hround := abs_sub_round (q / ulp p q)
    have htri := abs_sub_abs_le_abs_sub (round (q / ulp p q) : ℚ) (q / ulp p q)
    rw [abs_sub_comm] at htri
    have hcast : (|round (q / ulp p q)| : ℚ) < 2^p + 1 := by linarith
    exact_mod_cast hcast
  rcases (Int.lt_add_one_iff.mp hle).lt_or_eq with hlt | heq
  · exact ⟨_,_,hlt,rfl⟩
  · -- Rounded up to the next power of two, which has a smaller mantissa.
    have hpow : (1 : ℤ) < 2^p := one_lt_pow₀ one_lt_two hp.ne'
    have hulp' : (2 : ℚ)^p * ulp p q = 2^(Int.log 2 |q| + 1) := by
      rw [ulp,← zpow_natCast,← zpow_add₀ two_ne_zero,add_sub_cancel]
    rcases (abs_eq (by positivity)).mp heq with hpos | hneg
    · exact ⟨1,Int.log 2 |q| + 1,by simpa using hpow,by simp [nearest,hpos,hulp']⟩
    · exact ⟨-1,Int.log 2 |q| + 1,by simpa using hpow,by simp [nearest,hneg,hulp']⟩

theorem nearest_exact {q : ℚ} (h : Representable p q) : nearest p q = q := by
  by_cases hzero : q = 0
  · subst hzero
    simp [nearest]
  · obtain ⟨m,e,hm,hq⟩ := h
    have hpos : (0 : ℚ) < 2^e := zpow_pos two_pos e
    have habs : |q| < 2^((p : ℤ) + e) := by
      rw [hq,abs_mul,abs_of_pos hpos,zpow_add₀ two_ne_zero,zpow_natCast]
      exact mul_lt_mul_of_pos_right (by exact_mod_cast hm) hpos
    have hlog := (Int.lt_zpow_iff_log_lt one_lt_two (abs_pos.mpr hzero)).mp habs
    obtain ⟨j,hj⟩ := Int.eq_ofNat_of_zero_le (by omega : 0 ≤ e - (Int.log 2 |q| + 1 - p))
    have hgrid : q / ulp p q = (m * 2^j : ℤ) := by
      rw [div_eq_iff (ulp_pos p q).ne',ulp]
      push_cast
      rw [mul_assoc,← zpow_natCast,← zpow_add₀ two_ne_zero,← hj,sub_add_cancel]
      exact hq
    rw [nearest,hgrid,round_intCast,← hgrid,div_mul_cancel₀ _ (ulp_pos p q).ne']

def Rounding.nearest (hp : 0 < p) : Rounding p where
  apply := Framework.nearest p
  representable := nearest_representable hp
  exact _ := nearest_exact
  error := nearest_error p

end Nearest

end Framework
