import Mathlib

/-!
# Loops with a narrow counter

`for (i = 0; i < xs.size(); i++)` with a counter of `w` bits over a sequence of any size. Over a
sequence that the counter cannot count the loop starts over and over.
-/

namespace Framework

/-- What a computation has come to after a number of turns. -/
inductive LoopResult (σ : Type*) where
  | done (s : σ)
  | failed
  | running
deriving DecidableEq

def LoopResult.bind {σ τ : Type*} (result : LoopResult σ) (next : σ → LoopResult τ) :
    LoopResult τ :=
  match result with
  | .done s => next s
  | .failed => .failed
  | .running => .running

theorem LoopResult.bind_eq_done {σ τ : Type*} {result : LoopResult σ} {next : σ → LoopResult τ}
    {t : τ} : result.bind next = .done t ↔ ∃ s, result = .done s ∧ next s = .done t := by
  cases result <;> simp [bind]

section Loop

variable {α σ : Type*} {w : ℕ}

/-- The loop from counter `i` on, with `fuel` turns; a turn whose body is `none` has failed. -/
def countedLoop (body : σ → α → Option σ) (xs : List α) : ℕ → BitVec w → σ → LoopResult σ
  | 0,_,_ => .running
  | fuel + 1,i,s =>
    if h : i.toNat < xs.length then
      match body s xs[i.toNat] with
      | none => .failed
      | some s' => countedLoop body xs fuel (i + 1) s'
    else .done s

variable {body : σ → α → Option σ} {xs : List α}

theorem countedLoop_from (hlen : xs.length < 2^w) {fuel n : ℕ} (hn : n ≤ xs.length) (s t : σ) :
    countedLoop body xs fuel (BitVec.ofNat w n) s = .done t ↔
      xs.length - n < fuel ∧ (xs.drop n).foldlM body s = some t := by
  have htoNat : (BitVec.ofNat w n).toNat = n := by
    rw [BitVec.toNat_ofNat,Nat.mod_eq_of_lt (hn.trans_lt hlen)]
  induction fuel generalizing n s with
  | zero => simp [countedLoop]
  | succ fuel ih =>
    rw [countedLoop]
    by_cases hlt : n < xs.length
    · have hnext : BitVec.ofNat w n + 1 = BitVec.ofNat w (n + 1) := by
        rw [BitVec.ofNat_add]
        rfl
      have hnextNat : (BitVec.ofNat w (n + 1)).toNat = n + 1 := by
        rw [BitVec.toNat_ofNat,Nat.mod_eq_of_lt (Nat.lt_of_le_of_lt hlt hlen)]
      have hfuel : xs.length - n < fuel + 1 ↔ xs.length - (n + 1) < fuel := by omega
      rw [dif_pos (by rwa [htoNat]),List.drop_eq_getElem_cons hlt,List.foldlM_cons,hfuel]
      simp only [htoNat,hnext]
      cases body s xs[n] with
      | none => simp
      | some s' => exact ih hlt s' hnextNat
    · have hend : xs.length - n = 0 := by omega
      rw [dif_neg (by rwa [htoNat]),List.drop_of_length_le (Nat.not_lt.mp hlt),hend]
      simp

theorem countedLoop_ne_done (hlen : 2^w ≤ xs.length) (fuel : ℕ) (i : BitVec w) (s t : σ) :
    countedLoop body xs fuel i s ≠ .done t := by
  induction fuel generalizing i s with
  | zero => simp [countedLoop]
  | succ fuel ih =>
    rw [countedLoop,dif_pos (i.isLt.trans_le hlen)]
    cases body s xs[i.toNat] with
    | none => simp
    | some s' => exact ih _ s'

/-- The loop ends exactly if the counter can count the sequence, with what the bodies make of it. -/
theorem countedLoop_eq_done {fuel : ℕ} {s t : σ} :
    countedLoop body xs fuel (0 : BitVec w) s = .done t ↔
      xs.length < 2^w ∧ xs.length < fuel ∧ xs.foldlM body s = some t := by
  by_cases hlen : xs.length < 2^w
  · have hrun : countedLoop body xs fuel (BitVec.ofNat w 0) s = .done t ↔ _ :=
      countedLoop_from hlen (Nat.zero_le _) s t
    simpa [hlen] using hrun
  · simp [hlen,countedLoop_ne_done (Nat.not_lt.mp hlen)]

end Loop

end Framework
