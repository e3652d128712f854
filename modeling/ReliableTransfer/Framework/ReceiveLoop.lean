import Mathlib

/-!
# Loops that receive

A loop that takes one input in every pass until its test says that it is over. A pass may answer,
and it may fail; a loop that has failed does nothing more.
-/

namespace Framework

structure Receiver (κ ρ α : Type*) where
  finished : κ → Bool
  body : κ → ρ → Option (κ × List α)

/-- What a loop has done: its answers, the number of passes, and its state unless a pass failed. -/
structure Reception (κ α : Type*) where
  answers : List α
  passes : ℕ
  state : Option κ

namespace Receiver

variable {κ ρ α ι : Type*} (R : Receiver κ ρ α)

def run (k : κ) : List ρ → Reception κ α
  | [] => ⟨List.nil,0,some k⟩
  | r :: rs =>
    if R.finished k then ⟨List.nil,0,some k⟩
    else match R.body k r with
      | none => ⟨List.nil,1,none⟩
      | some (k',out) =>
        let rest := run k' rs
        ⟨out ++ rest.answers,rest.passes + 1,rest.state⟩

def Keeps (I : κ → Prop) : Prop :=
  ∀ {k r k' out}, I k → R.finished k = false → R.body k r = some (k',out) → I k'

theorem run_cons (k : κ) (r : ρ) (rs : List ρ) :
    R.run k (r :: rs) = if R.finished k then ⟨List.nil,0,some k⟩
      else match R.body k r with
        | none => ⟨List.nil,1,none⟩
        | some (k',out) =>
          ⟨out ++ (R.run k' rs).answers,(R.run k' rs).passes + 1,(R.run k' rs).state⟩ := rfl

variable {R}

theorem run_finished {k : κ} (hfin : R.finished k = true) (rs : List ρ) :
    R.run k rs = ⟨List.nil,0,some k⟩ := by
  cases rs with
  | nil => rfl
  | cons r rs => rw [run_cons,if_pos hfin]

theorem run_pass {k k' : κ} {r : ρ} {out : List α} (hfin : R.finished k = false)
    (hbody : R.body k r = some (k',out)) (rs : List ρ) :
    R.run k (r :: rs) =
      ⟨out ++ (R.run k' rs).answers,(R.run k' rs).passes + 1,(R.run k' rs).state⟩ := by
  simp only [run_cons,hfin,hbody,Bool.false_eq_true,if_false]

theorem run_keeps {I : κ → Prop} (hI : R.Keeps I) {k k' : κ} (hk : I k) {rs : List ρ}
    (h : (R.run k rs).state = some k') : I k' := by
  induction rs generalizing k with
  | nil =>
    obtain rfl := Option.some.inj h
    exact hk
  | cons r rs ih =>
    cases hfin : R.finished k
    · cases hbody : R.body k r with
      | none => simp [run_cons,hfin,hbody] at h
      | some next =>
        obtain ⟨k₁,out⟩ := next
        rw [run_pass hfin hbody] at h
        exact ih (hI hk hfin hbody) h
    · rw [run_finished hfin] at h
      obtain rfl := Option.some.inj h
      exact hk

theorem run_congr {R' : Receiver κ ρ α} {I : κ → Prop} (hI : R.Keeps I)
    (hfin : ∀ k, R.finished k = R'.finished k)
    (hbody : ∀ k r, I k → R.body k r = R'.body k r) {k : κ} (hk : I k) (rs : List ρ) :
    R.run k rs = R'.run k rs := by
  induction rs generalizing k with
  | nil => rfl
  | cons r rs ih =>
    rw [run_cons,run_cons,← hfin k,← hbody k r hk]
    cases hstop : R.finished k
    · cases hnext : R.body k r with
      | none => rfl
      | some next =>
        obtain ⟨k₁,out⟩ := next
        simp only [Bool.false_eq_true,if_false,ih (hI hk hstop hnext)]
    · rfl

/-- No input from another source than `own` finds the loop in a state in which it `takes` it. -/
def Untaken (R : Receiver κ ρ α) (takes : κ → ρ → Prop) (own : ι) : κ → List (ι × ρ) → Prop
  | _,[] => True
  | k,(source,r) :: rs => R.finished k = true ∨ ((source ≠ own → ¬takes k r) ∧
      ∀ k' out, R.body k r = some (k',out) → Untaken R takes own k' rs)

/-- Inputs that leave the state as it is can be left out. -/
theorem run_untaken [DecidableEq ι] {takes : κ → ρ → Prop} {I : κ → Prop} (hI : R.Keeps I)
    (hskip : ∀ k r, I k → ¬takes k r → ∃ out, R.body k r = some (k,out)) {own : ι} {k : κ}
    (hk : I k) {rs : List (ι × ρ)} (h : R.Untaken takes own k rs) :
    (R.run k (rs.map Prod.snd)).state =
      (R.run k ((rs.filter fun r => r.1 = own).map Prod.snd)).state := by
  induction rs generalizing k with
  | nil => rfl
  | cons next rs ih =>
    obtain ⟨source,r⟩ := next
    cases hfin : R.finished k
    · obtain ⟨htakes,hrest⟩ := h.resolve_left (by simp [hfin])
      rw [List.map_cons]
      by_cases hown : source = own
      · rw [List.filter_cons_of_pos (by simpa using hown),List.map_cons,run_cons,run_cons]
        cases hbody : R.body k r with
        | none => rfl
        | some next =>
          obtain ⟨k',out⟩ := next
          simp only [hfin,Bool.false_eq_true,if_false]
          exact ih (hI hk hfin hbody) (hrest k' out hbody)
      · obtain ⟨out,hbody⟩ := hskip k r hk (htakes hown)
        rw [List.filter_cons_of_neg (by simpa using hown),run_pass hfin hbody]
        exact ih hk (hrest k out hbody)
    · rw [run_finished hfin,run_finished hfin]

end Receiver

end Framework
