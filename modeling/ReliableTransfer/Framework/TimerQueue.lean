import Mathlib

/-!
# Queues ordered by time

A queue whose entries carry the time of their last renewal. Whoever serves it takes entries from
the front as long as they are due, renews each of them and puts it back at the end. Stopping at
the first entry that is not due is right because the queue is ordered.
-/

namespace Framework

namespace TimerQueue

variable {α : Type*} {time : α → Int} {fired rest queue : List α}

def Ordered (time : α → Int) (queue : List α) : Prop := queue.Pairwise fun v w => time v ≤ time w

theorem Ordered.congr (h : Ordered time queue) {time' : α → Int}
    (heq : ∀ v ∈ queue, time' v = time v) : Ordered time' queue := by
  refine List.Pairwise.imp_of_mem ?_ h
  intro v w hv hw hle
  rw [heq v hv,heq w hw]
  exact hle

section Renewal

variable [DecidableEq α] {clock : Nat → Int}

/-- The times once the entries of `fired` have been renewed in turn, the first at reading `i`. -/
def renew (clock : Nat → Int) : Nat → List α → (α → Int) → α → Int
  | _,[],time => time
  | i,v :: fired,time => renew clock (i + 1) fired (Function.update time v (clock i))

theorem renew_of_notMem {v : α} (h : v ∉ fired) (i : Nat) : renew clock i fired time v = time v := by
  induction fired generalizing i time with
  | nil => rfl
  | cons w fired ih =>
    obtain ⟨hne,hnot⟩ := List.ne_and_not_mem_of_not_mem_cons h
    rw [renew,ih hnot,Function.update_of_ne hne]

theorem renew_getElem? {v : α} {k : Nat} (hn : fired.Nodup) (h : fired[k]? = some v) (i : Nat) :
    renew clock i fired time v = clock (i + k) := by
  induction fired generalizing i k time with
  | nil => simp at h
  | cons w fired ih =>
    obtain ⟨hnot,hn⟩ := List.nodup_cons.mp hn
    rw [renew]
    cases k with
    | zero =>
      obtain rfl : w = v := by simpa using h
      rw [renew_of_notMem hnot,Function.update_self,Nat.add_zero]
    | succ k =>
      rw [List.getElem?_cons_succ] at h
      rw [ih hn h,Nat.add_right_comm,Nat.add_assoc]

theorem renew_of_mem {v : α} (hn : fired.Nodup) (h : v ∈ fired) (i : Nat) :
    ∃ k, fired[k]? = some v ∧ renew clock i fired time v = clock (i + k) := by
  obtain ⟨k,hk⟩ := List.mem_iff_getElem?.mp h
  exact ⟨k,hk,renew_getElem? hn hk i⟩

theorem Ordered.snoc (h : Ordered time queue) {v : α} (hv : v ∉ queue) {t : Int}
    (hle : ∀ w ∈ queue, time w ≤ t) : Ordered (Function.update time v t) (queue ++ [v]) := by
  have hother : ∀ w ∈ queue, Function.update time v t w = time w := by
    intro w hw
    apply Function.update_of_ne
    rintro rfl
    exact hv hw
  refine List.pairwise_append.mpr ⟨h.congr hother,List.pairwise_singleton _ _,?_⟩
  intro w hw u hu
  rw [List.mem_singleton.mp hu,Function.update_self,hother w hw]
  exact hle w hw

theorem Ordered.erase (h : Ordered time queue) (v : α) : Ordered time (queue.erase v) :=
  h.sublist List.erase_sublist

theorem Ordered.rotate (h : Ordered time (fired ++ rest)) (hn : (fired ++ rest).Nodup) {i : Nat}
    (hclock : Monotone clock) (hpast : ∀ v ∈ rest, time v ≤ clock i) :
    Ordered (renew clock i fired time) (rest ++ fired) := by
  obtain ⟨-,hrest,-⟩ := List.pairwise_append.mp h
  obtain ⟨hfired,-,hdisjoint⟩ := List.nodup_append.mp hn
  have hkept : ∀ v ∈ rest, renew clock i fired time v = time v := by
    intro v hv
    exact renew_of_notMem (fun hmem => hdisjoint v hmem v hv rfl) i
  refine List.pairwise_append.mpr ⟨Ordered.congr hrest hkept,?_,?_⟩
  · rw [List.pairwise_iff_getElem]
    intro j k hj hk hjk
    rw [renew_getElem? hfired (List.getElem?_eq_getElem hj),
      renew_getElem? hfired (List.getElem?_eq_getElem hk)]
    exact hclock (by omega)
  · intro v hv w hw
    obtain ⟨k,-,hk⟩ : ∃ k, fired[k]? = some w ∧ renew clock i fired time w = clock (i + k) :=
      renew_of_mem hfired hw i
    rw [hkept v hv,hk]
    exact (hpast v hv).trans (hclock (by omega))

end Renewal

end TimerQueue

end Framework
