import ReliableTransfer.Workers.SelectiveRepeatCC.Correspondence
import ReliableTransfer.Workers.SelectiveRepeat.Progress

/-!
# When selective repeat with congestion control can deadlock

The window grows past the one that was configured, so the client can get further ahead than it
answers, whatever the configured windows are.
-/

namespace ReliableTransfer

open Framework

namespace SelectiveRepeatCC

variable {x : RepeatLink Congestion}

theorem window_timeouts (c : Congestion) (n : ℕ) :
    (hooks.onTimeout^[n + 1] c).window = 1 := by
  rw [Function.iterate_succ_apply']
  rfl

theorem base_admitted {base : UInt32} (hbound : base.toNat + 1 < 2^32) (c : Congestion) (n : ℕ) :
    base < base + hooks.window (hooks.onTimeout^[n + 1] c) := by
  have hone : hooks.window (hooks.onTimeout^[n + 1] c) = 1 := window_timeouts c n
  rw [hone,UInt32.lt_iff_toNat_lt,toNat_add_one hbound]
  exact Nat.lt_succ_self _

/-- When the base of a congestion-controlled transfer can move. -/
theorem selectiveRepeatCC_progress_iff (order : ByteOrder) (file : List UInt8)
    (orgWindow clientWindow : UInt32) (dupAcks : List UInt32)
    (hrun : (link order clientWindow).Run (start dupAcks orgWindow file) x)
    (hret : x.client.returned = false) :
    (∃ y, (link order clientWindow).CalmRun x y ∧ RepeatServer.Progress x y) ↔
      x.server.loc ≠ .returned true ∧
        (x.server.worker.baseSeqNo = x.server.worker.seqNo →
          x.server.worker.windowOpen hooks = true) ∧
        RepeatServer.BaseAnswered clientWindow x := by
  have hx := RepeatServer.safe_run (roomy order file clientWindow) hrun
  have hin : x.server.worker.InStep order file := hx.parties.worker.inStep
  refine RepeatServer.progress_iff (closes order file) (roomy order file clientWindow) hx hret
    fun hcase n => base_admitted ?_ _ n
  have hle := hin.base_le
  have hmax := x.server.worker.seqNo.toNat_lt
  rcases hcase with hopen | hlt
  · have htest := UInt32.lt_iff_toNat_lt.mp (of_decide_eq_true hopen)
    have hmax' := (x.server.worker.baseSeqNo + hooks.window x.server.worker.ctl).toNat_lt
    omega
  · omega

theorem selectiveRepeatCC_progress_lost : ∃ x y, (link .little 1).Run (start List.nil 1 [7]) x ∧
    x.data = 0 ∧ x.server.worker.seqNo = 1 ∧ (link .little 1).CalmRun x y ∧
    RepeatServer.Progress x y := by
  have hsent : (link .little 1).Run (start List.nil 1 [7]) _ := RepeatServer.first_sent .little [7]
    hooks (.start List.nil 1) (roomy .little [7] 1) rfl fun _ _ => trivial
  have hlost := hsent.loseData
  have hdeaf : ¬RepeatServer.Deaf 1 0 RepeatClient.fresh := by
    rintro (h | h) <;> exact absurd h (by decide)
  obtain ⟨y,hy⟩ := (selectiveRepeatCC_progress_iff .little [7] 1 1 List.nil hlost rfl).mpr
    ⟨by simp,fun heq => absurd heq (by decide),Or.inl hdeaf⟩
  exact ⟨_,y,hlost,rfl,rfl,hy⟩

def fourSegments : List UInt8 := List.replicate 1537 0

theorem numSegments_fourSegments : numSegments fourSegments = 4 := by
  rw [numSegments,fourSegments,List.length_replicate]

/-- Both windows 1: the first acknowledgement opens a window of 2, the next two packets are
delivered and their acknowledgements are lost. -/
theorem window_outgrown (order : ByteOrder) :
    ∃ x, (link order 1).Run (start List.nil 1 fourSegments) x ∧ x.client.returned = false ∧
      ∀ y, (link order 1).Run x y → ¬RepeatServer.Progress x y := by
  have hroom := roomy order fourSegments 1
  have hclose := closes order fourSegments
  have hnum := numSegments_fourSegments
  have hx₀ : (RepeatServer.coupling order fourSegments 1 hooks).Holds
      (start List.nil 1 fourSegments) := RepeatServer.safe_run hroom .refl
  obtain ⟨s,c,hrun,hloc,hbase,hseq,hctl,hack⟩ := RepeatServer.first_acked order fourSegments hooks
    (.start List.nil 1) hroom (by decide) (P := fun _ _ => True) (fun _ _ => trivial)
    fun _ _ _ _ => trivial
  have hx := (RepeatServer.coupling_inductive hooks hroom).run hx₀ hrun.run
  have hwindow : hooks.window s.worker.ctl = 2 := by
    rw [hctl]
    rfl
  obtain ⟨c₁,hrun₁,hack₁⟩ := RepeatServer.run_unacked hclose hroom hx (by simp [hloc])
    ((hack (by omega)).trans hseq.symm) (by rw [hseq,hnum]; decide)
    (by rw [RepeatServer.windowOpen,hwindow,hbase,hseq]; decide) (by rw [hseq]; decide)
  have hx₁ := (RepeatServer.coupling_inductive hooks hroom).run hx hrun₁
  obtain ⟨c₂,hrun₂,hack₂⟩ := RepeatServer.run_unacked hclose hroom hx₁ (by simp) hack₁
    (by change (s.worker.seqNo + 1).toNat < _; rw [hseq,hnum]; decide)
    (by
      change decide (s.worker.baseSeqNo + hooks.window s.worker.ctl > s.worker.seqNo + 1) = true
      rw [hwindow,hbase,hseq]
      decide)
    (by change s.worker.seqNo + 1 < s.worker.seqNo + 1 + 1; rw [hseq]; decide)
  have hx₂ := (RepeatServer.coupling_inductive hooks hroom).run hx₁ hrun₂
  have hthree : c₂.baseAckNo.toNat = 3 := by
    change c₂.baseAckNo = s.worker.seqNo + 1 + 1 at hack₂
    rw [hack₂,hseq]
    rfl
  refine ⟨_,(hrun.run.trans hrun₁).trans hrun₂,hx₂.parties.worker.holding.not_returned (by
    change c₂.baseAckNo.toNat < _
    omega),fun y hy => ?_⟩
  refine RepeatServer.not_progress_of_deaf hroom hx₂ (Or.inl ?_) ?_ hy
  · change s.worker.baseSeqNo.toNat + 1 < c₂.baseAckNo.toNat
    rw [hbase,hthree]
    decide
  · change ∀ a ∈ createAckPacket 0 ::ₘ 0, a.ackno ≠ s.worker.baseSeqNo
    simp [hbase]

/-- Congestion control can deadlock although the server is configured with no larger a window than
the client. -/
theorem selectiveRepeatCC_deadlock :
    ¬∀ (order : ByteOrder) (file : List UInt8) (orgWindow clientWindow : UInt32)
      (dupAcks : List UInt32) (x : RepeatLink Congestion),
      1 ≤ orgWindow → orgWindow ≤ clientWindow →
      (link order clientWindow).Run (start dupAcks orgWindow file) x → x.client.returned = false →
      ∃ y, (link order clientWindow).CalmRun x y ∧ RepeatServer.Progress x y := by
  intro h
  obtain ⟨x,hrun,hret,hstuck⟩ := window_outgrown .little
  obtain ⟨y,hy,hprogress⟩ := h .little fourSegments 1 1 List.nil x (by decide) (by decide) hrun hret
  exact hstuck y hy.run hprogress

end SelectiveRepeatCC

end ReliableTransfer
