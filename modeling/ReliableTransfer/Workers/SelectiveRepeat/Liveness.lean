import ReliableTransfer.Workers.SelectiveRepeat.Progress

/-!
# When selective repeat can deadlock

A receiver whose window is as large as the sender's always answers the base packet. A smaller one
can run ahead of what it still answers.
-/

namespace ReliableTransfer

open Framework

namespace SelectiveRepeat

variable {order : ByteOrder} {file : List UInt8} {window clientWindow : UInt32}
  {x : RepeatLink UInt32}

theorem window_preserves (order : ByteOrder) (file : List UInt8) (window : UInt32) :
    RepeatServer.Preserves order file hooks (fun _ _ => True) fun s =>
      s.ctl = window ∧ s.seqNo.toNat ≤ s.baseSeqNo.toNat + window.toNat where
  send := by
    intro s t hin hopen hs
    have htest : s.seqNo < s.baseSeqNo + window := hs.1 ▸ of_decide_eq_true hopen
    have hlt := toNat_lt_window htest
    have hseq := (hin.recordSent hopen t).2.1
    exact ⟨hs.1,hseq.le.trans hlt⟩
  ack := by
    intro s env w _ hin hs hr
    refine ⟨?_,?_⟩
    · cases hr with
      | kept ctl hctl => exact (hctl.elim id And.right).trans hs.1
      | taken _ _ _ hack => exact hack.ctl.trans hs.1
    · rw [hr.seqNo]
      exact hs.2.trans (Nat.add_le_add_right hr.base_le _)
  timers := by
    intro s s' _ hs hreq
    obtain ⟨n,hn,-⟩ := hreq.ctl
    have hsame : hooks.onTimeout^[n] s.ctl = s.ctl := congrFun (Function.iterate_id n) s.ctl
    rw [hn,hsame,hreq.seqNo,hreq.baseSeqNo]
    exact hs

theorem window_run (hrun : (link order clientWindow).Run (start window file) x) :
    (RepeatServer.coupling order file clientWindow hooks).Holds x ∧ x.server.worker.ctl = window ∧
      x.server.worker.seqNo.toNat ≤ x.server.worker.baseSeqNo.toNat + window.toNat :=
  (window_preserves order file window).run (roomy order file clientWindow)
    (RepeatServer.safe_run (roomy order file clientWindow) .refl) ⟨rfl,Nat.zero_le _⟩ hrun

theorem deaf_iff_lt {base : UInt32} {c : RepeatClient} (hle : base.toNat ≤ c.baseAckNo.toNat)
    (hpos : 1 ≤ clientWindow.toNat) (hsmall : c.baseAckNo.toNat + clientWindow.toNat < 2^32) :
    RepeatServer.Deaf clientWindow base c ↔
      base.toNat + clientWindow.toNat < c.baseAckNo.toNat := by
  have hwrap : base < base + clientWindow := by
    rw [UInt32.lt_iff_toNat_lt,UInt32.toNat_add,Nat.mod_eq_of_lt (by omega)]
    omega
  exact or_iff_left fun h => h.2 hwrap

/-- When selective repeat can move on, for windows that do not make the numbers wrap around: if
the client's window is the larger one, always. -/
theorem selectiveRepeat_progress_iff (order : ByteOrder) (file : List UInt8)
    (window clientWindow : UInt32) (hwindow : 1 ≤ window) (hclient : 1 ≤ clientWindow)
    (hsmall : numSegments file + window.toNat + clientWindow.toNat < 2^32)
    {x : RepeatLink UInt32} (hrun : (link order clientWindow).Run (start window file) x)
    (hret : x.client.returned = false) :
    ((∃ y, (link order clientWindow).CalmRun x y ∧ RepeatServer.Progress x y) ↔
      x.server.loc ≠ .returned true ∧
        (x.client.baseAckNo.toNat ≤ x.server.worker.baseSeqNo.toNat + clientWindow.toNat ∨
          ∃ a ∈ x.acks, a.ackno = x.server.worker.baseSeqNo)) ∧
    (window ≤ clientWindow →
      x.client.baseAckNo.toNat ≤ x.server.worker.baseSeqNo.toNat + clientWindow.toNat) := by
  obtain ⟨hx,hctl,hspan⟩ := window_run hrun
  have hs : RepeatServer.Coupled order file clientWindow x.server.worker x.client :=
    hx.parties.worker
  have hback := hs.base_le_ackNo hret
  have hle := hs.holding.base_le
  have hwindow' : 1 ≤ window.toNat := UInt32.le_iff_toNat_le.mp hwindow
  have hwin : x.server.worker.baseSeqNo < x.server.worker.baseSeqNo + window := by
    rw [UInt32.lt_iff_toNat_lt,UInt32.toNat_add,Nat.mod_eq_of_lt (by omega)]
    omega
  refine ⟨?_,fun hle' => ?_⟩
  · have hiff := RepeatServer.progress_iff (closes order file) (roomy order file clientWindow) hx
      hret fun _ n => by
        have hsame : hooks.onTimeout^[n + 1] x.server.worker.ctl = x.server.worker.ctl :=
          congrFun (Function.iterate_id _) _
        rw [hsame,hctl]
        exact hwin
    have hopen (heq : x.server.worker.baseSeqNo = x.server.worker.seqNo) :
        x.server.worker.windowOpen hooks = true := by
      rw [RepeatServer.windowOpen,hctl,← heq]
      exact decide_eq_true hwin
    have hdeaf := deaf_iff_lt hback (UInt32.le_iff_toNat_le.mp hclient) (by omega)
    refine hiff.trans (and_congr_right fun _ => (and_iff_right hopen).trans (or_congr_left ?_))
    exact (not_congr hdeaf).trans not_lt
  · have hcap := UInt32.le_iff_toNat_le.mp hle'
    exact hs.ackNo_le.trans (hspan.trans (Nat.add_le_add_left hcap _))

theorem selectiveRepeat_progress_lost : ∃ x y, (link .little 1).Run (start 1 [7]) x ∧ x.data = 0 ∧
    x.server.worker.seqNo = 1 ∧ (link .little 1).CalmRun x y ∧ RepeatServer.Progress x y := by
  have hsent : (link .little 1).Run (start 1 [7]) _ := RepeatServer.first_sent .little [7] hooks 1
    (roomy .little [7] 1) rfl fun _ _ => trivial
  have hlost := hsent.loseData
  obtain ⟨y,hy⟩ := (selectiveRepeat_progress_iff .little [7] 1 1 (by decide) (by decide)
    (by decide) hlost rfl).1.mpr ⟨by simp,Or.inl (Nat.zero_le _)⟩
  exact ⟨_,y,hlost,rfl,rfl,hy⟩

def threeSegments : List UInt8 := List.replicate 1025 0

theorem numSegments_threeSegments : numSegments threeSegments = 3 := by
  rw [numSegments,threeSegments,List.length_replicate]

/-- Window 2 against window 1: two packets are delivered and their acknowledgements are lost. -/
theorem two_unacked (order : ByteOrder) :
    ∃ x, (link order 1).Run (start 2 threeSegments) x ∧ x.client.returned = false ∧
      ∀ y, (link order 1).Run x y → ¬RepeatServer.Progress x y := by
  have hroom := roomy order threeSegments 1
  have hclose := closes order threeSegments
  have hnum := numSegments_threeSegments
  have hx₀ : (RepeatServer.coupling order threeSegments 1 hooks).Holds (start 2 threeSegments) :=
    RepeatServer.safe_run hroom .refl
  obtain ⟨c₁,hrun₁,hack₁⟩ := RepeatServer.run_unacked hclose hroom hx₀ (by simp [Sending.start]) rfl
    (show 0 < _ by omega) (show decide ((0 : UInt32) + 2 > 0) = true by decide)
    (show (0 : UInt32) < 0 + 1 by decide)
  have hx₁ := (RepeatServer.coupling_inductive hooks hroom).run hx₀ hrun₁
  obtain ⟨c₂,hrun₂,hack₂⟩ := RepeatServer.run_unacked hclose hroom hx₁ (by simp) hack₁
    (show 1 < _ by omega) (show decide ((0 : UInt32) + 2 > 1) = true by decide)
    (show (1 : UInt32) < 1 + 1 by decide)
  have hx₂ := (RepeatServer.coupling_inductive hooks hroom).run hx₁ hrun₂
  have htwo : c₂.baseAckNo.toNat = 2 := congrArg UInt32.toNat hack₂
  refine ⟨_,hrun₁.trans hrun₂,hx₂.parties.worker.holding.not_returned (by
    change c₂.baseAckNo.toNat < _
    omega),fun y hy => ?_⟩
  refine RepeatServer.not_progress_of_deaf hroom hx₂ (Or.inl ?_) (by simp) hy
  change 0 + 1 < c₂.baseAckNo.toNat
  omega

/-- With a smaller window the client can fall silent about the base packet. -/
theorem selectiveRepeat_deadlock :
    ¬∀ (order : ByteOrder) (file : List UInt8) (window clientWindow : UInt32) (x : RepeatLink UInt32),
      1 ≤ window → 1 ≤ clientWindow →
      numSegments file + window.toNat + clientWindow.toNat < 2^32 →
      (link order clientWindow).Run (start window file) x → x.client.returned = false →
      ∃ y, (link order clientWindow).CalmRun x y ∧ RepeatServer.Progress x y := by
  intro h
  obtain ⟨x,hrun,hret,hstuck⟩ := two_unacked .little
  obtain ⟨y,hy,hprogress⟩ := h .little threeSegments 2 1 x (by decide) (by decide)
    (by rw [numSegments_threeSegments]; decide) hrun hret
  exact hstuck y hy.run hprogress

end SelectiveRepeat

end ReliableTransfer
