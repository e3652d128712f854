import ReliableTransfer.Workers.SelectiveRepeat.Sweep
import ReliableTransfer.Workers.SelectiveRepeatCC.Protocol

/-!
# Several timers expire in one pass

`updateTimers` calls `window_decrease` for every packet it resends, so the second expiry of a pass
halves the window the first one has just set to 1.
-/

namespace ReliableTransfer

open Framework

namespace Congestion

theorem windowDecrease_ssthres (timeout : Bool) (c : Congestion) :
    (c.windowDecrease timeout).ssthres = max 1 (c.window / 2) := by
  change (if c.window / 2 = 0 then 1 else c.window / 2) = _
  by_cases hzero : c.window / 2 = 0
  · rw [if_pos hzero,hzero]
    decide
  · have hpos : (1 : UInt32) ≤ c.window / 2 := by
      rw [UInt32.le_iff_toNat_le]
      exact Nat.one_le_iff_ne_zero.mpr fun h => hzero (UInt32.toNat_inj.mp h)
    rw [if_neg hzero]
    exact (if_pos hpos).symm

theorem timeouts_left (c : Congestion) (n : Nat) :
    ((windowDecrease true)^[n + 1] c).window = 1 ∧ ((windowDecrease true)^[n + 1] c).miniWin = 0 ∧
      ((windowDecrease true)^[n + 1] c).ssthres = if n = 0 then max 1 (c.window / 2) else 1 := by
  rw [Function.iterate_succ_apply']
  refine ⟨rfl,rfl,?_⟩
  rw [windowDecrease_ssthres]
  cases n with
  | zero => rfl
  | succ n =>
    rw [Function.iterate_succ_apply',if_neg (Nat.succ_ne_zero n)]
    change max 1 ((1 : UInt32) / 2) = 1
    decide

end Congestion

namespace SelectiveRepeatCC

/-- A pass over the timers in which exactly `n` packets are found expired. -/
theorem burst_decrease (order : ByteOrder) (file : List UInt8) (dupAcks : List UInt32)
    (orgWindow : UInt32) (s : Sending SelectiveRepeatCCServer)
    (hrun : RepeatServer.Reaches hooks order file (.start dupAcks orgWindow) s)
    (ticks : Nat → Tick) (hsends : ∀ i, (ticks i).Succeeds) (n : Nat) (hn : 1 ≤ n)
    (hfires : ∀ k < n, s.worker.FiresAt ticks k) (hstop : ¬s.worker.FiresAt ticks n) :
    ∃ s' out, s.worker.updateTimers hooks ticks = some (true,s',out) ∧ s'.ctl.window = 1 ∧
      s'.ctl.miniWin = 0 ∧
      s'.ctl.ssthres = if n = 1 then max 1 (s.worker.ctl.window / 2) else 1 := by
  obtain ⟨n,rfl⟩ := Nat.exists_eq_add_one.mpr hn
  obtain ⟨s',out,hpass,hctl⟩ := (RepeatServer.good_of_runsTo hrun).worker.updateTimers_timeouts
    hooks hsends hfires hstop
  obtain ⟨hwindow,hmini,hssthres⟩ := s.worker.ctl.timeouts_left n
  refine ⟨s',out,hpass,?_⟩
  rw [hctl]
  refine ⟨hwindow,hmini,hssthres.trans ?_⟩
  simp

def fourBlocks : List UInt8 := List.replicate 1537 0

/-- Packets 0, 1 and 2 are acknowledged at once, packets 3 and 4 are in flight in a window of 4. -/
def burst : List SenderEvent :=
  let acked (i : UInt32) : List SenderEvent :=
    [.send (calmTick ⟨0,0⟩),.ack (arrival ⟨0,0⟩ (createAckPacket i)),.idle,
      .timers fun _ => calmTick ⟨0,0⟩]
  acked 0 ++ acked 1 ++ acked 2 ++
    [.send (calmTick ⟨0,0⟩),.idle,.timers fun _ => calmTick ⟨0,0⟩,.send (calmTick ⟨0,0⟩),.idle]

theorem burst_run : ∃ s, RepeatServer.Reaches hooks .little fourBlocks (.start List.nil 8) s ∧
    s.loc = .timers .afterSend ∧ s.worker.ctl.window = 4 ∧ s.worker.sendOrder.values = [3,4] ∧
    s.worker.lastSent 3 = 0 ∧ s.worker.lastSent 4 = 0 :=
  Sending.run_reaches burst (by decide +kernel)

theorem burst_fires {s : SelectiveRepeatCCServer} (hvalues : s.sendOrder.values = [3,4])
    (h3 : s.lastSent 3 = 0) (h4 : s.lastSent 4 = 0) :
    (∀ k < 2, s.FiresAt (fun _ => calmTick ⟨0,1000⟩) k) ∧
      ¬s.FiresAt (fun _ => calmTick ⟨0,1000⟩) 2 := by
  constructor
  · intro k hk
    interval_cases k
    · exact ⟨3,by rw [hvalues]; rfl,by rw [h3]; decide⟩
    · exact ⟨4,by rw [hvalues]; rfl,by rw [h4]; decide⟩
  · rintro ⟨v,hv,-⟩
    rw [hvalues] at hv
    simp at hv

theorem burst_decrease_two : ∃ (s : SelectiveRepeatCCServer) (out : List Packet),
    ∃ s', s.updateTimers hooks (fun _ => calmTick ⟨0,1000⟩) = some (true,s',out) ∧
      s'.ctl.window = 1 ∧ s'.ctl.miniWin = 0 ∧
      s'.ctl.ssthres = if 2 = 1 then max 1 (s.ctl.window / 2) else 1 := by
  obtain ⟨s,hrun,-,-,hvalues,h3,h4⟩ := burst_run
  obtain ⟨hfires,hstop⟩ := burst_fires hvalues h3 h4
  obtain ⟨s',out,h⟩ := burst_decrease .little fourBlocks List.nil 8 s hrun _
    (fun _ => Or.inr rfl) 2 (by decide) hfires hstop
  exact ⟨s.worker,out,s',h⟩

/-- They leave a threshold of 1 and not of 2. -/
theorem burst_collapses : ∃ s, RepeatServer.Reaches hooks .little fourBlocks (.start List.nil 8) s ∧
    s.loc = .timers .afterSend ∧ s.worker.FiresAt (fun _ => calmTick ⟨0,1000⟩) 0 ∧
    ¬∃ noErr s' out, s.worker.updateTimers hooks (fun _ => calmTick ⟨0,1000⟩) =
      some (noErr,s',out) ∧ s'.ctl.ssthres = max 1 (s.worker.ctl.window / 2) := by
  obtain ⟨s,hrun,hloc,hwindow,hvalues,h3,h4⟩ := burst_run
  obtain ⟨hfires,hstop⟩ := burst_fires hvalues h3 h4
  refine ⟨s,hrun,hloc,hfires 0 (by decide),?_⟩
  rintro ⟨noErr,s',out,hpass,hssthres⟩
  obtain ⟨s₁,out₁,hpass₁,hctl⟩ := (RepeatServer.good_of_runsTo hrun).worker.updateTimers_timeouts
    hooks (fun _ => Or.inr rfl) hfires hstop
  have heq := Option.some.inj (hpass₁.symm.trans hpass)
  simp only [Prod.mk.injEq] at heq
  obtain ⟨-,rfl,-⟩ := heq
  have hleft := (s.worker.ctl.timeouts_left 1).2.2
  rw [hctl] at hssthres
  rw [hwindow] at hssthres hleft
  exact absurd (hssthres.symm.trans hleft) (by decide)

end SelectiveRepeatCC

end ReliableTransfer
