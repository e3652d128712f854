import ReliableTransfer.Workers.SelectiveRepeatCC.Congestion

/-!
# The maximum window

The window grows with every full window of acknowledgements and is never compared with the
configured maximum. It stays within it as long as no window of the maximum size is acknowledged
to the end.
-/

namespace ReliableTransfer

namespace Congestion

variable {m : UInt32} {c : Congestion}

/-- The next acknowledgement completes a window of size `m`, and `control.cc` schedules no triple
acknowledgement there. -/
def Full (m : UInt32) (c : Congestion) : Prop :=
  c.window = m ∧ c.miniWin + 1 = c.window ∧ c.dupAcks[c.dupAckIndex]? ≠ some (c.successAcks + 1)

structure Within (m : UInt32) (c : Congestion) : Prop where
  window : c.window.toNat ≤ m.toNat
  ssthres : c.ssthres.toNat ≤ m.toNat

theorem half_le_of_le {window : UInt32} (hm : 1 ≤ m.toNat) (h : window.toNat ≤ m.toNat + 1) :
    (if window / 2 = 0 then 1 else window / 2).toNat ≤ m.toNat := by
  split
  · exact hm
  · rw [UInt32.toNat_div]
    change window.toNat / 2 ≤ _
    omega

theorem windowDecrease_within (timeout : Bool) (hm : 1 ≤ m.toNat)
    (h : c.window.toNat ≤ m.toNat + 1) : (c.windowDecrease timeout).Within m := by
  constructor
  · rw [windowDecrease,nextRound_window]
    dsimp only
    cases timeout
    · exact half_le_of_le hm h
    · exact hm
  · exact half_le_of_le hm h

theorem toNat_succ_le (a : UInt32) : (a + 1).toNat ≤ a.toNat + 1 := by
  rw [UInt32.toNat_add]
  exact Nat.mod_le _ _

theorem Within.grow (hc : c.Within m) :
    c.grow.window.toNat ≤ m.toNat ∨
      (c.window = m ∧ c.miniWin + 1 = c.window ∧ c.grow.window = c.window + 1) := by
  have hwindow := hc.window
  have hssthres := hc.ssthres
  have hgrown := grow_grown c
  generalize c.grow = d at hgrown ⊢
  cases hgrown with
  | doubled hlt =>
    rw [UInt32.lt_iff_toNat_lt] at hlt
    exact Or.inl ((toNat_succ_le _).trans (by omega))
  | slow hlt =>
    rw [UInt32.lt_iff_toNat_lt] at hlt
    exact Or.inl ((toNat_succ_le _).trans (by omega))
  | widened _ hfull =>
    by_cases hmax : c.window = m
    · exact Or.inr ⟨hmax,hfull,rfl⟩
    · have hne : c.window.toNat ≠ m.toNat := fun h => hmax (UInt32.toNat_inj.mp h)
      exact Or.inl ((toNat_succ_le _).trans (by omega))
  | counted => exact Or.inl hwindow

theorem Within.acknowledged (hc : c.Within m) (hm : 1 ≤ m.toNat) (hfull : ¬c.Full m) :
    c.grow.tripleAck.Within m := by
  obtain ⟨hssthres,hdup,hindex,hcount⟩ := grow_frame c
  have hbound : c.grow.window.toNat ≤ m.toNat + 1 := by
    rcases hc.grow with hle | ⟨-,-,heq⟩
    · exact Nat.le_succ_of_le hle
    · rw [heq]
      exact (toNat_succ_le _).trans (Nat.succ_le_succ hc.window)
  rw [tripleAck]
  split
  · exact windowDecrease_within (c := { c.grow with
      successAcks := 0, dupAckIndex := c.grow.dupAckIndex + 1 }) false hm hbound
  · next hnone =>
    rw [hdup,hindex,hcount] at hnone
    refine ⟨?_,hssthres ▸ hc.ssthres⟩
    rcases hc.grow with hle | ⟨hmax,hmini,-⟩
    · exact hle
    · exact absurd ⟨hmax,hmini,hnone⟩ hfull

theorem Full.grow (hfull : c.Full m) (hge : c.window ≥ c.ssthres) :
    c.grow.tripleAck.window = m + 1 := by
  obtain ⟨hmax,hmini,hnone⟩ := hfull
  obtain ⟨-,hdup,hindex,hcount⟩ := grow_frame c
  have hgrow : c.grow.window = c.window + 1 := by
    have hgrown := grow_grown c
    generalize c.grow = d at hgrown ⊢
    cases hgrown with
    | doubled hlt => exact absurd hge (UInt32.not_le.mpr hlt)
    | slow hlt => exact absurd hge (UInt32.not_le.mpr hlt)
    | widened => rfl
    | counted _ hne => exact absurd hmini hne
  rw [tripleAck,if_neg (by rwa [hdup,hindex,hcount]),hgrow,hmax]

end Congestion

namespace SelectiveRepeatCC

structure Respects (m : UInt32) (s : SelectiveRepeatCCServer) : Prop where
  window : s.ctl.window ≤ m
  base_le : s.baseSeqNo ≤ s.seqNo
  outstanding : s.seqNo - s.baseSeqNo ≤ m

/-- No acknowledgement that is taken completes a window of size `m`. -/
def Restrained (m : UInt32) (s : Sending SelectiveRepeatCCServer) (e : SenderEvent) : Prop :=
  ∀ env a, e = .ack env → s.worker.Takes hooks env a → ¬s.worker.ctl.Full m

theorem restrained_send {m : UInt32} (s : Sending SelectiveRepeatCCServer) (tick : Tick) :
    Restrained m s (.send tick) := by
  intro env a he
  contradiction

theorem restrained_ack {m : UInt32} {ctl : Congestion} (hne : ctl.window ≠ m)
    (s : Sending SelectiveRepeatCCServer) (env : AckEnv) (_ : s.worker.baseSeqNo ≠ s.worker.seqNo)
    (hctl : s.worker.ctl = ctl) : Restrained m s (.ack env) := by
  intro _ _ _ _ hfull
  rw [hctl] at hfull
  exact hne hfull.1

structure Bounded (m : UInt32) (s : SelectiveRepeatCCServer) : Prop where
  numbered : s.Numbered
  within : s.ctl.Within m
  seqNo_le : s.seqNo.toNat ≤ s.baseSeqNo.toNat + m.toNat

variable {m : UInt32}

theorem Bounded.respects {s : SelectiveRepeatCCServer} (hs : Bounded m s) : Respects m s := by
  have hbase := UInt32.le_iff_toNat_le.mpr hs.numbered.base_le
  have hle := hs.seqNo_le
  refine ⟨UInt32.le_iff_toNat_le.mpr hs.within.window,hbase,?_⟩
  rw [UInt32.le_iff_toNat_le,UInt32.toNat_sub_of_le _ _ hbase]
  omega

theorem keeps_bounded (hm : 1 ≤ m.toNat) :
    (RepeatServer.ops hooks).Keeps (Restrained m) (Bounded m) where
  send := by
    intro s packet t hs hopen
    have htest : s.seqNo < s.baseSeqNo + s.ctl.window := of_decide_eq_true hopen
    have hlt := toNat_lt_window htest
    have hwindow := hs.within.window
    refine ⟨hs.numbered.recordSent hopen packet t,hs.within,?_⟩
    change (s.seqNo + 1).toNat ≤ s.baseSeqNo.toNat + m.toNat
    rw [RepeatServer.windowOpen_succ hopen]
    omega
  ack := by
    intro s env noErr w hP hs hrun
    have hanswered := RepeatServer.receiveAck_answered hrun
    obtain ⟨hnum,hseq,hbase⟩ := hs.numbered.answered hanswered
    refine ⟨hnum,?_,hseq ▸ hs.seqNo_le.trans (Nat.add_le_add_right hbase _)⟩
    cases hanswered with
    | timedOut =>
      exact Congestion.windowDecrease_within true hm (Nat.le_succ_of_le hs.within.window)
    | ignored => exact hs.within
    | taken htakes hack =>
      rw [(RepeatServer.acknowledge_erased hack).ctl]
      exact hs.within.acknowledged hm (hP env _ rfl htakes)
  timers := by
    intro s ticks noErr s' out hs hrun
    have hr := RepeatServer.updateTimers_retimed hrun
    refine ⟨hs.numbered.retimed hr,?_,?_⟩
    · exact hr.ctl_preserves (I := (·.Within m)) hs.within fun c hc =>
        Congestion.windowDecrease_within true hm (Nat.le_succ_of_le hc.window)
    · rw [hr.seqNo,hr.baseSeqNo]
      exact hs.seqNo_le

theorem Bounded.outgrown {order : ByteOrder} {s s' : Sending SelectiveRepeatCCServer}
    (hs : Bounded m s.worker) {env : AckEnv} {a : AckPacket} (htakes : s.worker.Takes hooks env a)
    (hfull : s.worker.ctl.Full m) {out : List Packet}
    (hstep : s.step (RepeatServer.ops hooks) order (.ack env) = some (s',out)) :
    s'.worker.ctl.window = m + 1 := by
  have hge : s.worker.ctl.window ≥ s.worker.ctl.ssthres := by
    rw [ge_iff_le,hfull.1,UInt32.le_iff_toNat_le]
    exact hs.within.ssthres
  obtain ⟨noErr,hrecv⟩ := Sending.step_receiveAck hstep
  obtain ⟨w,hack,heq⟩ := Option.map_eq_some_iff.mp (htakes.receiveAck.symm.trans hrecv)
  obtain ⟨-,rfl⟩ := Prod.mk.inj heq
  rw [(RepeatServer.acknowledge_erased hack).ctl]
  exact hfull.grow hge

/-- A window that is complete at the largest 32-bit size has not been earned. -/
theorem Sound.lt_of_full {s : SelectiveRepeatCCServer} (hs : Sound s) (hfull : s.ctl.Full m) :
    m.toNat + 1 < 2^32 := by
  obtain ⟨hmax,hmini,-⟩ := hfull
  have hsucc := toNat_add_one_of_lt (UInt32.lt_iff_toNat_lt.mpr hs.healthy.miniWin_lt)
  rw [hmini,hmax] at hsucc
  have hearned := hs.earned
  rw [Congestion.weight,hmax] at hearned
  have hseq := s.seqNo.toNat_lt
  omega

theorem toNat_max_one (orgWindow : UInt32) :
    (max 1 orgWindow).toNat = max 1 orgWindow.toNat := by
  change (if 1 ≤ orgWindow then orgWindow else 1).toNat = _
  split
  · next hle => exact (max_eq_right (UInt32.le_iff_toNat_le.mp hle)).symm
  · next hlt =>
    rw [UInt32.le_iff_toNat_le,not_le] at hlt
    exact (max_eq_left hlt.le).symm

/-- In a run in which no acknowledgement completes a window of the configured size (or of one
packet, if that is 0) the window and the number of outstanding packets stay within it; the first
acknowledgement that does makes the window outgrow it. -/
theorem window_respected (order : ByteOrder) (dupAcks : List UInt32) (orgWindow : UInt32)
    (feeder : DataFeeder) (s : Sending SelectiveRepeatCCServer)
    (hrun : Sending.RunsTo (RepeatServer.ops hooks) order (Restrained (max 1 orgWindow))
      ⟨.fresh (.start dupAcks orgWindow),feeder,.head⟩ s) :
    Respects (max 1 orgWindow) s.worker ∧
    ∀ e s' out, ¬Restrained (max 1 orgWindow) s e →
      s.step (RepeatServer.ops hooks) order e = some (s',out) →
        ¬Respects (max 1 orgWindow) s'.worker := by
  have hm : 1 ≤ (max 1 orgWindow).toNat := by
    rw [toNat_max_one]
    exact le_max_left _ _
  have horg : orgWindow.toNat ≤ (max 1 orgWindow).toNat := by
    rw [toNat_max_one]
    exact le_max_right _ _
  have hstart : Bounded (max 1 orgWindow) (.fresh (.start dupAcks orgWindow)) :=
    ⟨RepeatServer.fresh_numbered _,⟨hm,horg⟩,Nat.zero_le _⟩
  have hs := (keeps_bounded hm).run hstart hrun
  refine ⟨hs.respects,fun e s' out hnot hstep hkept => ?_⟩
  simp only [Restrained,not_forall,not_not] at hnot
  obtain ⟨env,a,rfl,htakes,hfull⟩ := hnot
  have hwindow := hkept.window
  rw [hs.outgrown htakes hfull hstep,UInt32.le_iff_toNat_le] at hwindow
  have hfit : (max 1 orgWindow).toNat + 1 < 2^32 := by
    by_cases hpos : 1 ≤ orgWindow
    · have hsound := (keeps_sound _).run
        ⟨Congestion.start_healthy dupAcks hpos,le_refl _⟩ hrun
      exact hsound.lt_of_full hfull
    · rw [UInt32.le_iff_toNat_le] at hpos
      have hle : orgWindow.toNat ≤ 1 := (not_le.mp hpos).le
      rw [toNat_max_one,max_eq_left hle]
      decide
  rw [toNat_add_one hfit] at hwindow
  omega

theorem window_respected_second : ∃ s : Sending SelectiveRepeatCCServer,
    s.worker.ctl.window = 2 ∧ Respects (max 1 2) s.worker := by
  obtain ⟨s,c,hrun,-,-,-,hctl,-⟩ := RepeatServer.first_acked .little List.nil hooks
    (.start List.nil 2) (SelectiveRepeatCC.roomy .little List.nil 1) (by decide)
    restrained_send (restrained_ack (m := max 1 2) (by decide))
  refine ⟨s,?_,?_⟩
  · rw [hctl]
    decide
  · exact (window_respected .little List.nil 2 (feederAt List.nil 0) s
      (Sending.runsTo_of_runWhere hrun)).1

/-- With a maximum of 1 the first acknowledgement makes the window 2. -/
theorem window_exceeded : ∃ s : Sending SelectiveRepeatCCServer,
    Sending.RunsTo (RepeatServer.ops hooks) .little (fun _ _ => True)
      ⟨.fresh (.start List.nil 1),feederAt List.nil 0,.head⟩ s ∧
    ¬s.worker.ctl.window ≤ max 1 1 := by
  obtain ⟨s,c,hrun,-,-,-,hctl,-⟩ := RepeatServer.first_acked .little List.nil hooks
    (.start List.nil 1) (SelectiveRepeatCC.roomy .little List.nil 1) (by decide)
    (P := fun _ _ => True) (fun _ _ => trivial) fun _ _ _ _ => trivial
  refine ⟨s,Sending.runsTo_of_runWhere hrun,?_⟩
  rw [hctl]
  decide

end SelectiveRepeatCC

end ReliableTransfer
