import ReliableTransfer.Workers.SelectiveRepeat.Frame
import ReliableTransfer.Workers.SelectiveRepeatCC.Correspondence

/-!
# The congestion state

Growth and logging both hang on tests for equality. The invariant of this module says that
neither test is ever stepped over, whatever arrives and whenever the timers expire.
-/

namespace ReliableTransfer

namespace Congestion

variable {c : Congestion}

/-- The log has as many windows and thresholds as rounds, and its rounds increase and lie
before `bound`. -/
structure Logged (c : Congestion) (bound : Int) : Prop where
  windows : c.roundsWindow.length = c.rounds.length
  thresholds : c.roundsSsthres.length = c.rounds.length
  increasing : c.rounds.Pairwise (· < ·)
  past : ∀ r ∈ c.rounds, r < bound

theorem Logged.carry {d : Congestion} {bound : Int} (hc : c.Logged bound)
    (hrounds : d.rounds = c.rounds) (hwindows : d.roundsWindow = c.roundsWindow)
    (hthresholds : d.roundsSsthres = c.roundsSsthres) : d.Logged bound where
  windows := by rw [hwindows,hrounds,hc.windows]
  thresholds := by rw [hthresholds,hrounds,hc.thresholds]
  increasing := by
    rw [hrounds]
    exact hc.increasing
  past := by
    rw [hrounds]
    exact hc.past

theorem Logged.log {bound round : Int} (hc : c.Logged bound) (hround : bound ≤ round) :
    (c.log round).Logged (round + 1) where
  windows := by simp [Congestion.log,hc.windows]
  thresholds := by simp [Congestion.log,hc.thresholds]
  increasing := by
    rw [Congestion.log,List.pairwise_append]
    refine ⟨hc.increasing,List.pairwise_singleton _ _,fun a ha b hb => ?_⟩
    rw [List.mem_singleton.mp hb]
    exact (hc.past a ha).trans_le hround
  past := by
    intro r hr
    rcases List.mem_append.mp hr with hr | hr
    · exact ((hc.past r hr).trans_le hround).trans (Int.lt_succ round)
    · rw [List.mem_singleton.mp hr]
      exact Int.lt_succ round

def lastWindow (c : Congestion) : Nat := (c.roundsWindow.getLast?.getD 0).toNat

/-- The state is one from which the window can grow and the log go on. -/
structure Healthy (c : Congestion) : Prop where
  window_pos : 1 ≤ c.window.toNat
  ssthres_pos : 1 ≤ c.ssthres.toNat
  miniWin_lt : c.miniWin.toNat < c.window.toNat
  miniWin_zero : c.window < c.ssthres → c.miniWin = 0
  logged : c.Logged (c.transRound - 1)
  rounds_ne : c.rounds ≠ List.nil
  /-- In slow start the window lies between the last one logged and its double. -/
  doubling : c.window < c.ssthres → c.lastWindow ≤ c.window.toNat ∧
    c.window.toNat < 2 * c.lastWindow

@[simp] theorem nextRound_window (c : Congestion) : c.nextRound.window = c.window := rfl

@[simp] theorem nextRound_ssthres (c : Congestion) : c.nextRound.ssthres = c.ssthres := rfl

@[simp] theorem nextRound_miniWin (c : Congestion) : c.nextRound.miniWin = c.miniWin := rfl

@[simp] theorem nextRound_lastWindow (c : Congestion) :
    c.nextRound.lastWindow = c.window.toNat := by
  simp [lastWindow,nextRound,log]

theorem healthy_nextRound (hlog : c.Logged c.transRound) (hwindow : 1 ≤ c.window.toNat)
    (hssthres : 1 ≤ c.ssthres.toNat) (hmini : c.miniWin = 0) : c.nextRound.Healthy where
  window_pos := hwindow
  ssthres_pos := hssthres
  miniWin_lt := by
    rw [nextRound_miniWin,hmini]
    exact hwindow
  miniWin_zero := fun _ => hmini
  logged := by
    have hround : c.nextRound.transRound - 1 = c.transRound + 1 := by
      change c.transRound + 2 - 1 = _
      omega
    rw [hround]
    exact (hlog.log (le_refl _)).carry rfl rfl rfl
  rounds_ne := by simp [nextRound,log]
  doubling := fun _ => by
    rw [nextRound_lastWindow,nextRound_window]
    omega

theorem start_healthy (dupAcks : List UInt32) {orgWindow : UInt32} (h : 1 ≤ orgWindow) :
    (start dupAcks orgWindow).Healthy :=
  healthy_nextRound ⟨rfl,rfl,List.Pairwise.nil,by simp⟩ (le_refl _)
    (UInt32.le_iff_toNat_le.mp h) rfl

theorem half_pos (window : UInt32) : 1 ≤ (if window / 2 = 0 then 1 else window / 2).toNat := by
  split
  · decide
  · next hne => exact Nat.one_le_iff_ne_zero.mpr fun h => hne (UInt32.toNat_inj.mp h)

theorem half_le {window : UInt32} (h : 1 ≤ window.toNat) :
    (if window / 2 = 0 then 1 else window / 2).toNat ≤ window.toNat := by
  split
  · exact h
  · rw [UInt32.toNat_div]
    exact Nat.div_le_self _ _

theorem windowDecrease_window_pos (timeout : Bool) (c : Congestion) :
    1 ≤ (c.windowDecrease timeout).window.toNat := by
  rw [windowDecrease,nextRound_window]
  dsimp only
  cases timeout
  · exact half_pos _
  · exact le_refl _

theorem Healthy.windowDecrease (hc : c.Healthy) (timeout : Bool) :
    (c.windowDecrease timeout).Healthy := by
  have hlog := hc.logged.log (le_refl _)
  rw [Int.sub_add_cancel] at hlog
  exact healthy_nextRound (hlog.carry rfl rfl rfl)
    (windowDecrease_window_pos timeout c) (half_pos _) rfl

theorem windowDecrease_window_le (timeout : Bool) (h : 1 ≤ c.window.toNat) :
    (c.windowDecrease timeout).window.toNat ≤ c.window.toNat := by
  rw [Congestion.windowDecrease,nextRound_window]
  dsimp only
  cases timeout
  · exact half_le h
  · exact h

theorem windowDecrease_miniWin (timeout : Bool) (c : Congestion) :
    (c.windowDecrease timeout).miniWin = 0 := rfl

theorem Healthy.tripleAck (hc : c.Healthy) : c.tripleAck.Healthy := by
  rw [Congestion.tripleAck]
  split
  · have hd : Healthy { c with successAcks := 0, dupAckIndex := c.dupAckIndex + 1 } :=
      ⟨hc.window_pos,hc.ssthres_pos,hc.miniWin_lt,hc.miniWin_zero,hc.logged.carry rfl rfl rfl,
        hc.rounds_ne,hc.doubling⟩
    exact hd.windowDecrease false
  · exact hc

/-- How far the window has come since its last fall. -/
def weight (c : Congestion) : Nat := c.window.toNat + c.miniWin.toNat

inductive Grown (c : Congestion) : Congestion → Prop
  /-- Slow start, up to the double of the last window. -/
  | doubled : c.window < c.ssthres → c.window + 1 = 2 * c.roundsWindow.getLast?.getD 0 →
      Grown c (nextRound { c with successAcks := c.successAcks + 1, window := c.window + 1 })
  | slow : c.window < c.ssthres → c.window + 1 ≠ 2 * c.roundsWindow.getLast?.getD 0 →
      Grown c { c with successAcks := c.successAcks + 1, window := c.window + 1 }
  /-- Congestion avoidance, after a whole window of acknowledgements. -/
  | widened : c.window ≥ c.ssthres → c.miniWin + 1 = c.window → Grown c
      (nextRound { c with
        successAcks := c.successAcks + 1, window := c.window + 1, miniWin := 0 })
  | counted : c.window ≥ c.ssthres → c.miniWin + 1 ≠ c.window →
      Grown c { c with successAcks := c.successAcks + 1, miniWin := c.miniWin + 1 }

theorem grow_grown (c : Congestion) : Grown c c.grow := by
  rw [grow]
  dsimp only
  split
  · next hge =>
    split
    · next heq => exact .widened hge heq
    · next hne => exact .counted hge hne
  · next hlt =>
    split
    · next heq => exact .doubled (UInt32.not_le.mp hlt) heq
    · next hne => exact .slow (UInt32.not_le.mp hlt) hne

theorem grow_frame (c : Congestion) : c.grow.ssthres = c.ssthres ∧ c.grow.dupAcks = c.dupAcks ∧
    c.grow.dupAckIndex = c.dupAckIndex ∧ c.grow.successAcks = c.successAcks + 1 := by
  have hgrown := grow_grown c
  generalize c.grow = d at hgrown ⊢
  cases hgrown <;> exact ⟨rfl,rfl,rfl,rfl⟩

theorem Healthy.grow (hc : c.Healthy) (hweight : c.weight < 2^32) :
    c.grow.Healthy ∧ c.grow.weight ≤ c.weight + 1 := by
  have hmini := hc.miniWin_lt
  have hmax := c.window.toNat_lt
  have hsucc : (c.miniWin + 1).toNat = c.miniWin.toNat + 1 :=
    toNat_add_one_of_lt (UInt32.lt_iff_toNat_lt.mpr hmini)
  have hlogged : c.Logged c.transRound := by
    refine ⟨hc.logged.windows,hc.logged.thresholds,hc.logged.increasing,fun r hr => ?_⟩
    exact (hc.logged.past r hr).trans (Int.sub_one_lt_iff.mpr (le_refl _))
  have hgrown := grow_grown c
  generalize c.grow = d at hgrown ⊢
  cases hgrown with
  | doubled hlt heq =>
    have hwide : (c.window + 1).toNat = c.window.toNat + 1 := toNat_add_one_of_lt hlt
    constructor
    · apply healthy_nextRound
      · exact hlogged.carry rfl rfl rfl
      · change 1 ≤ (c.window + 1).toNat
        omega
      · exact hc.ssthres_pos
      · exact hc.miniWin_zero hlt
    · change (c.window + 1).toNat + c.miniWin.toNat ≤ _
      rw [weight]
      omega
  | slow hlt hne =>
    have hwide : (c.window + 1).toNat = c.window.toNat + 1 := toNat_add_one_of_lt hlt
    have hzero := hc.miniWin_zero hlt
    obtain ⟨hlast,hdouble⟩ := hc.doubling hlt
    have hne' : c.window.toNat + 1 ≠ 2 * c.lastWindow := by
      intro heq
      apply hne
      apply UInt32.toNat_inj.mp
      rw [UInt32.toNat_mul,hwide,heq]
      change _ = 2 * c.lastWindow % 2^32
      have hfit := (c.window + 1).toNat_lt
      omega
    constructor
    · refine ⟨?_,hc.ssthres_pos,?_,fun _ => hzero,
        hc.logged.carry rfl rfl rfl,hc.rounds_ne,fun _ => ?_⟩
      · change 1 ≤ (c.window + 1).toNat
        omega
      · change c.miniWin.toNat < (c.window + 1).toNat
        omega
      · change c.lastWindow ≤ (c.window + 1).toNat ∧ (c.window + 1).toNat < 2 * c.lastWindow
        omega
    · change (c.window + 1).toNat + c.miniWin.toNat ≤ _
      rw [weight]
      omega
  | widened hge heq =>
    have hfull := congrArg UInt32.toNat heq
    rw [hsucc] at hfull
    rw [weight] at hweight
    have hwide : (c.window + 1).toNat = c.window.toNat + 1 := toNat_add_one (by omega)
    constructor
    · apply healthy_nextRound
      · exact hlogged.carry rfl rfl rfl
      · change 1 ≤ (c.window + 1).toNat
        omega
      · exact hc.ssthres_pos
      · rfl
    · change (c.window + 1).toNat + 0 ≤ _
      rw [weight]
      omega
  | counted hge hne =>
    have hne' : c.miniWin.toNat + 1 ≠ c.window.toNat := by
      intro heq
      exact hne (UInt32.toNat_inj.mp (hsucc.trans heq))
    constructor
    · refine ⟨hc.window_pos,hc.ssthres_pos,?_,fun hlt => absurd hlt (UInt32.not_lt.mpr hge),
        hc.logged.carry rfl rfl rfl,hc.rounds_ne,hc.doubling⟩
      change (c.miniWin + 1).toNat < c.window.toNat
      omega
    · change c.window.toNat + (c.miniWin + 1).toNat ≤ _
      rw [weight]
      omega

theorem Healthy.windowDecrease_weight (hc : c.Healthy) (timeout : Bool) :
    (c.windowDecrease timeout).weight ≤ c.weight := by
  have hle := windowDecrease_window_le timeout hc.window_pos
  rw [weight,weight,windowDecrease_miniWin]
  exact hle.trans (Nat.le_add_right _ _)

theorem Healthy.tripleAck_weight (hc : c.Healthy) : c.tripleAck.weight ≤ c.weight := by
  rw [Congestion.tripleAck]
  split
  · have hle := windowDecrease_window_le (c := { c with
      successAcks := 0, dupAckIndex := c.dupAckIndex + 1 }) false hc.window_pos
    rw [weight,weight,windowDecrease_miniWin]
    exact hle.trans (Nat.le_add_right _ _)
  · exact le_refl _

end Congestion

namespace SelectiveRepeatCC

/-- The congestion state is sound, and its window was earned: it is no larger than the number of
packets that have been acknowledged allows. -/
structure Sound (s : SelectiveRepeatCCServer) : Prop where
  healthy : s.ctl.Healthy
  earned : s.ctl.weight + s.dataSent.size ≤ 1 + s.seqNo.toNat

theorem Sound.retimed {s s' : SelectiveRepeatCCServer} (hs : Sound s)
    (hr : RepeatServer.Retimed hooks s s') : Sound s' := by
  have hfired : s'.ctl.Healthy ∧ s'.ctl.weight ≤ s.ctl.weight :=
    hr.ctl_preserves (I := fun c => c.Healthy ∧ c.weight ≤ s.ctl.weight) ⟨hs.healthy,le_refl _⟩
      fun c hc => ⟨hc.1.windowDecrease true,(hc.1.windowDecrease_weight true).trans hc.2⟩
  refine ⟨hfired.1,?_⟩
  rw [hr.dataSent,hr.seqNo]
  exact (Nat.add_le_add_right hfired.2 _).trans hs.earned

theorem Sound.erased {s s' : SelectiveRepeatCCServer} (hs : Sound s) {i : UInt32}
    (hr : RepeatServer.Erased hooks i s s') : Sound s' := by
  have hsize := hr.size
  have hearned := hs.earned
  have hseq := s.seqNo.toNat_lt
  obtain ⟨hgrown,hweight⟩ := hs.healthy.grow (by omega)
  have hcut := hgrown.tripleAck_weight
  have hctl : s'.ctl = s.ctl.grow.tripleAck := hr.ctl
  constructor
  · rw [hctl]
    exact hgrown.tripleAck
  · rw [hctl,hr.seqNo]
    omega

theorem keeps_sound (P : Sending SelectiveRepeatCCServer → SenderEvent → Prop) :
    (RepeatServer.ops hooks).Keeps P Sound where
  send := by
    intro s packet t hs hopen
    have hsucc : (s.recordSent packet t).seqNo.toNat = s.seqNo.toNat + 1 :=
      RepeatServer.windowOpen_succ hopen
    have hsize : (s.dataSent.insertIfNew s.seqNo packet).size ≤ s.dataSent.size + 1 :=
      Std.ExtTreeMap.size_insertIfNew_le
    have hearned := hs.earned
    refine ⟨hs.healthy,?_⟩
    change s.ctl.weight + (s.dataSent.insertIfNew s.seqNo packet).size ≤
      1 + (s.recordSent packet t).seqNo.toNat
    omega
  ack := by
    intro s env noErr w _ hs hrun
    have htouch : Sound (s.worker.touch env.stray) := ⟨hs.healthy,hs.earned⟩
    cases RepeatServer.receiveAck_answered hrun with
    | timedOut =>
      refine ⟨hs.healthy.windowDecrease true,?_⟩
      exact (Nat.add_le_add_right (hs.healthy.windowDecrease_weight true) _).trans hs.earned
    | ignored => exact htouch
    | taken _ hack => exact htouch.erased (RepeatServer.acknowledge_erased hack)
  timers := fun hs hrun => hs.retimed (RepeatServer.updateTimers_retimed hrun)

/-- In every state of every run the congestion state is sound. No test for equality is stepped
over. -/
theorem congestion_healthy (order : ByteOrder) (dupAcks : List UInt32) (orgWindow : UInt32)
    (hwindow : 1 ≤ orgWindow) (feeder : DataFeeder) (s : Sending SelectiveRepeatCCServer)
    (hrun : Sending.RunsTo (RepeatServer.ops hooks) order (fun _ _ => True)
      ⟨.fresh (.start dupAcks orgWindow),feeder,.head⟩ s) : s.worker.ctl.Healthy := by
  have hstart : Sound (.fresh (.start dupAcks orgWindow)) :=
    ⟨Congestion.start_healthy dupAcks hwindow,le_refl _⟩
  exact ((keeps_sound _).run hstart hrun).healthy

theorem congestion_healthy_doubled : ∃ s : Sending SelectiveRepeatCCServer,
    s.worker.ctl.rounds = [2,4] ∧ s.worker.ctl.Healthy := by
  obtain ⟨s,c,hrun,-,-,-,hctl,-⟩ := RepeatServer.first_acked .little List.nil hooks
    (.start List.nil 2) (SelectiveRepeatCC.roomy .little List.nil 1) (by decide)
    (P := fun _ _ => True) (fun _ _ => trivial) fun _ _ _ _ => trivial
  refine ⟨s,?_,congestion_healthy .little List.nil 2 (by decide) (feederAt List.nil 0) s
    (Sending.runsTo_of_runWhere hrun)⟩
  rw [hctl]
  decide

end SelectiveRepeatCC

end ReliableTransfer
