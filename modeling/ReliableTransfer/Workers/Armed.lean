import ReliableTransfer.Workers.GoBackN.Overrun
import ReliableTransfer.Workers.SelectiveRepeat.Runs
import ReliableTransfer.Workers.SelectiveRepeatCC.Protocol

/-!
# The timeout a sender arms its socket with

`receive_ack` subtracts the time since the last transmission from the timeout before it decides
whether to ask the socket. When the time is over and `hasData` answers true it asks with what the
subtraction has left.
-/

namespace ReliableTransfer

open Framework

/-- A timeout that `SO_RCVTIMEO` takes as one: normalized, and not the zero that stands for no
timeout. -/
def Timeval.Arms (tv : Timeval) : Prop :=
  0 ≤ tv.tvSec ∧ 0 ≤ tv.tvUsec ∧ tv.tvUsec < 1000000 ∧ tv ≠ ⟨0,0⟩

/-- The time is not over when `hasData` answers true, and a clock that has gone back has not gone
back by almost a whole number of seconds. -/
def AckEnv.InTime (env : AckEnv) (sendTime : Timeval) : Prop :=
  (sendTime.micros + 1000 ≤ env.now.micros → env.hasData = false) ∧
    (env.now.micros < sendTime.micros →
      (sendTime.micros - env.now.micros) % 1000000 < 999000)

def leftAfter (diff : Int) : Timeval := ⟨(-diff).tdiv 1000000,1000 - diff.tmod 1000000⟩

theorem leftAfter_arms (diff : Int) :
    (leftAfter diff).Arms ↔ diff < 1000 ∧ (diff < 0 → -diff % 1000000 < 999000) := by
  unfold leftAfter Timeval.Arms
  rw [ne_eq,Timeval.mk.injEq]
  dsimp only
  by_cases hback : diff < 0
  · -- A clock that has gone back fills the seconds and adds to the microseconds.
    have hsec : (-diff).tdiv 1000000 = -diff / 1000000 := Int.tdiv_eq_ediv_of_nonneg (by omega)
    have husec : diff.tmod 1000000 = -(-diff % 1000000) := by
      rw [← Int.tmod_eq_emod_of_nonneg (by omega : 0 ≤ -diff),Int.neg_tmod,Int.neg_neg]
    rw [hsec,husec]
    omega
  · have hsec : (-diff).tdiv 1000000 = -(diff / 1000000) := by
      rw [Int.neg_tdiv,Int.tdiv_eq_ediv_of_nonneg (by omega)]
    rw [hsec,Int.tmod_eq_emod_of_nonneg (by omega)]
    omega

namespace AckEnv

variable {env : AckEnv} {sendTime tv : Timeval}

theorem armed_eq_some : env.armed sendTime = some tv ↔
    (env.now.micros < sendTime.micros + 1000 ∨ env.hasData = true) ∧
      leftAfter (env.now.micros - sendTime.micros) = tv := by
  have hover : (updateRemainingTimeoutNc fullTimeout sendTime env.now).1 = true ↔ _ :=
    expired_iff sendTime env.now
  have hleft : (updateRemainingTimeoutNc fullTimeout sendTime env.now).2 =
      leftAfter (env.now.micros - sendTime.micros) := by
    simp [updateRemainingTimeoutNc,fullTimeout,leftAfter]
  unfold armed
  dsimp only
  rw [hleft,Option.ite_none_right_eq_some,Option.some_inj,Bool.or_eq_true,Bool.not_eq_true',
    ← Bool.not_eq_true,hover,not_le]

theorem arms_iff :
    (∀ tv, env.armed sendTime = some tv → tv.Arms) ↔ env.InTime sendTime := by
  have hback : -(env.now.micros - sendTime.micros) = sendTime.micros - env.now.micros :=
    Int.neg_sub _ _
  constructor
  · intro h
    refine ⟨fun hlate => ?_,fun hgone => ?_⟩
    · by_contra hdata
      have harms := h _ (armed_eq_some.mpr ⟨Or.inr (by simpa using hdata),rfl⟩)
      have hearly := ((leftAfter_arms _).mp harms).1
      omega
    · have harms := h _ (armed_eq_some.mpr ⟨Or.inl (by omega),rfl⟩)
      rw [← hback]
      exact ((leftAfter_arms _).mp harms).2 (by omega)
  · rintro ⟨hlate,hgone⟩ tv harmed
    obtain ⟨hasks,rfl⟩ := armed_eq_some.mp harmed
    rw [leftAfter_arms]
    refine ⟨?_,fun hneg => hback ▸ hgone (by omega)⟩
    rcases hasks with hearly | hdata
    · omega
    · by_contra hover
      rw [hlate (by omega)] at hdata
      contradiction

end AckEnv

/-- The timeout `receive_ack` passes to `receive_ack_packet` if it calls it, computed in `double`
as the code does. -/
def AckEnv.armedDouble (R : Rounding 53) (env : AckEnv) (sendTime : Timeval) : Option Timeval :=
  let (miniTimeout,tv) := updateRemainingTimeoutNcDouble R fullTimeout sendTime env.now
  if !miniTimeout || env.hasData then some tv else none

theorem AckEnv.armedDouble_eq (R : Rounding 53) {env : AckEnv} {sendTime : Timeval}
    (hnow : env.now.Exact) (hsend : sendTime.Exact) :
    env.armedDouble R sendTime = env.armed sendTime := by
  rw [armedDouble,armed,updateRemainingTimeoutNcDouble_eq R rfl (by decide) hsend hnow]

theorem AckEnv.answer_armed (R : Rounding 53) {env : AckEnv} {sendTime : Timeval}
    (hnow : env.now.Exact) (hsend : sendTime.Exact) :
    env.answer sendTime = AckEnv.answer { env with
      hasData := true
      recv := if (env.armedDouble R sendTime).isSome then env.recv else .timeOut } sendTime := by
  rw [armedDouble_eq R hnow hsend]
  simp [answer,armed]

def GoBackServer.armed (R : Rounding 53) (env : AckEnv) (s : GoBackServer) : Option Timeval :=
  env.armedDouble R s.sendTime

theorem GoBackServer.receiveAck_armed (R : Rounding 53) (window : UInt32) {env : AckEnv}
    {s : GoBackServer} (hnow : env.now.Exact) (hsend : s.sendTime.Exact) :
    s.receiveAck window env = s.receiveAck window { env with
      hasData := true
      recv := if (s.armed R env).isSome then env.recv else .timeOut } := by
  rw [receiveAck,receiveAck,AckEnv.answer_armed R hnow hsend]
  rfl

namespace RepeatServer

variable {γ : Type}

def frontTime (env : AckEnv) (s : RepeatServer γ) : Timeval :=
  s.seqnumsSent.getD (s.front env.stray) ⟨0,0⟩

def armed (R : Rounding 53) (env : AckEnv) (s : RepeatServer γ) : Option Timeval :=
  env.armedDouble R (s.frontTime env)

theorem receiveAck_armed (R : Rounding 53) (h : RepeatHooks γ) {env : AckEnv}
    {s : RepeatServer γ} (hnow : env.now.Exact) (hsend : (s.frontTime env).Exact) :
    s.receiveAck h env = s.receiveAck h { env with
      hasData := true
      recv := if (s.armed R env).isSome then env.recv else .timeOut } := by
  have hanswer := AckEnv.answer_armed R hnow hsend
  rw [frontTime] at hanswer
  rw [receiveAck,receiveAck]
  dsimp only
  rw [hanswer]
  rfl

end RepeatServer

/-- In every state, reachable or not, whose times and whose reading of the clock `double` holds to
the microsecond, the three senders arm their socket with timeouts exactly when they ask it in
time. -/
theorem senders_armed_iff (R : Rounding 53) (env : AckEnv) (hnow : env.now.Exact) :
    (∀ s : GoBackServer, s.sendTime.Exact →
      ((∀ tv, s.armed R env = some tv → tv.Arms) ↔ env.InTime s.sendTime)) ∧
    (∀ s : SelectiveRepeatServer, (s.frontTime env).Exact →
      ((∀ tv, s.armed R env = some tv → tv.Arms) ↔ env.InTime (s.frontTime env))) ∧
    (∀ s : SelectiveRepeatCCServer, (s.frontTime env).Exact →
      ((∀ tv, s.armed R env = some tv → tv.Arms) ↔ env.InTime (s.frontTime env))) := by
  refine ⟨fun s hsend => ?_,fun s hsend => ?_,fun s hsend => ?_⟩
  · rw [GoBackServer.armed,AckEnv.armedDouble_eq R hnow hsend]
    exact AckEnv.arms_iff
  · rw [RepeatServer.armed,AckEnv.armedDouble_eq R hnow hsend]
    exact AckEnv.arms_iff
  · rw [RepeatServer.armed,AckEnv.armedDouble_eq R hnow hsend]
    exact AckEnv.arms_iff

/-- The acknowledgement of packet 0 is there when the clock reads `usec`. -/
def ackAt (usec : Int) : AckEnv := arrival ⟨0,usec⟩ (createAckPacket 0)

theorem marker_sent :
    (∃ s, GoBackN.Reaches .little List.nil 1 s ∧ s.loc = .drain .afterSend ∧
      s.worker.sendTime = ⟨0,0⟩) ∧
    (∃ s, RepeatServer.Reaches SelectiveRepeat.hooks .little List.nil 1 s ∧
      s.loc = .drain .afterSend ∧ s.worker.frontTime (ackAt 0) = ⟨0,0⟩) ∧
    (∃ s, RepeatServer.Reaches SelectiveRepeatCC.hooks .little List.nil (.start List.nil 1) s ∧
      s.loc = .drain .afterSend ∧ s.worker.frontTime (ackAt 0) = ⟨0,0⟩) := by
  refine ⟨?_,?_,?_⟩
  · exact Sending.run_reaches [.send (calmTick ⟨0,0⟩)] (by decide +kernel)
  · exact Sending.run_reaches [.send (calmTick ⟨0,0⟩)] (by decide +kernel)
  · exact Sending.run_reaches [.send (calmTick ⟨0,0⟩)] (by decide +kernel)

theorem senders_armed_early :
    (∃ s, GoBackN.Reaches .little List.nil 1 s ∧ s.loc = .drain .afterSend ∧
      ∀ tv, s.worker.armed binary64 (ackAt 500) = some tv → tv.Arms) ∧
    (∃ s, RepeatServer.Reaches SelectiveRepeat.hooks .little List.nil 1 s ∧
      s.loc = .drain .afterSend ∧
      ∀ tv, s.worker.armed binary64 (ackAt 500) = some tv → tv.Arms) ∧
    (∃ s, RepeatServer.Reaches SelectiveRepeatCC.hooks .little List.nil (.start List.nil 1) s ∧
      s.loc = .drain .afterSend ∧
      ∀ tv, s.worker.armed binary64 (ackAt 500) = some tv → tv.Arms) := by
  have hiff := senders_armed_iff binary64 (ackAt 500) (by decide)
  have htime : (ackAt 500).InTime ⟨0,0⟩ := by
    simp [AckEnv.InTime,ackAt,arrival,Timeval.micros]
  obtain ⟨⟨s,hs,hloc,hsend⟩,⟨s₁,hs₁,hloc₁,hfront₁⟩,⟨s₂,hs₂,hloc₂,hfront₂⟩⟩ := marker_sent
  refine ⟨⟨s,hs,hloc,?_⟩,⟨s₁,hs₁,hloc₁,?_⟩,⟨s₂,hs₂,hloc₂,?_⟩⟩
  · exact (hiff.1 s.worker (hsend ▸ by decide)).mpr (hsend ▸ htime)
  · change s₁.worker.frontTime (ackAt 500) = ⟨0,0⟩ at hfront₁
    exact (hiff.2.1 s₁.worker (hfront₁ ▸ by decide)).mpr (hfront₁ ▸ htime)
  · change s₂.worker.frontTime (ackAt 500) = ⟨0,0⟩ at hfront₂
    exact (hiff.2.2 s₂.worker (hfront₂ ▸ by decide)).mpr (hfront₂ ▸ htime)

/-- When the clock reads 1000 microseconds, each sender asks with the timeout that waits for
ever. -/
theorem senders_armed_forever :
    (∃ s, GoBackN.Reaches .little List.nil 1 s ∧ s.loc = .drain .afterSend ∧
      s.worker.armed binary64 (ackAt 1000) = some ⟨0,0⟩) ∧
    (∃ s, RepeatServer.Reaches SelectiveRepeat.hooks .little List.nil 1 s ∧
      s.loc = .drain .afterSend ∧ s.worker.armed binary64 (ackAt 1000) = some ⟨0,0⟩) ∧
    (∃ s, RepeatServer.Reaches SelectiveRepeatCC.hooks .little List.nil (.start List.nil 1) s ∧
      s.loc = .drain .afterSend ∧ s.worker.armed binary64 (ackAt 1000) = some ⟨0,0⟩) := by
  have harmed : (ackAt 1000).armedDouble binary64 ⟨0,0⟩ = some ⟨0,0⟩ := by
    rw [AckEnv.armedDouble_eq binary64 (by decide) (by decide)]
    decide
  obtain ⟨⟨s,hs,hloc,hsend⟩,⟨s₁,hs₁,hloc₁,hfront₁⟩,⟨s₂,hs₂,hloc₂,hfront₂⟩⟩ := marker_sent
  refine ⟨⟨s,hs,hloc,?_⟩,⟨s₁,hs₁,hloc₁,?_⟩,⟨s₂,hs₂,hloc₂,?_⟩⟩
  · rw [GoBackServer.armed,hsend]
    exact harmed
  · change s₁.worker.frontTime (ackAt 1000) = ⟨0,0⟩ at hfront₁
    rw [RepeatServer.armed,hfront₁]
    exact harmed
  · change s₂.worker.frontTime (ackAt 1000) = ⟨0,0⟩ at hfront₂
    rw [RepeatServer.armed,hfront₂]
    exact harmed

end ReliableTransfer
