import ReliableTransfer.Workers.SelectiveRepeat.Runs
import ReliableTransfer.Workers.SelectiveRepeatCC.Protocol

/-!
# Acknowledgements the sender refuses

`receive_ack` tests a number against the window of the moment. A packet that was sent under a
larger window stays in the containers when the window shrinks, and its acknowledgement is refused.
-/

namespace ReliableTransfer

open Framework

namespace RepeatServer

variable {γ : Type} {order : ByteOrder} {file : List UInt8} {h : RepeatHooks γ}

/-- The number is off the containers, and no step from here on sends its packet again. -/
structure Settled (h : RepeatHooks γ) (order : ByteOrder) (i : UInt32)
    (s : Sending (RepeatServer γ)) : Prop where
  seqnumsSent : i ∉ s.worker.seqnumsSent
  dataSent : i ∉ s.worker.dataSent
  sendOrder : i ∉ s.worker.sendOrder.values
  unsent : ∀ {s₁ e s₂ out}, Sending.RunsTo (ops h) order (fun _ _ => True) s s₁ →
    s₁.step (ops h) order e = some (s₂,out) → ∀ d ∈ out, d.seqno ≠ i

def Reads (env : AckEnv) (s : RepeatServer γ) (a : AckPacket) : Prop :=
  env.answer (s.seqnumsSent.getD (s.front env.stray) ⟨0,0⟩) = .ok a ∧ verifyChecksumAck a = true

theorem Reads.refused {s : RepeatServer γ} {env : AckEnv} {a : AckPacket} (hread : s.Reads env a)
    (hnot : ¬s.Acceptable h a) : s.receiveAck h env = some (false,s.touch env.stray) := by
  have hnot' : ¬(s.touch env.stray).Acceptable h a := hnot
  simp only [receiveAck,hread.1]
  rw [if_neg fun htest => hnot' htest.2]

theorem Reads.settled_outstanding {s s' : Sending (RepeatServer γ)} {env : AckEnv} {a : AckPacket}
    (hs : s.worker.InStep order file) (hread : s.worker.Reads env a)
    (hmem : a.ackno ∈ s.worker.seqnumsSent) {out : List Packet}
    (hstep : s.step (ops h) order (.ack env) = some (s',out))
    (hgone : a.ackno ∉ s'.worker.seqnumsSent) :
    s.worker.Acceptable h a ∧ s.worker.Outstanding a.ackno := by
  obtain ⟨noErr,hrecv⟩ := Sending.step_receiveAck hstep
  have hr := hs.received hrecv
  generalize s'.worker = w at hr hgone
  cases hr with
  | kept ctl _ =>
    refine absurd ?_ hgone
    exact Std.ExtTreeMap.mem_insertIfNew.mpr (Or.inr hmem)
  | @taken b _ hb hacc hout hack =>
    have heq : b = a := by simpa [AckEnv.answer_ok hread.1] using hb.symm
    exact heq ▸ ⟨hacc,hout⟩

theorem Reads.settles {s : Sending (RepeatServer γ)} {env : AckEnv} {a : AckPacket}
    (hs : s.Good (ops h) file (InStep order file)) {site : Site} (hloc : s.loc = .drain site)
    (hread : s.worker.Reads env a) (hacc : s.worker.Acceptable h a)
    (hout : s.worker.Outstanding a.ackno) :
    ∃ s' out, s.step (ops h) order (.ack env) = some (s',out) ∧ Settled h order a.ackno s' := by
  have htouch := hs.worker.touch env.stray
  have htakes : s.worker.Takes h env a :=
    ⟨hread.1,hread.2,hacc,htouch.mem_seqnumsSent (i := a.ackno) hout⟩
  obtain ⟨w,hw,hack⟩ := htouch.acknowledge h (i := a.ackno) hout
  have hrecv : (ops h).receiveAck env s.worker = some (true,w) := by
    change s.worker.receiveAck h env = _
    rw [htakes.receiveAck,hw]
    rfl
  obtain ⟨loc,hstep,-,-⟩ := Sending.step_ack (ops h) order hloc hrecv
  have hgood := (Sending.step_kept (sound_inStep order file h) hs
    (fun _ _ _ _ => trivial) hstep).good
  have hnot : ¬w.Outstanding a.ackno := fun ho => ((hack.outstanding _).mp ho).2 rfl
  have hretired : w.Retired a.ackno := ⟨hack.seqNo ▸ hout.2.1,hnot⟩
  refine ⟨_,_,hstep,⟨?_,?_,?_,?_⟩⟩
  · change a.ackno ∉ w.seqnumsSent
    rw [hack.seqnumsSent]
    simp
  · exact fun hmem => hnot ((hack.inStep.mem_dataSent _).mp hmem)
  · exact fun hmem => hnot ((hack.inStep.mem_order _).mp hmem)
  · intro s₁ e s₂ out hrun hstep' d hd
    obtain ⟨hgood₁,hretired₁⟩ := run_retired hgood hretired hrun
    exact (step_retired hgood₁ hretired₁ hstep').2 d hd

theorem settled_iff {ctl : γ} {s : Sending (RepeatServer γ)} (hrun : Reaches h order file ctl s)
    {site : Site} (hloc : s.loc = .drain site) {env : AckEnv} {a : AckPacket}
    (hread : s.worker.Reads env a) (hmem : a.ackno ∈ s.worker.seqnumsSent) :
    (∃ s' out, s.step (ops h) order (.ack env) = some (s',out) ∧ Settled h order a.ackno s') ↔
      s.worker.Acceptable h a ∧ s.worker.Outstanding a.ackno := by
  have hgood := good_of_runsTo hrun
  constructor
  · rintro ⟨s',out,hstep,hsettled⟩
    exact hread.settled_outstanding hgood.worker hmem hstep hsettled.seqnumsSent
  · rintro ⟨hacc,hout⟩
    exact hread.settles hgood hloc hacc hout

end RepeatServer

namespace SelectiveRepeatCC

/-- The acknowledgement of a packet in `seqnums_sent` is recorded for good exactly when its number
lies in the window of the moment and is no stray key. -/
theorem ack_recorded_iff (order : ByteOrder) (file : List UInt8) (dupAcks : List UInt32)
    (orgWindow : UInt32) (s : Sending SelectiveRepeatCCServer)
    (hrun : RepeatServer.Reaches hooks order file (.start dupAcks orgWindow) s) (site : Site)
    (hloc : s.loc = .drain site) (env : AckEnv) (a : AckPacket) (hread : s.worker.Reads env a)
    (hmem : a.ackno ∈ s.worker.seqnumsSent) :
    (∃ s' out, s.step (RepeatServer.ops hooks) order (.ack env) = some (s',out) ∧
      RepeatServer.Settled hooks order a.ackno s') ↔
      (s.worker.baseSeqNo ≤ a.ackno ∧ a.ackno < s.worker.baseSeqNo + s.worker.ctl.window) ∧
        s.worker.Outstanding a.ackno :=
  RepeatServer.settled_iff hrun hloc hread hmem

def twoSegments : List UInt8 := List.replicate 513 0

/-- Packet 0 is acknowledged, packets 1 and 2 are sent in a window of 2, and their timers
expire. -/
def shrunken : List SenderEvent :=
  [.send (calmTick ⟨0,0⟩),.ack (arrival ⟨0,0⟩ (createAckPacket 0)),.idle,
    .timers fun _ => calmTick ⟨0,0⟩,.send (calmTick ⟨0,0⟩),.idle,.timers fun _ => calmTick ⟨0,0⟩,
    .send (calmTick ⟨0,0⟩),.idle,.timers fun _ => calmTick ⟨0,1000⟩,.loop,.loop]

theorem shrunken_run : ∃ s, RepeatServer.Reaches hooks .little twoSegments (.start List.nil 1) s ∧
    s.loc = .drain .closing ∧ s.worker.baseSeqNo = 1 ∧ s.worker.seqNo = 3 ∧
    s.worker.acks = ∅ ∧ s.worker.ctl.window = 1 :=
  Sending.run_reaches shrunken (by decide +kernel)

theorem ack_recorded_one : ∃ (s : Sending SelectiveRepeatCCServer) (env : AckEnv) (a : AckPacket),
    a.ackno = 1 ∧ s.worker.Reads env a ∧
    ((∃ s' out, s.step (RepeatServer.ops hooks) .little (.ack env) = some (s',out) ∧
      RepeatServer.Settled hooks .little a.ackno s') ↔
      (s.worker.baseSeqNo ≤ a.ackno ∧ a.ackno < s.worker.baseSeqNo + s.worker.ctl.window) ∧
        s.worker.Outstanding a.ackno) := by
  obtain ⟨s,hrun,hloc,hbase,hseq,hacks,-⟩ := shrunken_run
  have hout : s.worker.Outstanding 1 := by
    rw [RepeatServer.Outstanding,hbase,hseq,hacks]
    decide
  have hmem := (RepeatServer.good_of_runsTo hrun).worker.mem_seqnumsSent hout
  have hread : s.worker.Reads (arrival ⟨0,1000⟩ (createAckPacket 1)) (createAckPacket 1) :=
    ⟨answer_arrival _ _ _,verifyChecksumAck_createAckPacket 1⟩
  exact ⟨s,_,_,rfl,hread,ack_recorded_iff .little twoSegments List.nil 1 s hrun .closing hloc _ _
    hread hmem⟩

/-- The acknowledgement of packet 2 arrives in the same state: it is refused, and packet 2 stays in
`seqnums_sent`. -/
theorem ack_refused : ∃ (s : Sending SelectiveRepeatCCServer) (env : AckEnv) (a : AckPacket),
    RepeatServer.Reaches hooks .little twoSegments (.start List.nil 1) s ∧
    s.loc = .drain .closing ∧ s.worker.Reads env a ∧
    a.ackno ∈ s.worker.seqnumsSent ∧ s.worker.Outstanding a.ackno ∧
    ¬∃ s' out, s.step (RepeatServer.ops hooks) .little (.ack env) = some (s',out) ∧
      a.ackno ∉ s'.worker.seqnumsSent := by
  obtain ⟨s,hrun,hloc,hbase,hseq,hacks,hwindow⟩ := shrunken_run
  have hout : s.worker.Outstanding 2 := by
    rw [RepeatServer.Outstanding,hbase,hseq,hacks]
    decide
  have hmem := (RepeatServer.good_of_runsTo hrun).worker.mem_seqnumsSent hout
  have hread : s.worker.Reads (arrival ⟨0,1000⟩ (createAckPacket 2)) (createAckPacket 2) :=
    ⟨answer_arrival _ _ _,verifyChecksumAck_createAckPacket 2⟩
  have hnot : ¬s.worker.Acceptable hooks (createAckPacket 2) := by
    change ¬((2 : UInt32) ≥ s.worker.baseSeqNo ∧
      (2 : UInt32) < s.worker.baseSeqNo + s.worker.ctl.window)
    rw [hbase,hwindow]
    decide
  refine ⟨s,_,_,hrun,hloc,hread,hmem,hout,?_⟩
  rintro ⟨s',out,hstep,hgone⟩
  obtain ⟨noErr,hrecv⟩ := Sending.step_receiveAck hstep
  obtain ⟨-,hs'⟩ := Prod.mk.inj (Option.some.inj ((hread.refused hnot).symm.trans hrecv))
  rw [← hs'] at hgone
  exact hgone (Std.ExtTreeMap.mem_insertIfNew.mpr (Or.inr hmem))

end SelectiveRepeatCC

end ReliableTransfer
