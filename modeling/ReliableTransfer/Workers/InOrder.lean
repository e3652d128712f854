import ReliableTransfer.Workers.GoBackN.Protocol
import ReliableTransfer.Workers.StopWait.Protocol

/-!
# Receivers that take packets in order

`StopWaitClient` and `GoBackClient` ask the same of a datagram and differ in what they make of it.
-/

namespace ReliableTransfer

variable {β : Type}

/-- The tests of both loops, over what follows each of their outcomes. -/
def inOrder (order : ByteOrder) (awaited : UInt32) (data : PacketCoreData → β)
    (marker other lost : β) : Recv Packet → Option β
  | .timeOut => some lost
  | .error => some lost
  | .ok packet =>
    if verifyChecksum order packet && packet.seqno == awaited then
      if packet.len ≠ 8 then (extractPureData packet).map data else some marker
    else some other

section InOrder

variable {order : ByteOrder} {awaited : UInt32} {data : PacketCoreData → β}
  {marker other lost : β}

theorem inOrder_other {packet : Packet}
    (h : ¬(verifyChecksum order packet = true ∧ packet.seqno = awaited)) :
    inOrder order awaited data marker other lost (.ok packet) = some other := by
  rw [← beq_iff_eq (a := packet.seqno),← Bool.and_eq_true] at h
  rw [inOrder,if_neg h]

theorem inOrder_none {packet : Packet} :
    inOrder order awaited data marker other lost (.ok packet) = none ↔
      (verifyChecksum order packet = true ∧ packet.seqno = awaited ∧ packet.len ≠ 8) ∧
        extractPureData packet = none := by
  by_cases htest : verifyChecksum order packet = true ∧ packet.seqno = awaited
  · by_cases hlen : packet.len = 8
    · simp [inOrder,htest,hlen]
    · simp [inOrder,htest,hlen]
  · rw [inOrder_other htest]
    constructor
    · intro h
      contradiction
    · intro h
      exact absurd ⟨h.1.1,h.1.2.1⟩ htest

theorem inOrder_related {κ κ' α : Type} {R : κ → κ' → Prop} {data : PacketCoreData → κ × α}
    {data' : PacketCoreData → κ' × α} {marker other lost : κ × α} {marker' other' lost' : κ' × α}
    (hdata : ∀ coreData, R (data coreData).1 (data' coreData).1 ∧
      (data coreData).2 = (data' coreData).2)
    (hmarker : R marker.1 marker'.1 ∧ marker.2 = marker'.2)
    (hother : R other.1 other'.1 ∧ other.2 = other'.2)
    (hlost : R lost.1 lost'.1 ∧ lost.2 = lost'.2) {recv : Recv Packet} {k : κ} {out : α}
    (h : inOrder order awaited data marker other lost recv = some (k,out)) :
    ∃ k', inOrder order awaited data' marker' other' lost' recv = some (k',out) ∧ R k k' := by
  have hpair {x : κ × α} {y : κ' × α} (hxy : R x.1 y.1 ∧ x.2 = y.2) (hx : x = (k,out)) :
      ∃ k', some y = some (k',out) ∧ R k k' := by
    subst hx
    exact ⟨y.1,congrArg some (Prod.ext rfl hxy.2.symm),hxy.1⟩
  cases recv with
  | timeOut => exact hpair hlost (Option.some.inj h)
  | error => exact hpair hlost (Option.some.inj h)
  | ok packet =>
    simp only [inOrder] at h ⊢
    split at h
    · next htest =>
      rw [if_pos htest]
      split at h
      · next hlen =>
        obtain ⟨coreData,hextract,hx⟩ := Option.map_eq_some_iff.mp h
        rw [if_pos hlen,hextract]
        exact hpair (hdata coreData) hx
      · next hlen =>
        rw [if_neg hlen]
        exact hpair hmarker (Option.some.inj h)
    · next htest =>
      rw [if_neg htest]
      exact hpair hother (Option.some.inj h)

end InOrder

theorem StopWaitClient.recvMessage_inOrder (order : ByteOrder) (c : StopWaitClient)
    (recv : Recv Packet) :
    c.recvMessage order recv = inOrder order c.ackNo
      (fun coreData => ({ c with
        sentOne := true
        sink := c.sink.feedNextData order coreData c.ackNo
        lastPack := createAckPacket c.ackNo
        ackNo := c.ackNo + 1 },[createAckPacket c.ackNo]))
      ({ c with
        sentOne := true
        lastPack := createAckPacket c.ackNo
        ackNo := c.ackNo + 1
        ended := true },[createAckPacket c.ackNo])
      (c,if c.sentOne then [c.lastPack] else List.nil) (c,List.nil) recv := by
  cases recv with
  | timeOut => rfl
  | error => rfl
  | ok packet =>
    rw [recvMessage,inOrder]
    split
    · next htest =>
      have hseq : packet.seqno = c.ackNo := by
        rw [Bool.and_eq_true,beq_iff_eq] at htest
        exact htest.2
      rw [hseq]
      cases extractPureData packet <;> rfl
    · rfl

theorem GoBackClient.recvMessage_inOrder (order : ByteOrder) (c : GoBackClient)
    (recv : Recv Packet) :
    c.recvMessage order recv = inOrder order c.baseAckNo
      (fun coreData => ({ c with
        baseAckNo := c.baseAckNo + 1
        sink := c.sink.feedNextData order coreData c.baseAckNo },[createAckPacket c.baseAckNo]))
      ({ c with baseAckNo := c.baseAckNo + 1, ended := true },[createAckPacket c.baseAckNo])
      (c,List.nil) (c,List.nil) recv := by
  cases recv with
  | timeOut => rfl
  | error => rfl
  | ok packet =>
    rw [recvMessage,inOrder]
    split
    · next htest =>
      have hseq : packet.seqno = c.baseAckNo := by
        rw [Bool.and_eq_true,beq_iff_eq] at htest
        exact htest.2
      rw [hseq]
      cases extractPureData packet <;> rfl
    · rfl

end ReliableTransfer
