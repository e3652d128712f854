import ReliableTransfer.Workers.SelectiveRepeat.Buffer
import ReliableTransfer.Workers.SelectiveRepeatCC.Protocol

/-!
# The two receivers do the same

`SelectiveRepeatCCClient` stores a segment only while its buffer is smaller than its window. The
buffer never fills up, whatever is received, so the test never refuses a segment of the window.
-/

namespace ReliableTransfer

open Framework

namespace RepeatClient

variable {order : ByteOrder} {window : UInt32} {c : RepeatClient}

theorem recvMessage_congr {room room' : RepeatClient → Bool}
    (h : ∀ i, c.InWindow window i → room c = room' c) (recv : Recv Packet) :
    c.recvMessage order window room recv = c.recvMessage order window room' recv := by
  cases recv with
  | timeOut => rfl
  | error => rfl
  | ok packet =>
    by_cases hwin : c.InWindow window packet.seqno
    · simp only [recvMessage,h _ hwin]
    · simp only [recvMessage,hwin,if_false]

theorem keeps_confined (order : ByteOrder) (window : UInt32) (room : RepeatClient → Bool) :
    (receiver order window room).Keeps (Confined window) :=
  fun hc _ hbody => hc.recvMessage hbody

theorem Confined.room (hc : c.Confined window) {i : UInt32} (hi : c.InWindow window i) :
    SelectiveRepeatCC.room window c = true :=
  decide_eq_true (hc.size_lt hi.pos)

/-- The packet is acknowledged. A segment is the next one that goes to the sink, and a packet
without one is recorded as the end marker. -/
def Absorbed (order : ByteOrder) (c : RepeatClient) (packet : Packet)
    (outcome : Option (RepeatClient × List AckPacket)) : Prop :=
  ∃ c', outcome = some (c',[createAckPacket packet.seqno]) ∧
    if packet.len = 8 then c' = { c with ended := true, lastAckNo := packet.seqno }
    else ∃ coreData, extractPureData packet = some coreData ∧
      c' = (c.deliver order coreData).drainBuffer order c.dataReceived.size

theorem handleWindow_base (hnot : c.baseAckNo ∉ c.dataReceived) (data : PacketCoreData) :
    handleWindow order { c with dataReceived := c.dataReceived.insert c.baseAckNo data } =
      (c.deliver order data).drainBuffer order c.dataReceived.size := by
  have hsize : (c.dataReceived.insert c.baseAckNo data).size = c.dataReceived.size + 1 := by
    rw [Std.ExtTreeMap.size_insert,if_neg (Std.ExtTreeMap.mem_iff_contains.not.mp hnot)]
  have herase : (c.dataReceived.insert c.baseAckNo data).erase c.baseAckNo =
      c.dataReceived.erase c.baseAckNo := by
    apply Std.ExtTreeMap.ext_getElem?
    intro i
    rw [Std.ExtTreeMap.getElem?_erase,Std.ExtTreeMap.getElem?_erase,Std.ExtTreeMap.getElem?_insert]
    split <;> rfl
  rw [handleWindow]
  simp only [hsize,drainBuffer,Std.ExtTreeMap.getElem?_insert_self,herase]
  rfl

theorem recvMessage_absorbed {room : RepeatClient → Bool} {packet : Packet}
    (hnot : c.baseAckNo ∉ c.dataReceived) (hroom : room c = true)
    (hsum : verifyChecksum order packet = true) (hfits : packet.LenFits)
    (hseq : packet.seqno = c.baseAckNo) (hin : c.InWindow window packet.seqno) :
    Absorbed order c packet (c.recvMessage order window room (.ok packet)) := by
  have hold : ¬c.Old window packet.seqno := fun h => hin.1 h.1
  by_cases hlen : packet.len = 8
  · refine ⟨{ c with ended := true, lastAckNo := packet.seqno },?_,by rw [if_pos hlen]⟩
    simp [recvMessage,hsum,hold,hin,hlen]
  · obtain ⟨coreData,hdata⟩ :=
      Option.isSome_iff_exists.mp ((extractPureData_isSome packet).mpr hfits)
    have hstore : packet.seqno ∉ c.dataReceived ∧ room c = true := ⟨hseq ▸ hnot,hroom⟩
    have hbody : c.recvMessage order window room (.ok packet) =
        some (handleWindow order
          { c with dataReceived := c.dataReceived.insert packet.seqno coreData },
          [createAckPacket packet.seqno]) := by
      simp [recvMessage,hsum,hold,hin,hlen,hdata,hstore.1,hstore.2]
    refine ⟨(c.deliver order coreData).drainBuffer order c.dataReceived.size,?_,?_⟩
    · rw [hbody,hseq,handleWindow_base hnot]
    · rw [if_neg hlen]
      exact ⟨coreData,hdata,rfl⟩

/-- On every sequence of receives the two receivers send the same acknowledgements, feed the sink
the same numbered segments and return after the same packet, and the capacity test of
`SelectiveRepeatCCClient` refuses no packet of its window. -/
theorem receivers_agree (order : ByteOrder) (window : UInt32) (rs : List (Recv Packet)) :
    (receiver order window SelectiveRepeat.room).run fresh rs =
      (receiver order window (SelectiveRepeatCC.room window)).run fresh rs ∧
    ∀ c, ((receiver order window (SelectiveRepeatCC.room window)).run fresh rs).state = some c →
      ∀ i, c.InWindow window i → SelectiveRepeatCC.room window c = true := by
  constructor
  · apply Receiver.run_congr (keeps_confined order window _) _ _ (fresh_confined window)
    · intro c
      rfl
    · intro c recv hc
      apply recvMessage_congr
      intro i hi
      exact (hc.room hi).symm
  · intro c hc i hi
    have hconfined := Receiver.run_keeps (keeps_confined order window _) (fresh_confined window) hc
    exact hconfined.room hi

end RepeatClient

end ReliableTransfer
