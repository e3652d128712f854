import ReliableTransfer.Endpoints.Request
import ReliableTransfer.Workers.InOrder
import ReliableTransfer.Workers.SelectiveRepeatCC.Protocol

/-!
# What is checked before a packet is used

`Server::start` checks nothing of a request. The clients check the sum and the number of a data
packet, but not `len`, which becomes the length of a copy.
-/

namespace ReliableTransfer

/-- The packet has passed `verifyChecksum`, and its copy stays inside the body. -/
structure Validated (order : ByteOrder) (pck : Packet) : Prop where
  checksum : verifyChecksum order pck = true
  len : pck.LenFits

theorem filePath_isSome (pck : Packet) : (Server.filePath pck).isSome = true ↔ pck.LenFits := by
  rw [Server.filePath]
  split
  · next h => exact ⟨fun _ => h,fun _ => rfl⟩
  · next h => exact ⟨fun hsome => absurd hsome (by simp),fun hfits => absurd hfits h⟩

theorem filePath_checkSum (pck : Packet) (sum : UInt16) :
    Server.filePath { pck with checkSum := sum } = Server.filePath pck := rfl

/-- A client that takes these numbers hands the packet to `extract_pure_data`. -/
def Extracts (order : ByteOrder) (takes : UInt32 → Prop) (packet : Packet) : Prop :=
  verifyChecksum order packet = true ∧ takes packet.seqno ∧ packet.len ≠ 8

theorem StopWaitClient.recvMessage_none {order : ByteOrder} {c : StopWaitClient}
    {packet : Packet} : c.recvMessage order (.ok packet) = none ↔
      Extracts order (· = c.ackNo) packet ∧ extractPureData packet = none := by
  rw [recvMessage_inOrder,inOrder_none]
  rfl

theorem GoBackClient.recvMessage_none {order : ByteOrder} {c : GoBackClient}
    {packet : Packet} : c.recvMessage order (.ok packet) = none ↔
      Extracts order (· = c.baseAckNo) packet ∧ extractPureData packet = none := by
  rw [recvMessage_inOrder,inOrder_none]
  rfl

theorem RepeatClient.recvMessage_none {order : ByteOrder} {window : UInt32}
    {room : RepeatClient → Bool} {c : RepeatClient} {packet : Packet} :
    c.recvMessage order window room (.ok packet) = none ↔
      Extracts order (c.InWindow window) packet ∧ extractPureData packet = none := by
  rw [Extracts,recvMessage]
  by_cases hverify : verifyChecksum order packet = true
  · by_cases hwin : c.InWindow window packet.seqno
    · have hold : ¬c.Old window packet.seqno := fun h => hwin.1 h.1
      by_cases hlen : packet.len = 8
      · simp [hverify,hwin,hold,hlen]
      · cases extractPureData packet <;> simp [hverify,hwin,hold,hlen]
    · by_cases hold : c.Old window packet.seqno
      · simp [hverify,hwin,hold]
      · simp [hverify,hwin,hold]
  · simp [hverify]

section Validation

variable {κ : Type}

/-- The client makes something of the packet: its state changes, or a copy leaves its buffers. -/
def Uses (c : κ) (outcome : Option (κ × List AckPacket)) : Prop :=
  ∀ acks, outcome ≠ some (c,acks)

/-- No copy leaves the buffers, and what the client makes something of is validated. -/
def ActsOnValidated (order : ByteOrder) (packet : Packet) (c : κ)
    (outcome : Option (κ × List AckPacket)) : Prop :=
  outcome ≠ none ∧ (Uses c outcome → Validated order packet)

/-- A packet that the client takes for one of its own has a length that fits. -/
def Fitting (order : ByteOrder) (takes : UInt32 → Prop) (packet : Packet) : Prop :=
  verifyChecksum order packet = true → takes packet.seqno → packet.LenFits

variable {order : ByteOrder} {takes : UInt32 → Prop} {packet : Packet} {c : κ}
  {outcome : Option (κ × List AckPacket)}

theorem extracts_none (hnone : outcome = none ↔
    Extracts order takes packet ∧ extractPureData packet = none) :
    outcome = none ↔
      verifyChecksum order packet = true ∧ takes packet.seqno ∧ ¬packet.LenFits := by
  have hextract : extractPureData packet = none ↔ ¬packet.LenFits := by
    rw [← extractPureData_isSome,Option.not_isSome_iff_eq_none]
  rw [hnone,hextract,Extracts]
  constructor
  · intro h
    exact ⟨h.1.1,h.1.2.1,h.2⟩
  · intro h
    refine ⟨⟨h.1,h.2.1,fun hlen => h.2.2 ?_⟩,h.2.2⟩
    rw [Packet.LenFits,hlen]
    decide

/-- What a client uses is read off its outcome, and its copies fail on what it extracts. -/
theorem actsOnValidated_iff (hnone : outcome = none ↔
      Extracts order takes packet ∧ extractPureData packet = none)
    (huses : Uses c outcome → verifyChecksum order packet = true ∧ takes packet.seqno) :
    ActsOnValidated order packet c outcome ↔ Fitting order takes packet := by
  have hfails := extracts_none hnone
  constructor
  · intro h hverify htakes
    by_contra hfits
    exact h.1 (hfails.mpr ⟨hverify,htakes,hfits⟩)
  · intro hfit
    refine ⟨fun hout => ?_,fun hused => ?_⟩
    · obtain ⟨hverify,htakes,hfits⟩ := hfails.mp hout
      exact hfits (hfit hverify htakes)
    · obtain ⟨hverify,htakes⟩ := huses hused
      exact ⟨hverify,hfit hverify htakes⟩

end Validation

theorem StopWaitClient.recvMessage_uses {order : ByteOrder} {c : StopWaitClient}
    {packet : Packet} (h : Uses c (c.recvMessage order (.ok packet))) :
    verifyChecksum order packet = true ∧ packet.seqno = c.ackNo := by
  by_contra hother
  exact h _ ((recvMessage_inOrder ..).trans (inOrder_other hother))

theorem GoBackClient.recvMessage_uses {order : ByteOrder} {c : GoBackClient}
    {packet : Packet} (h : Uses c (c.recvMessage order (.ok packet))) :
    verifyChecksum order packet = true ∧ packet.seqno = c.baseAckNo := by
  by_contra hother
  exact h _ ((recvMessage_inOrder ..).trans (inOrder_other hother))

namespace RepeatClient

variable {order : ByteOrder} {window : UInt32} {room : RepeatClient → Bool} {c : RepeatClient}
  {packet : Packet}

theorem recvMessage_answers (h : c.recvMessage order window room (.ok packet) ≠ some (c,List.nil)) :
    verifyChecksum order packet = true := by
  by_contra hverify
  apply h
  rw [recvMessage,if_neg hverify]

theorem recvMessage_uses (h : Uses c (c.recvMessage order window room (.ok packet))) :
    verifyChecksum order packet = true ∧ c.InWindow window packet.seqno := by
  have hverify := recvMessage_answers (h List.nil)
  refine ⟨hverify,?_⟩
  by_contra hout
  by_cases hold : c.Old window packet.seqno
  · exact h [createAckPacket packet.seqno] (by simp [recvMessage,hverify,hold])
  · exact h List.nil (by simp [recvMessage,hverify,hold,hout])

end RepeatClient

/-- The server copies a path out of a packet whatever its checksum, so it has validated the request
exactly if the datagram happens to have a correct sum and a length that fits. What a client writes,
buffers or records has passed the checksum, and it stays inside its buffers exactly if no packet
that it takes for one of its own has a length that does not fit. -/
theorem packets_validated (order : ByteOrder) (buffer : Vector UInt8 520) :
    let packet := deserializePacket buffer
    (∀ sum, Server.filePath { packet with checkSum := sum } = Server.filePath packet) ∧
    (Server.filePath packet ≠ none ∧
        (∀ path, Server.filePath packet = some path → Validated order packet) ↔
      verifyChecksum order packet = true ∧ packet.LenFits) ∧
    (∀ c : StopWaitClient,
      ActsOnValidated order packet c (c.recvMessage order (.ok packet)) ↔
        Fitting order (· = c.ackNo) packet) ∧
    (∀ c : GoBackClient,
      ActsOnValidated order packet c (c.recvMessage order (.ok packet)) ↔
        Fitting order (· = c.baseAckNo) packet) ∧
    ∀ (window : UInt32) (room : RepeatClient → Bool) (c : RepeatClient),
      (ActsOnValidated order packet c (c.recvMessage order window room (.ok packet)) ∧
        (c.recvMessage order window room (.ok packet) ≠ some (c,List.nil) →
          verifyChecksum order packet = true)) ↔
        Fitting order (c.InWindow window) packet := by
  intro packet
  refine ⟨filePath_checkSum packet,?_,fun c => ?_,fun c => ?_,fun window room c => ?_⟩
  · have hsome := filePath_isSome packet
    rw [Option.isSome_iff_ne_none] at hsome
    constructor
    · intro h
      obtain ⟨path,hpath⟩ := Option.ne_none_iff_exists'.mp h.1
      exact ⟨(h.2 path hpath).checksum,hsome.mp h.1⟩
    · intro h
      exact ⟨hsome.mpr h.2,fun _ _ => ⟨h.1,h.2⟩⟩
  · exact actsOnValidated_iff StopWaitClient.recvMessage_none StopWaitClient.recvMessage_uses
  · exact actsOnValidated_iff GoBackClient.recvMessage_none GoBackClient.recvMessage_uses
  · have hiff : ActsOnValidated order packet c (c.recvMessage order window room (.ok packet)) ↔
        Fitting order (c.InWindow window) packet :=
      actsOnValidated_iff RepeatClient.recvMessage_none RepeatClient.recvMessage_uses
    constructor
    · intro h
      exact hiff.mp h.1
    · intro hfit
      exact ⟨hiff.mpr hfit,RepeatClient.recvMessage_answers⟩

def shortPacket : Packet := sealPacket .little 65528 0 (Vector.replicate _ 0)

theorem shortPacket_not_fits : ¬shortPacket.LenFits := by decide

/-- The server takes 520 zero bytes for a request, and each client hands a packet numbered 0 whose
`len` is 0 to `extract_pure_data`; all of them copy past their buffers. -/
theorem packets_not_validated :
    Server.filePath (deserializePacket (Vector.replicate 520 0)) = none ∧
    ∃ buffer, deserializePacket buffer = shortPacket ∧
      StopWaitClient.recvMessage .little ⟨0,false,⟨0,0,0⟩,false,.fresh⟩
        (.ok (deserializePacket buffer)) = none ∧
      GoBackClient.recvMessage .little ⟨0,false,.fresh⟩ (.ok (deserializePacket buffer)) = none ∧
      RepeatClient.fresh.recvMessage .little 1 SelectiveRepeat.room
        (.ok (deserializePacket buffer)) = none ∧
      RepeatClient.fresh.recvMessage .little 1 (SelectiveRepeatCC.room 1)
        (.ok (deserializePacket buffer)) = none := by
  have hnone : extractPureData shortPacket = none := by
    rw [← Option.not_isSome_iff_eq_none,extractPureData_isSome]
    exact shortPacket_not_fits
  have hsum : verifyChecksum .little shortPacket = true := verifyChecksum_sealPacket _ _ _ _
  have hlen : shortPacket.len ≠ 8 := by decide
  refine ⟨?_,serializePacket shortPacket,deserialize_serializePacket _,?_⟩
  · rw [← Option.not_isSome_iff_eq_none,filePath_isSome]
    decide
  · rw [deserialize_serializePacket]
    refine ⟨StopWaitClient.recvMessage_none.mpr ⟨⟨hsum,rfl,hlen⟩,hnone⟩,
      GoBackClient.recvMessage_none.mpr ⟨⟨hsum,rfl,hlen⟩,hnone⟩,
      RepeatClient.recvMessage_none.mpr ⟨⟨hsum,?_,hlen⟩,hnone⟩,
      RepeatClient.recvMessage_none.mpr ⟨⟨hsum,?_,hlen⟩,hnone⟩⟩
    · change RepeatClient.fresh.InWindow 1 0
      decide
    · change RepeatClient.fresh.InWindow 1 0
      decide

end ReliableTransfer
