import ReliableTransfer.Framework.ReceiveLoop
import ReliableTransfer.Workers.Environment

/-!
# The receivers of selective repeat

`SelectiveRepeatClient` and `SelectiveRepeatCCClient` run the same `recv_message`, except that
the latter stores a segment only while its buffer holds fewer than `window` segments.
-/

namespace ReliableTransfer

structure RepeatClient where
  baseAckNo : UInt32
  dataReceived : Std.ExtTreeMap UInt32 PacketCoreData
  lastAckNo : UInt32
  ended : Bool
  sink : DataSink

namespace RepeatClient

def fresh : RepeatClient := ⟨0,∅,0xFFFFFFFF,false,.fresh⟩

def returned (c : RepeatClient) : Bool := c.ended && c.baseAckNo == c.lastAckNo

/-- The loop of `handleWindow`. Every pass takes one segment out of the buffer. -/
def drainBuffer (order : ByteOrder) : Nat → RepeatClient → RepeatClient
  | 0,c => c
  | n + 1,c => match c.dataReceived[c.baseAckNo]? with
    | none => c
    | some data => drainBuffer order n { c with
        sink := c.sink.feedNextData order data c.baseAckNo
        baseAckNo := c.baseAckNo + 1
        dataReceived := c.dataReceived.erase c.baseAckNo }

def handleWindow (order : ByteOrder) (c : RepeatClient) : RepeatClient :=
  c.drainBuffer order c.dataReceived.size

def minPack (window : UInt32) (c : RepeatClient) : UInt32 :=
  if c.baseAckNo > window then c.baseAckNo - window else 0

/-- A number below the base that is still answered. -/
def Old (window : UInt32) (c : RepeatClient) (seqno : UInt32) : Prop :=
  seqno < c.baseAckNo ∧ seqno ≥ c.minPack window

def InWindow (window : UInt32) (c : RepeatClient) (seqno : UInt32) : Prop :=
  ¬seqno < c.baseAckNo ∧ ¬seqno ≥ c.baseAckNo + window

instance (window : UInt32) (c : RepeatClient) (seqno : UInt32) : Decidable (c.Old window seqno) :=
  inferInstanceAs (Decidable (_ ∧ _))

instance (window : UInt32) (c : RepeatClient) (seqno : UInt32) :
    Decidable (c.InWindow window seqno) := inferInstanceAs (Decidable (_ ∧ _))

/-- The body of the loop in `recv_message`, with the test `room` for storing a new segment;
`none` when `extract_pure_data` leaves its buffers. -/
def recvMessage (order : ByteOrder) (window : UInt32) (room : RepeatClient → Bool)
    (c : RepeatClient) : Recv Packet → Option (RepeatClient × List AckPacket)
  | .timeOut => some (c,List.nil)
  | .error => some (c,List.nil)
  | .ok packet =>
    if verifyChecksum order packet then
      if c.Old window packet.seqno then some (c,[createAckPacket packet.seqno])
      else if c.InWindow window packet.seqno then
        if packet.len ≠ 8 then do
          let coreData ← extractPureData packet
          let stored := if packet.seqno ∉ c.dataReceived ∧ room c = true then
              { c with dataReceived := c.dataReceived.insert packet.seqno coreData }
            else c
          some (stored.handleWindow order,[createAckPacket packet.seqno])
        else some ({ c with ended := true, lastAckNo := packet.seqno },
          [createAckPacket packet.seqno])
      else some (c,List.nil)
    else some (c,List.nil)

def accept (order : ByteOrder) (window : UInt32) (room : RepeatClient → Bool) (c : RepeatClient)
    (packet : Packet) : Option (RepeatClient × List AckPacket) :=
  if c.returned then none else c.recvMessage order window room (.ok packet)

def receiver (order : ByteOrder) (window : UInt32) (room : RepeatClient → Bool) :
    Framework.Receiver RepeatClient (Recv Packet) AckPacket :=
  ⟨returned,recvMessage order window room⟩

end RepeatClient

end ReliableTransfer
