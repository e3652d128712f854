import ReliableTransfer.Framework.ReceiveLoop
import ReliableTransfer.Workers.Sender

/-!
# Go-back-N

`GoBackServer` keeps the unacknowledged packets in a vector with one timer for all of them, and
takes acknowledgements as cumulative. `GoBackClient` consumes packets in order and says nothing
about any other packet.
-/

namespace ReliableTransfer

open Framework

structure GoBackServer where
  baseSeqNo : UInt32
  seqNo : UInt32
  unackedPacket : List Packet
  sendTime : Timeval

namespace GoBackServer

def windowOpen (window : UInt32) (s : GoBackServer) : Bool :=
  decide (s.baseSeqNo + window > s.seqNo)

def recordSent (packet : Packet) (sendTime2 : Timeval) (s : GoBackServer) : GoBackServer where
  baseSeqNo := s.baseSeqNo
  seqNo := s.seqNo + 1
  unackedPacket := s.unackedPacket ++ [packet]
  sendTime := if s.unackedPacket.length = 0 then sendTime2 else s.sendTime

/-- The loop `while(base_seq_no <= ackno)`; `none` when it erases from an empty vector. -/
def trim (ackno : UInt32) : List Packet → UInt32 → Option (List Packet × UInt32)
  | [],base => if base ≤ ackno then none else some (List.nil,base)
  | packet :: unacked,base =>
    if base ≤ ackno then trim ackno unacked (base + 1) else some (packet :: unacked,base)

def receiveAck (window : UInt32) (env : AckEnv) (s : GoBackServer) :
    Option (Bool × GoBackServer) :=
  match env.answer s.sendTime with
  | .timeOut => some (false,s)
  | .error => some (false,s)
  | .ok ackPacket =>
    if verifyChecksumAck ackPacket ∧ ackPacket.ackno ≥ s.baseSeqNo ∧
        ackPacket.ackno < s.baseSeqNo + window then
      (trim ackPacket.ackno s.unackedPacket s.baseSeqNo).map fun (unacked,base) =>
        (true,{ s with
          baseSeqNo := base
          unackedPacket := unacked
          sendTime := if unacked.length ≠ 0 then env.later else s.sendTime })
    else some (false,s)

/-- The loop over `unacked_packet` in `updateTimer`: whether all sends succeed, the new
`sendTime`, and what reaches the wire. -/
def resend (ticks : Nat → Tick) : Nat → List Packet → Timeval → Bool × Timeval × List Packet
  | _,[],sendTime => (true,sendTime,List.nil)
  | i,packet :: unacked,sendTime =>
    let (sent,out) := (ticks i).transmit packet
    if sent then
      let sendTime := if i = 0 then (ticks i).sendTime else sendTime
      let (noErr,sendTime,more) := resend ticks (i + 1) unacked sendTime
      (noErr,sendTime,out ++ more)
    else (false,sendTime,out)

def updateTimer (ticks : Nat → Tick) (s : GoBackServer) : Bool × GoBackServer × List Packet :=
  if expired s.sendTime (ticks 0).now then
    let (noErr,sendTime,out) := resend ticks 0 s.unackedPacket s.sendTime
    (noErr,{ s with sendTime := sendTime },out)
  else (true,s,List.nil)

def ops (window : UInt32) : SenderOps GoBackServer where
  windowOpen := windowOpen window
  seqNo := seqNo
  recordSent := recordSent
  receiveAck := receiveAck window
  updateTimers ticks s := some (s.updateTimer ticks)
  pending s := decide (s.unackedPacket.length ≠ 0)
  heedsTimers := false

end GoBackServer

structure GoBackClient where
  baseAckNo : UInt32
  ended : Bool
  sink : DataSink

/-- The body of the loop in `recv_message`; `none` when `extract_pure_data` leaves its buffers. -/
def GoBackClient.recvMessage (order : ByteOrder) (c : GoBackClient) :
    Recv Packet → Option (GoBackClient × List AckPacket)
  | .timeOut => some (c,List.nil)
  | .error => some (c,List.nil)
  | .ok packet =>
    if verifyChecksum order packet && packet.seqno == c.baseAckNo then
      if packet.len ≠ 8 then do
        let coreData ← extractPureData packet
        some ({ c with
          baseAckNo := c.baseAckNo + 1
          sink := c.sink.feedNextData order coreData packet.seqno },
          [createAckPacket packet.seqno])
      else
        some ({ c with baseAckNo := c.baseAckNo + 1, ended := true },
          [createAckPacket packet.seqno])
    else some (c,List.nil)

/-- The loop of `recv_message` over what its calls of `receive_packet` return. -/
def GoBackClient.receiver (order : ByteOrder) : Receiver GoBackClient (Recv Packet) AckPacket :=
  ⟨ended,recvMessage order⟩

namespace GoBackN

def accept (order : ByteOrder) (c : GoBackClient) (packet : Packet) :
    Option (GoBackClient × List AckPacket) :=
  if c.ended then none else c.recvMessage order (.ok packet)

def link (order : ByteOrder) (window : UInt32) :
    Link (Sending GoBackServer) GoBackClient SenderEvent Packet AckPacket :=
  Sending.link (GoBackServer.ops window) order (accept order)

def start (file : List UInt8) : LinkState (Sending GoBackServer) GoBackClient Packet AckPacket :=
  ⟨.start ⟨0,0,List.nil,⟨0,0⟩⟩ file,⟨0,false,.fresh⟩,0,0⟩

end GoBackN

end ReliableTransfer
