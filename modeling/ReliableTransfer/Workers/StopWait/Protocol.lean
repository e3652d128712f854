import ReliableTransfer.Framework.LossyLink
import ReliableTransfer.Framework.ReceiveLoop
import ReliableTransfer.Workers.Environment

/-!
# Stop-and-wait

`StopWaitServer` and `StopWaitClient`. Control in the server is explicit: it stands at the loop
head of `send_message`, at one of the two labels `bad_pack`, or at the loop head of
`resend_packet`.
-/

namespace ReliableTransfer

open Framework

inductive StopWaitLoc where
  /-- The test `while(dataFeeder->hasNext())`. -/
  | head
  /-- `bad_pack` in `send_message`, with its `tv` and `sendTime`. -/
  | wait (packet : Packet) (tv sendTime : Timeval)
  /-- The loop head of `resend_packet`. -/
  | resend (packet : Packet)
  /-- `bad_pack` in `resend_packet`. -/
  | rewait (packet : Packet) (tv sendTime : Timeval)
  | returned (failed : Bool)

structure StopWaitServer where
  seqNo : UInt32
  feeder : DataFeeder
  loc : StopWaitLoc

inductive StopWaitEvent where
  /-- The loop test fails. -/
  | stop
  /-- A transmission. -/
  | send (tick : Tick)
  /-- The clock reads `now` and the remaining time is over. -/
  | expire (now : Timeval)
  /-- The clock reads `now`, time remains, and the socket is asked for a datagram. -/
  | receive (now : Timeval) (recv : Recv AckPacket)

namespace StopWaitServer

/-- One pass through the code at `bad_pack`. The two copies differ in what follows a timeout and
an error, and agree on the rest. -/
def badPack (s : StopWaitServer) (tv sendTime : Timeval) (again : Timeval → Timeval → StopWaitLoc)
    (onTimeout onError : StopWaitLoc) : StopWaitEvent → Option StopWaitServer
  | .expire now =>
    if (updateRemainingTimeout tv sendTime now).1 then some { s with loc := onTimeout } else none
  | .receive now recv =>
    let (miniTimeout,tv,sendTime) := updateRemainingTimeout tv sendTime now
    if miniTimeout then none
    else match recv with
      | .timeOut => some { s with loc := onTimeout }
      | .error => some { s with loc := onError }
      | .ok ackPacket =>
        if verifyChecksumAck ackPacket && ackPacket.ackno == s.seqNo then
          some { s with seqNo := s.seqNo + 1, loc := .head }
        else some { s with loc := again tv sendTime }
  | _ => none

def step (order : ByteOrder) (s : StopWaitServer) (e : StopWaitEvent) :
    Option (StopWaitServer × List Packet) :=
  match s.loc with
  | .head => match e with
    | .stop => if s.feeder.hasNext then none else some ({ s with loc := .returned false },List.nil)
    | .send tick =>
      if s.feeder.hasNext then
        let (packetData,feeder) := s.feeder.getNextDataSegment
        let packet := createDataPacketCore order packetData s.seqNo
        let (sent,out) := tick.transmit packet
        let loc := if sent then .wait packet fullTimeout tick.sendTime else .returned true
        some ({ s with feeder := feeder, loc := loc },out)
      else none
    | _ => none
  | .wait packet tv sendTime =>
    (s.badPack tv sendTime (.wait packet) (.resend packet) (.returned true) e).map (·,List.nil)
  | .resend packet => match e with
    | .send tick =>
      let (sent,out) := tick.transmit packet
      let loc := if sent then .rewait packet fullTimeout tick.sendTime else .returned true
      some ({ s with loc := loc },out)
    | _ => none
  | .rewait packet tv sendTime =>
    (s.badPack tv sendTime (.rewait packet) (.resend packet) (.resend packet) e).map (·,List.nil)
  | .returned _ => none

end StopWaitServer

structure StopWaitClient where
  ackNo : UInt32
  sentOne : Bool
  lastPack : AckPacket
  ended : Bool
  sink : DataSink

/-- The body of the loop in `recv_message`; `none` when `extract_pure_data` leaves its buffers. -/
def StopWaitClient.recvMessage (order : ByteOrder) (c : StopWaitClient) :
    Recv Packet → Option (StopWaitClient × List AckPacket)
  | .timeOut => some (c,List.nil)
  | .error => some (c,List.nil)
  | .ok packet =>
    if verifyChecksum order packet && packet.seqno == c.ackNo then
      let lastPack := createAckPacket c.ackNo
      if packet.len ≠ 8 then do
        let coreData ← extractPureData packet
        some ({ c with
          sentOne := true
          sink := c.sink.feedNextData order coreData packet.seqno
          lastPack := lastPack
          ackNo := c.ackNo + 1 },[lastPack])
      else
        some ({ c with
          sentOne := true
          lastPack := lastPack
          ackNo := c.ackNo + 1
          ended := true },[lastPack])
    else some (c,if c.sentOne then [c.lastPack] else List.nil)

/-- The loop of `recv_message` over what its calls of `receive_packet` return. -/
def StopWaitClient.receiver (order : ByteOrder) :
    Receiver StopWaitClient (Recv Packet) AckPacket :=
  ⟨ended,recvMessage order⟩

namespace StopWait

def link (order : ByteOrder) :
    Link StopWaitServer StopWaitClient StopWaitEvent Packet AckPacket where
  serve := StopWaitServer.step order
  reads
    | .receive _ (.ok ackPacket) => some ackPacket
    | _ => none
  accept c packet := if c.ended then none else c.recvMessage order (.ok packet)
  calm
    | .send tick => tick.Calm
    | .receive _ .error => False
    | _ => True

def start (file : List UInt8) : LinkState StopWaitServer StopWaitClient Packet AckPacket where
  server := ⟨0,feederAt file 0,.head⟩
  client := ⟨0,false,⟨0,0,0⟩,false,.fresh⟩
  data := 0
  acks := 0

end StopWait

end ReliableTransfer
