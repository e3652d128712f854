import ReliableTransfer.Workers.SelectiveRepeat.Protocol

/-!
# Selective repeat with congestion control

`SelectiveRepeatCCServer` grows its window on acknowledgements, shrinks it on timeouts and on the
triple acknowledgements that `control.cc` schedules, and logs both. `SelectiveRepeatCCClient`
bounds its buffer.
-/

namespace ReliableTransfer

open Framework

/-- The window and what determines it. Round numbers are counted in halves. -/
structure Congestion where
  window : UInt32
  ssthres : UInt32
  miniWin : UInt32
  dupAcks : List UInt32
  dupAckIndex : Nat
  successAcks : UInt32
  transRound : Int
  roundsSsthres : List UInt32
  roundsWindow : List UInt32
  rounds : List Int

namespace Congestion

def log (c : Congestion) (round : Int) : Congestion :=
  { c with
    roundsSsthres := c.roundsSsthres ++ [c.ssthres]
    roundsWindow := c.roundsWindow ++ [c.window]
    rounds := c.rounds ++ [round] }

/-- Logs under the current round and begins the next one. -/
def nextRound (c : Congestion) : Congestion :=
  { c.log c.transRound with transRound := c.transRound + 2 }

/-- The beginning of `send_message`, with the schedule read from `control.cc`. -/
def start (dupAcks : List UInt32) (orgWindow : UInt32) : Congestion :=
  nextRound ⟨1,orgWindow,0,dupAcks,0,0,2,List.nil,List.nil,List.nil⟩

def windowDecrease (timeout : Bool) (c : Congestion) : Congestion :=
  let logged := c.log (c.transRound - 1)
  let ssthres := if c.window / 2 = 0 then 1 else c.window / 2
  nextRound { logged with
    ssthres := ssthres
    miniWin := 0
    window := if timeout then 1 else ssthres }

def grow (c : Congestion) : Congestion :=
  let c := { c with successAcks := c.successAcks + 1 }
  if c.window ≥ c.ssthres then
    let c := { c with miniWin := c.miniWin + 1 }
    if c.miniWin = c.window then nextRound { c with window := c.window + 1, miniWin := 0 } else c
  else
    let c := { c with window := c.window + 1 }
    if c.window = 2 * c.roundsWindow.getLast?.getD 0 then c.nextRound else c

/-- The triple acknowledgement that `control.cc` may schedule here. -/
def tripleAck (c : Congestion) : Congestion :=
  if c.dupAcks[c.dupAckIndex]? = some c.successAcks then
    windowDecrease false { c with successAcks := 0, dupAckIndex := c.dupAckIndex + 1 }
  else c

end Congestion

abbrev SelectiveRepeatCCServer := RepeatServer Congestion

namespace SelectiveRepeatCC

/-- `SelectiveRepeatCCServer` closes on `sendOrder`. -/
def hooks : RepeatHooks Congestion where
  window := Congestion.window
  onTimeout := Congestion.windowDecrease true
  onAck := Congestion.grow
  afterAck := Congestion.tripleAck
  checksData := true
  pending s := !s.sendOrder.values.isEmpty

/-- `SelectiveRepeatCCClient` stores a segment only while its buffer is smaller than its
window. -/
def room (window : UInt32) (c : RepeatClient) : Bool := decide (c.dataReceived.size < window.toNat)

def link (order : ByteOrder) (clientWindow : UInt32) :
    Link (Sending SelectiveRepeatCCServer) RepeatClient SenderEvent Packet AckPacket :=
  Sending.link (RepeatServer.ops hooks) order
    (RepeatClient.accept order clientWindow (room clientWindow))

def start (dupAcks : List UInt32) (orgWindow : UInt32) (file : List UInt8) :
    RepeatLink Congestion :=
  ⟨.start (.fresh (.start dupAcks orgWindow)) file,.fresh,0,0⟩

end SelectiveRepeatCC

end ReliableTransfer
