import ReliableTransfer.Workers.SelectiveRepeat.Bookkeeping
import ReliableTransfer.Workers.SelectiveRepeat.Receiver

/-!
# Selective repeat

`SelectiveRepeatServer` with a fixed window, and `SelectiveRepeatClient`.
-/

namespace ReliableTransfer

open Framework

abbrev RepeatLink (γ : Type) := LinkState (Sending (RepeatServer γ)) RepeatClient Packet AckPacket

abbrev RepeatServer.link {γ : Type} (h : RepeatHooks γ) (order : ByteOrder) (window : UInt32)
    (room : RepeatClient → Bool) :
    Link (Sending (RepeatServer γ)) RepeatClient SenderEvent Packet AckPacket :=
  Sending.link (ops h) order (RepeatClient.accept order window room)

/-- The sender carries the `window` parameter of `send_message`. -/
abbrev SelectiveRepeatServer := RepeatServer UInt32

namespace SelectiveRepeat

/-- `SelectiveRepeatServer` does nothing to its window, and closes on `seqnums_sent`. -/
def hooks : RepeatHooks UInt32 where
  window := id
  onTimeout := id
  onAck := id
  afterAck := id
  checksData := false
  pending s := !s.seqnumsSent.isEmpty

/-- `SelectiveRepeatClient` stores every segment its window admits. -/
def room (_ : RepeatClient) : Bool := true

def link (order : ByteOrder) (clientWindow : UInt32) :
    Link (Sending SelectiveRepeatServer) RepeatClient SenderEvent Packet AckPacket :=
  Sending.link (RepeatServer.ops hooks) order (RepeatClient.accept order clientWindow room)

def start (window : UInt32) (file : List UInt8) : RepeatLink UInt32 :=
  ⟨.start (.fresh window) file,.fresh,0,0⟩

end SelectiveRepeat

end ReliableTransfer
