import ReliableTransfer.Framework.NodeList
import ReliableTransfer.Workers.Sender

/-!
# The containers of the selective-repeat senders

`SelectiveRepeatServer` and `SelectiveRepeatCCServer` keep the same containers and run the same
`receive_ack` and `updateTimers` on them. They differ in where the window comes from, in what
acknowledgements and timeouts do to it, and in two tests; `RepeatHooks` collects the differences.
-/

namespace ReliableTransfer

open Framework

abbrev Table (α : Type) := Std.ExtTreeMap UInt32 α

structure RepeatServer (γ : Type) where
  baseSeqNo : UInt32
  seqNo : UInt32
  sendOrder : NodeList UInt32
  sendOrderIterators : Table Nat
  seqnumsSent : Table Timeval
  dataSent : Table Packet
  acks : Finset UInt32
  ctl : γ

/-- What the two senders do differently. -/
structure RepeatHooks (γ : Type) where
  window : γ → UInt32
  /-- On a timeout, in `receive_ack` and in `updateTimers`. -/
  onTimeout : γ → γ
  /-- On an acknowledgement of an outstanding packet, before the containers change. -/
  onAck : γ → γ
  /-- On the same acknowledgement, after the containers have changed. -/
  afterAck : γ → γ
  /-- Whether `updateTimers` looks a packet up in `data_sent` before it uses it. -/
  checksData : Bool
  /-- The test of the closing loop. -/
  pending : RepeatServer γ → Bool

namespace RepeatServer

variable {γ : Type}

def fresh (ctl : γ) : RepeatServer γ := ⟨0,0,.empty,∅,∅,∅,∅,ctl⟩

def windowOpen (h : RepeatHooks γ) (s : RepeatServer γ) : Bool :=
  decide (s.baseSeqNo + h.window s.ctl > s.seqNo)

def recordSent (packet : Packet) (sendTime : Timeval) (s : RepeatServer γ) : RepeatServer γ :=
  { s with
    dataSent := s.dataSent.insertIfNew s.seqNo packet
    seqnumsSent := s.seqnumsSent.insertIfNew s.seqNo sendTime
    sendOrder := s.sendOrder.pushBack s.seqNo
    sendOrderIterators := s.sendOrderIterators.insert s.seqNo s.sendOrder.fresh
    seqNo := s.seqNo + 1 }

/-- The loop that moves the base over early acknowledgements. Every pass removes one, so
`acks.card` passes are enough. -/
def slide : Nat → Finset UInt32 → UInt32 → Finset UInt32 × UInt32
  | 0,acks,base => (acks,base)
  | n + 1,acks,base => if base ∈ acks then slide n (acks.erase base) (base + 1) else (acks,base)

/-- The block that takes an outstanding number off the containers; `none` where it erases an
element a container does not have. -/
def acknowledge (h : RepeatHooks γ) (ackno : UInt32) (s : RepeatServer γ) :
    Option (RepeatServer γ) := do
  let acks := insert ackno s.acks
  let (acks,base) := slide acks.card acks s.baseSeqNo
  let _ ← s.dataSent[ackno]?
  let it ← s.sendOrderIterators[ackno]?
  let sendOrder ← s.sendOrder.erase it
  some { s with
    baseSeqNo := base
    acks := acks
    seqnumsSent := s.seqnumsSent.erase ackno
    dataSent := s.dataSent.erase ackno
    sendOrder := sendOrder
    sendOrderIterators := s.sendOrderIterators.erase ackno
    ctl := h.afterAck (h.onAck s.ctl) }

def front (stray : UInt32) (s : RepeatServer γ) : UInt32 :=
  (s.sendOrder.front?.map Prod.snd).getD stray

/-- `seqnums_sent[sendOrder.front()]` inserts a zero time under a missing key. -/
def touch (stray : UInt32) (s : RepeatServer γ) : RepeatServer γ :=
  { s with seqnumsSent := s.seqnumsSent.insertIfNew (s.front stray) ⟨0,0⟩ }

def Acceptable (h : RepeatHooks γ) (s : RepeatServer γ) (ackPacket : AckPacket) : Prop :=
  ackPacket.ackno ≥ s.baseSeqNo ∧ ackPacket.ackno < s.baseSeqNo + h.window s.ctl

instance (h : RepeatHooks γ) (s : RepeatServer γ) (ackPacket : AckPacket) :
    Decidable (s.Acceptable h ackPacket) := inferInstanceAs (Decidable (_ ∧ _))

def receiveAck (h : RepeatHooks γ) (env : AckEnv) (s : RepeatServer γ) :
    Option (Bool × RepeatServer γ) :=
  let sendTime := s.seqnumsSent.getD (s.front env.stray) ⟨0,0⟩
  let s := s.touch env.stray
  match env.answer sendTime with
  | .timeOut => some (false,{ s with ctl := h.onTimeout s.ctl })
  | .error => some (false,s)
  | .ok ackPacket =>
    if verifyChecksumAck ackPacket ∧ s.Acceptable h ackPacket then
      if ackPacket.ackno ∈ s.seqnumsSent then
        (s.acknowledge h ackPacket.ackno).map fun s => (true,s)
      else some (true,s)
    else some (false,s)

/-- A retransmitted packet gets a new time and moves to the end of the order. -/
def requeue (seqno : UInt32) (packet : Packet) (sendTime : Timeval) (sendOrder : NodeList UInt32)
    (s : RepeatServer γ) : RepeatServer γ :=
  { s with
    seqnumsSent := s.seqnumsSent.insert seqno sendTime
    sendOrder := sendOrder.pushBack packet.seqno
    sendOrderIterators := s.sendOrderIterators.insert packet.seqno sendOrder.fresh }

/-- The loop of `updateTimers` with its `pack_id` and the numbers resent so far; `none` where it
dereferences the end of a container. -/
def timerLoop (h : RepeatHooks γ) (ticks : Nat → Tick) :
    Nat → Nat → Option Nat → List UInt32 → RepeatServer γ →
      Option (Bool × RepeatServer γ × List Packet)
  | _,_,none,_,s => some (true,s,List.nil)
  | 0,_,some _,_,_ => none
  | fuel + 1,i,some packId,resent,s => do
    let seqno ← s.sendOrder.get? packId
    if seqno ∈ resent then some (true,s,List.nil)
    else
      let sentAt ← s.seqnumsSent[seqno]?
      if expired sentAt (ticks i).now then
        let s := { s with ctl := h.onTimeout s.ctl }
        match s.dataSent[seqno]? with
        | none => if h.checksData then some (true,s,List.nil) else none
        | some packet =>
          let (sent,out) := (ticks i).transmit packet
          if sent then
            let sendOrder ← s.sendOrder.erase packId
            let (noErr,s',more) ← timerLoop h ticks fuel (i + 1) (s.sendOrder.next packId)
              (packet.seqno :: resent) (s.requeue seqno packet (ticks i).sendTime sendOrder)
            some (noErr,s',out ++ more)
          else some (false,s,out)
      else some (true,s,List.nil)

/-- A number is resent at most once, so one pass more than the order has elements is enough. -/
def updateTimers (h : RepeatHooks γ) (ticks : Nat → Tick) (s : RepeatServer γ) :
    Option (Bool × RepeatServer γ × List Packet) :=
  timerLoop h ticks (s.sendOrder.nodes.length + 1) 0 (s.sendOrder.front?.map Prod.fst) List.nil s

def ops (h : RepeatHooks γ) : SenderOps (RepeatServer γ) where
  windowOpen := windowOpen h
  seqNo := seqNo
  recordSent := recordSent
  receiveAck := receiveAck h
  updateTimers := updateTimers h
  pending := h.pending
  heedsTimers := true

end RepeatServer

end ReliableTransfer
