import ReliableTransfer.Socket.Timeout
import ReliableTransfer.Wire.Serial

/-!
# Receiving a datagram

The receiving functions of `socketUtils.cpp`. The buffer they hand to `recvfrom` is a local array
that nothing clears, so what it held before the call is a parameter here.
-/

namespace ReliableTransfer

/-- A buffer after a datagram was copied into it. The bytes that do not fit are lost. -/
def overwrite {n : Nat} (buff : Vector UInt8 n) (bytes : List UInt8) : Vector UInt8 n :=
  Vector.ofFn fun i =>
    have hi : i.val < n := i.isLt
    bytes.getD i.val buff[i.val]

/-- `recvfrom` with a buffer of `n` bytes: its result, and the buffer. -/
def recvfrom {n : Nat} (buff : Vector UInt8 n) : Option (List UInt8) → Int × Vector UInt8 n
  | some bytes => (min bytes.length n,overwrite buff bytes)
  | none => (-1,buff)

/-- The struct a receiving function returns, and the two variables it sets. -/
structure Reception (α : Type) where
  packet : α
  error : Bool
  timeOut : Bool
deriving DecidableEq

/-- The body the receiving functions share. `wouldBlock` is the test of `errno`, and `cleared` the
struct after its `memset`. -/
def receive {α : Type} {n : Nat} (deserialize : Vector UInt8 n → α) (cleared : α)
    (buff : Vector UInt8 n) (wouldBlock : Bool) (arrival : Option (List UInt8)) : Reception α :=
  let (count,buff) := recvfrom buff arrival
  if 0 < count then ⟨deserialize buff,false,false⟩
  else if wouldBlock then ⟨cleared,true,true⟩
  else ⟨cleared,true,false⟩

def receivePacket (buff : Vector UInt8 520) (wouldBlock : Bool)
    (arrival : Option (List UInt8)) : Reception Packet :=
  receive deserializePacket ⟨0,0,0,.replicate 512 0⟩ buff wouldBlock arrival

def receiveAckPacket (buff : Vector UInt8 8) (wouldBlock : Bool)
    (arrival : Option (List UInt8)) : Reception AckPacket :=
  receive deserializeAckpacket ⟨0,0,0⟩ buff wouldBlock arrival

/-- The overload of `receive_packet` without a timeout; `none` is `exit(1)`. -/
def receivePacketOrExit (buff : Vector UInt8 520) (arrival : Option (List UInt8)) :
    Option Packet :=
  let (count,buff) := recvfrom buff arrival
  if 0 < count then some (deserializePacket buff) else none

/-- How the callers read the two variables. -/
def Reception.recv {α : Type} (r : Reception α) : Recv α :=
  if r.error then if r.timeOut then .timeOut else .error
  else .ok r.packet

@[simp] theorem overwrite_getElem {n : Nat} (buff : Vector UInt8 n) (bytes : List UInt8) (i : Nat)
    (hi : i < n) : (overwrite buff bytes)[i] = bytes.getD i buff[i] := by
  simp [overwrite]

theorem overwrite_full {n : Nat} {bytes : List UInt8} (h : n ≤ bytes.length)
    (buff buff' : Vector UInt8 n) : overwrite buff bytes = overwrite buff' bytes := by
  ext i hi
  have hlt : i < bytes.length := by omega
  rw [overwrite_getElem,overwrite_getElem,List.getD_eq_getElem _ _ hlt,
    List.getD_eq_getElem _ _ hlt]

theorem overwrite_stale {n : Nat} {bytes : List UInt8} (buff : Vector UInt8 n) {i : Nat}
    (hlen : bytes.length ≤ i) (hi : i < n) : (overwrite buff bytes)[i] = buff[i] := by
  rw [overwrite_getElem,List.getD_eq_default _ _ hlen]

theorem overwrite_determined_iff {n : Nat} (bytes : List UInt8) :
    (∀ buff buff' : Vector UInt8 n, overwrite buff bytes = overwrite buff' bytes) ↔
      n ≤ bytes.length := by
  refine ⟨fun hall => ?_,overwrite_full⟩
  by_contra hlt
  have hi : bytes.length < n := by omega
  have hbyte : (overwrite (.replicate n 0) bytes)[bytes.length] =
      (overwrite (.replicate n 1) bytes)[bytes.length] := by
    rw [hall (.replicate n 0) (.replicate n 1)]
  rw [overwrite_stale _ le_rfl hi,overwrite_stale _ le_rfl hi] at hbyte
  simp at hbyte

theorem overwrite_frame {n : Nat} (buff frame : Vector UInt8 n) (rest : List UInt8) :
    overwrite buff (frame.toList ++ rest) = frame := by
  ext i hi
  have hlt : i < frame.toList.length := by simpa using hi
  rw [overwrite_getElem,List.getD_append _ _ _ _ hlt,List.getD_eq_getElem _ _ hlt]
  simp

theorem deserializePacket_injective : Function.Injective deserializePacket :=
  Function.LeftInverse.injective serialize_deserializePacket

theorem deserializeAckpacket_injective : Function.Injective deserializeAckpacket :=
  Function.LeftInverse.injective serialize_deserializeAckpacket

theorem recvfrom_datagram {n : Nat} [NeZero n] (buff : Vector UInt8 n) {bytes : List UInt8}
    (h : 1 ≤ bytes.length) :
    0 < (recvfrom buff (some bytes)).1 ∧
      (recvfrom buff (some bytes)).2 = overwrite buff bytes := by
  have hn : 0 < n := Nat.pos_of_ne_zero (NeZero.ne n)
  refine ⟨?_,rfl⟩
  simp only [recvfrom]
  omega

/-- A datagram is decoded, and its length is not looked at. -/
theorem receive_datagram {α : Type} {n : Nat} [NeZero n] (deserialize : Vector UInt8 n → α)
    (cleared : α) (buff : Vector UInt8 n) (wouldBlock : Bool) {bytes : List UInt8}
    (h : 1 ≤ bytes.length) :
    receive deserialize cleared buff wouldBlock (some bytes) =
      ⟨deserialize (overwrite buff bytes),false,false⟩ := by
  obtain ⟨hpos,hbuff⟩ := recvfrom_datagram buff h
  simp only [receive]
  rw [if_pos hpos,hbuff]

theorem receivePacketOrExit_datagram (buff : Vector UInt8 520) {bytes : List UInt8}
    (h : 1 ≤ bytes.length) :
    receivePacketOrExit buff (some bytes) = some (deserializePacket (overwrite buff bytes)) := by
  obtain ⟨hpos,hbuff⟩ := recvfrom_datagram buff h
  simp only [receivePacketOrExit]
  rw [if_pos hpos,hbuff]

theorem receive_determined_iff {α : Type} {n : Nat} [NeZero n] {deserialize : Vector UInt8 n → α}
    (hinj : Function.Injective deserialize) (cleared : α) (wouldBlock : Bool) {bytes : List UInt8}
    (h : 1 ≤ bytes.length) :
    (∀ buff buff', (receive deserialize cleared buff wouldBlock (some bytes)).packet =
      (receive deserialize cleared buff' wouldBlock (some bytes)).packet) ↔ n ≤ bytes.length := by
  rw [← overwrite_determined_iff]
  simp only [receive_datagram _ _ _ _ h]
  exact forall₂_congr fun buff buff' => hinj.eq_iff

theorem receivePacket_serialized (buff : Vector UInt8 520) (wouldBlock : Bool) (pack : Packet) :
    (receivePacket buff wouldBlock (some (serializePacket pack).toList)).recv = .ok pack := by
  have hlen : 1 ≤ (serializePacket pack).toList.length := by
    rw [Vector.length_toList]
    decide
  have hframe := overwrite_frame buff (serializePacket pack) List.nil
  rw [List.append_nil] at hframe
  rw [receivePacket,receive_datagram _ _ _ _ hlen,hframe,deserialize_serializePacket]
  rfl

theorem receiveAckPacket_serialized (buff : Vector UInt8 8) (wouldBlock : Bool)
    (pack : AckPacket) :
    (receiveAckPacket buff wouldBlock (some (serializeAckpacket pack).toList)).recv = .ok pack := by
  have hlen : 1 ≤ (serializeAckpacket pack).toList.length := by
    rw [Vector.length_toList]
    decide
  have hframe := overwrite_frame buff (serializeAckpacket pack) List.nil
  rw [List.append_nil] at hframe
  rw [receiveAckPacket,receive_datagram _ _ _ _ hlen,hframe,deserialize_serializeAckpacket]
  rfl

/-- What is decoded depends on the datagram alone exactly when it fills the frame. -/
theorem received_determined_iff (bytes : List UInt8) (wouldBlock : Bool) (h : 1 ≤ bytes.length) :
    ((∀ buff buff', (receivePacket buff wouldBlock (some bytes)).packet =
      (receivePacket buff' wouldBlock (some bytes)).packet) ↔ 520 ≤ bytes.length) ∧
    ((∀ buff buff', receivePacketOrExit buff (some bytes) =
      receivePacketOrExit buff' (some bytes)) ↔ 520 ≤ bytes.length) ∧
    ((∀ buff buff', (receiveAckPacket buff wouldBlock (some bytes)).packet =
      (receiveAckPacket buff' wouldBlock (some bytes)).packet) ↔ 8 ≤ bytes.length) := by
  refine ⟨receive_determined_iff deserializePacket_injective _ _ h,?_,
    receive_determined_iff deserializeAckpacket_injective _ _ h⟩
  rw [← overwrite_determined_iff]
  apply forall₂_congr
  intro buff buff'
  rw [receivePacketOrExit_datagram buff h,receivePacketOrExit_datagram buff' h,Option.some_inj]
  exact deserializePacket_injective.eq_iff

theorem received_determined_iff_byte :
    1 ≤ [(7 : UInt8)].length ∧
    ((∀ buff buff', (receivePacket buff false (some [7])).packet =
      (receivePacket buff' false (some [7])).packet) ↔ 520 ≤ [(7 : UInt8)].length) ∧
    ((∀ buff buff', receivePacketOrExit buff (some [7]) =
      receivePacketOrExit buff' (some [7])) ↔ 520 ≤ [(7 : UInt8)].length) ∧
    ((∀ buff buff', (receiveAckPacket buff false (some [7])).packet =
      (receiveAckPacket buff' false (some [7])).packet) ↔ 8 ≤ [(7 : UInt8)].length) :=
  ⟨by decide,received_determined_iff [7] false (by decide)⟩

/-- A datagram of one byte: the number of the packet comes from the old buffer in all three. -/
theorem received_short :
    (receivePacket (.replicate 520 0) false (some [7])).packet.seqno ≠
      (receivePacket (.replicate 520 1) false (some [7])).packet.seqno ∧
    (receivePacketOrExit (.replicate 520 0) (some [7])).map Packet.seqno ≠
      (receivePacketOrExit (.replicate 520 1) (some [7])).map Packet.seqno ∧
    (receiveAckPacket (.replicate 8 0) false (some [7])).packet.ackno ≠
      (receiveAckPacket (.replicate 8 1) false (some [7])).packet.ackno := by
  have hlen : 1 ≤ [(7 : UInt8)].length := by decide
  rw [receivePacket,receivePacket,receiveAckPacket,receiveAckPacket,
    receive_datagram _ _ _ _ hlen,receive_datagram _ _ _ _ hlen,receive_datagram _ _ _ _ hlen,
    receive_datagram _ _ _ _ hlen,receivePacketOrExit_datagram _ hlen,
    receivePacketOrExit_datagram _ hlen]
  simp only [deserializePacket,deserializeAckpacket,overwrite_getElem,Vector.getElem_replicate,
    Option.map_some]
  decide

end ReliableTransfer
