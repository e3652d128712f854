import ReliableTransfer.Framework.BitFlip

/-!
# Packets and their checksum

The structures of `packet.h` and `ack_packet.h` and the functions of `packet_utils.cpp`. The
body of a packet is read by the checksum loop through a `uint16_t` pointer, so the sum depends
on the byte order of the host that computes it.
-/

namespace ReliableTransfer

abbrev pckDataSize : Nat := 512

structure Packet where
  checkSum : UInt16
  len : UInt16
  seqno : UInt32
  data : Vector UInt8 pckDataSize
deriving DecidableEq

/-- Every value the program builds clears the structure first and then copies `size` bytes
into `data`, so the bytes past `size` are zero. -/
structure PacketCoreData where
  size : UInt16
  data : Vector UInt8 pckDataSize
  size_le : size.toNat ≤ pckDataSize
  padded : ∀ (i : Nat) (h : i < pckDataSize), size.toNat ≤ i → data[i] = 0

structure AckPacket where
  cksum : UInt16
  len : UInt16
  ackno : UInt32
deriving DecidableEq

inductive ByteOrder where
  | little
  | big
deriving DecidableEq

/-- The `uint16_t` a host reads from two consecutive bytes of memory. -/
def ByteOrder.word : ByteOrder → UInt8 → UInt8 → UInt16
  | .little, first, second => second.toUInt16 <<< 8 ||| first.toUInt16
  | .big, first, second => first.toUInt16 <<< 8 ||| second.toUInt16

/-- `dum_ptr[i]`, where `dum_ptr` points at the packet's body. -/
def dumPtr (order : ByteOrder) (data : Vector UInt8 pckDataSize) (i : Fin (pckDataSize / 16)) :
    UInt16 :=
  have hi : i.val < 32 := i.isLt
  order.word data[2 * i.val] data[2 * i.val + 1]

/-- One addition of the checksum followed by its carry test. The test reads `sum | 0x0100`. -/
def addWord (sum word : UInt32) : UInt32 :=
  let sum := sum + word
  if sum ||| 0x0100 ≠ 0 then (sum &&& 0xFEFF) + 1 else sum

def calculateChecksum (order : ByteOrder) (pack : Packet) : UInt16 :=
  let sum := pack.len.toUInt32
  let sum := addWord sum (pack.seqno >>> 16)
  let sum := addWord sum (pack.seqno &&& 0x00FF)
  let sum := (List.finRange (pckDataSize / 16)).foldl
    (fun sum i => addWord sum (dumPtr order pack.data i).toUInt32) sum
  sum.toUInt16

def calculateChecksumAck (pack : AckPacket) : UInt16 :=
  let sum := pack.len.toUInt32
  let sum := addWord sum (pack.ackno >>> 16)
  let sum := addWord sum (pack.ackno &&& 0x00FF)
  sum.toUInt16

def verifyChecksum (order : ByteOrder) (pack : Packet) : Bool :=
  pack.checkSum == calculateChecksum order pack

def verifyChecksumAck (pack : AckPacket) : Bool :=
  pack.cksum == calculateChecksumAck pack

/-- A `memcpy` of `n` bytes into a zeroed body. -/
def copyBytes (src : List UInt8) (n : Nat) : Vector UInt8 pckDataSize :=
  Vector.ofFn fun i => if i.val < n then src.getD i 0 else 0

/-- The packet with the given header and body, sealed by its checksum. -/
def sealPacket (order : ByteOrder) (size : UInt16) (seqNum : UInt32)
    (body : Vector UInt8 pckDataSize) : Packet :=
  let pck : Packet := ⟨0,8 + size,seqNum,body⟩
  { pck with checkSum := calculateChecksum order pck }

/-- `create_data_packet` on a raw buffer; `none` when the copy leaves `data` or `pck.data`. -/
def createDataPacket (order : ByteOrder) (data : List UInt8) (size : UInt16)
    (seqNum : UInt32) : Option Packet :=
  if size.toNat ≤ data.length ∧ size.toNat ≤ pckDataSize then
    some (sealPacket order size seqNum (copyBytes data size.toNat))
  else none

/-- The overload of `create_data_packet` on core data. -/
def createDataPacketCore (order : ByteOrder) (coreData : PacketCoreData)
    (seqNum : UInt32) : Packet :=
  sealPacket order coreData.size seqNum (copyBytes coreData.data.toList coreData.size.toNat)

def createAckPacket (seqNum : UInt32) : AckPacket :=
  let pck : AckPacket := ⟨0,8,seqNum⟩
  { pck with cksum := calculateChecksumAck pck }

theorem copyBytes_padded (src : List UInt8) (n i : Nat) (h : i < pckDataSize) (hn : n ≤ i) :
    (copyBytes src n)[i] = 0 := by
  simp [copyBytes,hn]

theorem take_copyBytes {src : List UInt8} {n k : Nat} (hk : k ≤ n) (hn : n ≤ 512)
    (hsrc : n ≤ src.length) : (copyBytes src n).toList.take k = src.take k := by
  apply List.ext_getElem
  · rw [List.length_take,List.length_take,Vector.length_toList]
    simp only [pckDataSize]
    omega
  · intro i hi hi'
    rw [List.length_take] at hi'
    have hlt : i < n := by omega
    have hin : i < src.length := by omega
    simp [copyBytes,hlt,hin]

def PacketCoreData.ofBytes (bytes : List UInt8) (h : bytes.length ≤ pckDataSize) :
    PacketCoreData :=
  have hsize : (UInt16.ofNat bytes.length).toNat = bytes.length :=
    Nat.mod_eq_of_lt (by simp only [pckDataSize] at h; omega)
  { size := UInt16.ofNat bytes.length
    data := copyBytes bytes bytes.length
    size_le := by rw [hsize]; exact h
    padded := fun i hi hle => copyBytes_padded _ _ i hi (by rwa [hsize] at hle) }

def PacketCoreData.bytes (coreData : PacketCoreData) : List UInt8 :=
  coreData.data.toList.take coreData.size.toNat

theorem PacketCoreData.ofBytes_size (bytes : List UInt8) (h : bytes.length ≤ pckDataSize) :
    (ofBytes bytes h).size.toNat = bytes.length :=
  Nat.mod_eq_of_lt (by simp only [pckDataSize] at h; omega)

theorem PacketCoreData.ofBytes_bytes (bytes : List UInt8) (h : bytes.length ≤ pckDataSize) :
    (ofBytes bytes h).bytes = bytes := by
  rw [PacketCoreData.bytes,ofBytes_size]
  exact (take_copyBytes le_rfl h le_rfl).trans List.take_length

/-- `extract_pure_data`; `none` when `len - PCK_HEADER_SIZE` is negative or reaches past the
body, so that the copy leaves one of the two buffers. -/
def extractPureData (pack : Packet) : Option PacketCoreData :=
  if h : 8 ≤ pack.len.toNat ∧ pack.len.toNat ≤ 520 then
    have hsize : (pack.len - 8).toNat = pack.len.toNat - 8 :=
      UInt16.toNat_sub_of_le _ _ (UInt16.le_iff_toNat_le.mpr h.1)
    some
      { size := pack.len - 8
        data := copyBytes pack.data.toList (pack.len - 8).toNat
        size_le := by simp only [pckDataSize]; omega
        padded := copyBytes_padded _ _ }
  else none

/-- The length of the copy, `len - PCK_HEADER_SIZE`, lies in 0..512. -/
def Packet.LenFits (pck : Packet) : Prop := 8 ≤ pck.len.toNat ∧ pck.len.toNat ≤ 520

instance (pck : Packet) : Decidable pck.LenFits := inferInstanceAs (Decidable (_ ∧ _))

theorem extractPureData_isSome (pck : Packet) :
    (extractPureData pck).isSome = true ↔ pck.LenFits := by
  rw [extractPureData]
  split
  · next h => exact ⟨fun _ => h,fun _ => rfl⟩
  · next h => exact ⟨fun hsome => absurd hsome (by simp),fun hfits => absurd hfits h⟩

@[simp] theorem verifyChecksum_sealPacket (order : ByteOrder) (size : UInt16) (seqNum : UInt32)
    (body : Vector UInt8 pckDataSize) :
    verifyChecksum order (sealPacket order size seqNum body) = true := by
  simp [verifyChecksum,sealPacket,calculateChecksum]

@[simp] theorem verifyChecksum_createDataPacketCore (order : ByteOrder)
    (coreData : PacketCoreData) (seqNum : UInt32) :
    verifyChecksum order (createDataPacketCore order coreData seqNum) = true :=
  verifyChecksum_sealPacket _ _ _ _

@[simp] theorem createDataPacketCore_seqno (order : ByteOrder) (coreData : PacketCoreData)
    (seqNum : UInt32) : (createDataPacketCore order coreData seqNum).seqno = seqNum := rfl

@[simp] theorem createDataPacketCore_len (order : ByteOrder) (coreData : PacketCoreData)
    (seqNum : UInt32) : (createDataPacketCore order coreData seqNum).len = 8 + coreData.size := rfl

@[simp] theorem verifyChecksumAck_createAckPacket (seqNum : UInt32) :
    verifyChecksumAck (createAckPacket seqNum) = true := by
  simp [verifyChecksumAck,createAckPacket,calculateChecksumAck]

@[simp] theorem createAckPacket_ackno (seqNum : UInt32) :
    (createAckPacket seqNum).ackno = seqNum := rfl

theorem PacketCoreData.ext' {a b : PacketCoreData} (hs : a.size = b.size)
    (hd : a.data = b.data) : a = b := by
  cases a
  cases b
  simp_all

theorem PacketCoreData.copyBytes_data (coreData : PacketCoreData) :
    copyBytes coreData.data.toList coreData.size.toNat = coreData.data := by
  ext i hi
  by_cases h : i < coreData.size.toNat
  · simp [copyBytes,h]
  · simp [copyBytes,h,coreData.padded i hi (by omega)]

theorem PacketCoreData.len_toNat (coreData : PacketCoreData) :
    (8 + coreData.size).toNat = 8 + coreData.size.toNat := by
  have h := coreData.size_le
  rw [UInt16.toNat_add]
  exact Nat.mod_eq_of_lt (by simp only [pckDataSize] at h; simp; omega)

/-- The client recovers exactly what the server sealed. -/
theorem extractPureData_createDataPacketCore (order : ByteOrder) (coreData : PacketCoreData)
    (seqNum : UInt32) :
    extractPureData (createDataPacketCore order coreData seqNum) = some coreData := by
  have hlen := coreData.len_toNat
  have hle := coreData.size_le
  have hsize : 8 + coreData.size - 8 = coreData.size := by
    rw [UInt16.add_comm,UInt16.add_sub_cancel]
  simp only [pckDataSize] at hle
  rw [extractPureData,dif_pos (by simp only [createDataPacketCore_len]; omega)]
  simp only [createDataPacketCore_len,Option.some.injEq]
  apply PacketCoreData.ext'
  · exact hsize
  · simp only [hsize]
    change copyBytes (copyBytes _ _).toList _ = _
    rw [coreData.copyBytes_data,coreData.copyBytes_data]

theorem createDataPacket_ofBytes (order : ByteOrder) (payload : List UInt8)
    (h : payload.length ≤ pckDataSize) (seqNum : UInt32) :
    createDataPacket order payload (UInt16.ofNat payload.length) seqNum =
      some (createDataPacketCore order (.ofBytes payload h) seqNum) := by
  have hsize := PacketCoreData.ofBytes_size payload h
  rw [PacketCoreData.ofBytes] at hsize
  rw [createDataPacket,if_pos ⟨hsize.le,hsize.le.trans h⟩,createDataPacketCore,
    PacketCoreData.copyBytes_data,hsize]
  rfl

theorem PacketCoreData.ofBytes_getElem (payload : List UInt8) (h : payload.length ≤ pckDataSize)
    (i : Nat) (hi : i < pckDataSize) : (ofBytes payload h).data[i] = payload.getD i 0 := by
  rw [ofBytes]
  simp only [copyBytes,Vector.getElem_ofFn]
  split
  · rfl
  · next hlt => rw [List.getD_eq_default _ _ (Nat.not_lt.mp hlt)]

theorem createDataPacketCore_len_eq_header (order : ByteOrder) (coreData : PacketCoreData)
    (seqNum : UInt32) :
    (createDataPacketCore order coreData seqNum).len = 8 ↔ coreData.size = 0 := by
  rw [createDataPacketCore_len]
  constructor
  · intro h
    have hn := congrArg UInt16.toNat h
    rw [coreData.len_toNat] at hn
    exact UInt16.toNat_inj.mp (by simpa using hn)
  · intro h
    rw [h]
    rfl

end ReliableTransfer
