import ReliableTransfer.Files.DataFeeder

/-!
# The data sink

`DataSink` writes every chunk it is fed to the output file and keeps it, sealed under its
number, in memory.
-/

namespace ReliableTransfer

structure DataSink where
  writer : FileWriter
  packets : List Packet
deriving DecidableEq

/-- The sink after `set_write_file` opened the output file on a device that takes all bytes. -/
def DataSink.fresh : DataSink := ⟨⟨some .fresh⟩,List.nil⟩

def DataSink.feedNextData (order : ByteOrder) (sink : DataSink) (data : PacketCoreData)
    (seqNo : UInt32) : DataSink where
  writer := (sink.writer.writeChunk data.bytes).2
  packets := sink.packets ++ [createDataPacketCore order data seqNo]

/-- The packet a server builds for segment `i` of `file`. -/
def filePacket (order : ByteOrder) (file : List UInt8) (i : UInt32) : Packet :=
  createDataPacketCore order (segment file i.toNat) i

@[simp] theorem filePacket_seqno (order : ByteOrder) (file : List UInt8) (i : UInt32) :
    (filePacket order file i).seqno = i := rfl

@[simp] theorem verifyChecksum_filePacket (order : ByteOrder) (file : List UInt8) (i : UInt32) :
    verifyChecksum order (filePacket order file i) = true :=
  verifyChecksum_createDataPacketCore _ _ _

theorem extractPureData_filePacket (order : ByteOrder) (file : List UInt8) (i : UInt32) :
    extractPureData (filePacket order file i) = some (segment file i.toNat) :=
  extractPureData_createDataPacketCore _ _ _

/-- The end-of-file marker is the packet numbered `numSegments file`, and nothing before it. -/
theorem filePacket_len (order : ByteOrder) (file : List UInt8) (i : UInt32) :
    (filePacket order file i).len = 8 ↔ numSegments file ≤ i.toNat :=
  (createDataPacketCore_len_eq_header _ _ _).trans (segment_size_eq_zero _ _)

/-- The packets numbered from `lo` to `hi - 1`, in order. -/
def filePackets (order : ByteOrder) (file : List UInt8) (lo hi : Nat) : List Packet :=
  (List.range' lo (hi - lo)).map fun i => filePacket order file (UInt32.ofNat i)

section FilePackets

variable (order : ByteOrder) (file : List UInt8)

@[simp] theorem filePackets_self (n : Nat) : filePackets order file n n = List.nil := by
  simp [filePackets]

theorem filePackets_length (lo hi : Nat) : (filePackets order file lo hi).length = hi - lo := by
  simp [filePackets]

theorem filePackets_cons {lo hi : Nat} (h : lo < hi) :
    filePackets order file lo hi =
      filePacket order file (UInt32.ofNat lo) :: filePackets order file (lo + 1) hi := by
  have hlen : hi - lo = hi - (lo + 1) + 1 := by omega
  rw [filePackets,hlen,List.range'_succ]
  rfl

theorem filePackets_snoc {lo hi : Nat} (h : lo ≤ hi) :
    filePackets order file lo (hi + 1) =
      filePackets order file lo hi ++ [filePacket order file (UInt32.ofNat hi)] := by
  have hlen : hi + 1 - lo = hi - lo + 1 := by omega
  have hlast : lo + 1 * (hi - lo) = hi := by omega
  rw [filePackets,hlen,List.range'_concat,List.map_append,hlast]
  rfl

theorem mem_filePackets {order : ByteOrder} {file : List UInt8} {lo hi : Nat} {d : Packet} :
    d ∈ filePackets order file lo hi ↔
      ∃ i, lo ≤ i ∧ i < hi ∧ d = filePacket order file (UInt32.ofNat i) := by
  simp only [filePackets,List.mem_map,List.mem_range'_1]
  constructor
  · rintro ⟨i,⟨hlo,hhi⟩,rfl⟩
    exact ⟨i,hlo,by omega,rfl⟩
  · rintro ⟨i,hlo,hhi,rfl⟩
    exact ⟨i,⟨hlo,by omega⟩,rfl⟩

end FilePackets

/-- The sink was fed exactly the first `n` segments of `file`, each once and in order, and the
output file holds exactly their bytes. -/
structure DataSink.Fed (order : ByteOrder) (file : List UInt8) (n : Nat) (sink : DataSink) :
    Prop where
  packets : sink.packets = filePackets order file 0 n
  writer : sink.writer = ⟨some ⟨file.take (512 * n),true,none⟩⟩

theorem DataSink.fed_fresh (order : ByteOrder) (file : List UInt8) :
    DataSink.fresh.Fed order file 0 :=
  ⟨(filePackets_self _ _ 0).symm,by simp [fresh,OfStream.fresh]⟩

theorem DataSink.Fed.feed {order : ByteOrder} {file : List UInt8} {n : Nat} {sink : DataSink}
    (h : sink.Fed order file n) (i : UInt32) (hi : i.toNat = n) :
    (sink.feedNextData order (segment file n) i).Fed order file (n + 1) := by
  have hnum : UInt32.ofNat n = i := by rw [← hi,UInt32.ofNat_toNat]
  constructor
  · rw [filePackets_snoc _ _ (Nat.zero_le n),hnum,filePacket,hi]
    simp only [feedNextData,h.packets]
  · simp only [feedNextData,h.writer,FileWriter.writeChunk,OfStream.write,if_true,segment_bytes]
    rw [Nat.mul_succ,List.take_add]

theorem DataSink.Fed.segment_next {order : ByteOrder} {file : List UInt8} {n : Nat}
    {sink : DataSink} (h : sink.Fed order file (min n (numSegments file))) (i : UInt32)
    (hi : i.toNat = n) (hlt : n < numSegments file) :
    (sink.feedNextData order (segment file n) i).Fed order file (min (n + 1) (numSegments file)) := by
  rw [Nat.min_eq_left hlt]
  rw [Nat.min_eq_left hlt.le] at h
  exact h.feed i hi

theorem DataSink.Fed.marker_next {order : ByteOrder} {file : List UInt8} {n : Nat}
    {sink : DataSink} (h : sink.Fed order file (min n (numSegments file)))
    (hge : numSegments file ≤ n) : sink.Fed order file (min (n + 1) (numSegments file)) := by
  rw [Nat.min_eq_right (Nat.le_succ_of_le hge)]
  rwa [Nat.min_eq_right hge] at h

theorem DataSink.Fed.complete {order : ByteOrder} {file : List UInt8} {sink : DataSink}
    (h : sink.Fed order file (numSegments file)) : sink.writer.written = file := by
  simp [FileWriter.written,h.writer,take_numSegments]

end ReliableTransfer
