import ReliableTransfer.Files.Streams
import ReliableTransfer.Parser.ByteString
import ReliableTransfer.Wire.Packet

/-!
# The data feeder

`DataFeeder` cuts a file into segments of at most 512 bytes and closes the sequence with one
empty segment.
-/

namespace ReliableTransfer

/-- A file on the server's disk: the size `tellg` reports at its end, and the bytes a stream
on it delivers before it fails. -/
structure DiskFile where
  size : Nat
  readable : List UInt8

structure DataFeeder where
  reader : FileReader
  remainSize : Nat
  lastPacket : Bool
deriving DecidableEq

def DataFeeder.new : DataFeeder := ⟨⟨none⟩,0,false⟩

def DataFeeder.readFile (disk : ByteString → Option DiskFile) (feeder : DataFeeder)
    (path : ByteString) : Bool × DataFeeder :=
  match disk path with
  | none => (false,feeder)
  | some file =>
    (true,{ feeder with reader := ⟨some ⟨file.readable,true⟩⟩, remainSize := file.size })

def DataFeeder.hasNext (feeder : DataFeeder) : Bool :=
  decide (feeder.remainSize > 0) || !feeder.lastPacket

def DataFeeder.getNextDataSegment (feeder : DataFeeder) : PacketCoreData × DataFeeder :=
  if hbig : feeder.remainSize > pckDataSize then
    let chunk := feeder.reader.readChunk pckDataSize
    (.ofBytes chunk.1 (feeder.reader.readChunk_length _).le,
      { feeder with reader := chunk.2.2, remainSize := feeder.remainSize - pckDataSize })
  else if feeder.remainSize ≠ 0 then
    let chunk := feeder.reader.readChunk feeder.remainSize
    (.ofBytes chunk.1 ((feeder.reader.readChunk_length _).le.trans (Nat.not_lt.mp hbig)),
      { feeder with reader := chunk.2.2, remainSize := 0 })
  else (.ofBytes List.nil (Nat.zero_le _),{ feeder with lastPacket := true })

/-- How many data segments a file has; the number of the end-of-file marker. -/
def numSegments (file : List UInt8) : Nat := (file.length + 511) / 512

/-- Segment `i`; the one numbered `numSegments file` is empty. -/
def segment (file : List UInt8) (i : Nat) : PacketCoreData :=
  .ofBytes ((file.drop (512 * i)).take 512) (List.length_take_le 512 _)

theorem segment_bytes (file : List UInt8) (i : Nat) :
    (segment file i).bytes = (file.drop (512 * i)).take 512 :=
  PacketCoreData.ofBytes_bytes _ _

theorem segment_size (file : List UInt8) (i : Nat) :
    (segment file i).size.toNat = min 512 (file.length - 512 * i) := by
  rw [segment,PacketCoreData.ofBytes_size,List.length_take,List.length_drop]

theorem segment_size_eq_zero (file : List UInt8) (i : Nat) :
    (segment file i).size = 0 ↔ numSegments file ≤ i := by
  have hzero : (segment file i).size = 0 ↔ (segment file i).size.toNat = 0 :=
    ⟨fun h => by rw [h]; rfl,fun h => UInt16.toNat_inj.mp h⟩
  rw [hzero,segment_size,numSegments]
  omega

theorem take_numSegments (file : List UInt8) : file.take (512 * numSegments file) = file := by
  apply List.take_of_length_le
  rw [numSegments]
  omega

/-- The feeder after `i` segments of a readable file. -/
def feederAt (file : List UInt8) (i : Nat) : DataFeeder where
  reader := ⟨some ⟨file.drop (512 * i),true⟩⟩
  remainSize := file.length - 512 * i
  lastPacket := decide (numSegments file < i)

theorem readFile_feederAt (disk : ByteString → Option DiskFile) (path : ByteString)
    (file : List UInt8) (h : disk path = some ⟨file.length,file⟩) :
    DataFeeder.new.readFile disk path = (true,feederAt file 0) := by
  simp [DataFeeder.readFile,h,DataFeeder.new,feederAt]

theorem hasNext_feederAt (file : List UInt8) (i : Nat) :
    (feederAt file i).hasNext = true ↔ i ≤ numSegments file := by
  rw [DataFeeder.hasNext,Bool.or_eq_true,decide_eq_true_iff]
  change file.length - 512 * i > 0 ∨ (!decide (numSegments file < i)) = true ↔ _
  rw [Bool.not_eq_true',decide_eq_false_iff_not]
  unfold numSegments
  omega

theorem getNextDataSegment_feederAt (file : List UInt8) {i : Nat} (hi : i ≤ numSegments file) :
    (feederAt file i).getNextDataSegment = (segment file i,feederAt file (i + 1)) := by
  have hdrop : (file.drop (512 * i)).length = file.length - 512 * i := List.length_drop
  have hnext : (file.drop (512 * i)).drop 512 = file.drop (512 * (i + 1)) := by
    rw [List.drop_drop,Nat.mul_succ]
  have hnum : numSegments file = (file.length + 511) / 512 := rfl
  rw [DataFeeder.getNextDataSegment]
  by_cases hbig : file.length - 512 * i > 512
  · rw [dif_pos (by exact hbig)]
    have hchunk := FileReader.readChunk_full (file.drop (512 * i)) 512 (by omega)
    have hlast : numSegments file < i ↔ numSegments file < i + 1 := by omega
    simp only [feederAt,pckDataSize,hchunk,hnext,hlast,segment,Nat.mul_succ,Nat.sub_sub]
  · rw [dif_neg (by exact hbig)]
    by_cases hrest : file.length - 512 * i ≠ 0
    · rw [if_pos (by exact hrest)]
      have hchunk := FileReader.readChunk_full (file.drop (512 * i)) (file.length - 512 * i)
        (by omega)
      have hlast : numSegments file < i ↔ numSegments file < i + 1 := by omega
      have htake : (file.drop (512 * i)).take (file.length - 512 * i) =
          (file.drop (512 * i)).take 512 := by
        rw [List.take_of_length_le hdrop.le,List.take_of_length_le (by omega)]
      have hempty : (file.drop (512 * i)).drop (file.length - 512 * i) =
          file.drop (512 * (i + 1)) := by
        rw [List.drop_of_length_le hdrop.le,List.drop_of_length_le (by omega)]
      have hdone : file.length - 512 * (i + 1) = 0 := by omega
      simp only [feederAt,hchunk,htake,hempty,hlast,segment,hdone]
    · rw [if_neg (by exact hrest)]
      have hnil : file.drop (512 * i) = List.nil := List.drop_of_length_le (by omega)
      have hnil' : file.drop (512 * (i + 1)) = List.nil := List.drop_of_length_le (by omega)
      have hlast : numSegments file < i + 1 := by omega
      have hzero : file.length - 512 * i = 0 := by omega
      have hdone : file.length - 512 * (i + 1) = 0 := by omega
      simp only [feederAt,hnil,hnil',hzero,hdone,hlast,segment,List.take_nil,decide_true]

end ReliableTransfer
