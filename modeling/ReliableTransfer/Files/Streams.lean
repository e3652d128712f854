import Mathlib

/-!
# File streams

`FileReader` and `FileWriter`, over streams that may fail: an input stream delivers some bytes
and then only failures, and an output stream takes some bytes and then only refuses.
-/

namespace ReliableTransfer

/-- An open `ifstream`: the bytes it will still deliver, and whether its state is good. -/
structure IfStream where
  avail : List UInt8
  good : Bool
deriving DecidableEq

/-- `none` is the null pointer. -/
structure FileReader where
  ifs : Option IfStream
deriving DecidableEq

/-- `read_chunk`: the `size` bytes it leaves in the buffer, `gcount`, and the reader after. A
read that runs out of bytes sets the failure bit. -/
def FileReader.readChunk (reader : FileReader) (size : Nat) :
    List UInt8 × Nat × FileReader :=
  match reader.ifs with
  | none => (List.replicate size 0,0,reader)
  | some s =>
    if s.good then
      let got := s.avail.take size
      (got ++ List.replicate (size - got.length) 0,got.length,
        ⟨some ⟨s.avail.drop size,decide (size ≤ s.avail.length)⟩⟩)
    else (List.replicate size 0,0,reader)

theorem FileReader.readChunk_length (reader : FileReader) (size : Nat) :
    (reader.readChunk size).1.length = size := by
  unfold readChunk
  split
  · simp
  · split
    · simp only [List.length_append,List.length_replicate,List.length_take]
      omega
    · simp

theorem FileReader.readChunk_full (avail : List UInt8) (size : Nat) (h : size ≤ avail.length) :
    FileReader.readChunk ⟨some ⟨avail,true⟩⟩ size =
      (avail.take size,size,⟨some ⟨avail.drop size,true⟩⟩) := by
  simp [readChunk,h]

/-- An open `ofstream`: what the file has received, its state, and how many more bytes the
device takes (`none` when it takes all). -/
structure OfStream where
  written : List UInt8
  good : Bool
  room : Option Nat
deriving DecidableEq

def OfStream.fresh : OfStream := ⟨List.nil,true,none⟩

/-- `ofs->write`; a write that does not fit sets the bad bit. -/
def OfStream.write (ofs : OfStream) (chunk : List UInt8) : OfStream :=
  match ofs.room with
  | none => { ofs with written := ofs.written ++ chunk }
  | some room =>
    { written := ofs.written ++ chunk.take room
      good := decide (chunk.length ≤ room)
      room := some (room - chunk.length) }

structure FileWriter where
  ofs : Option OfStream
deriving DecidableEq

/-- `write_chunk`; the result of the write itself is not looked at. -/
def FileWriter.writeChunk (writer : FileWriter) (chunk : List UInt8) : Bool × FileWriter :=
  match writer.ofs with
  | none => (false,writer)
  | some ofs => if ofs.good then (true,⟨some (ofs.write chunk)⟩) else (false,writer)

def FileWriter.written (writer : FileWriter) : List UInt8 :=
  (writer.ofs.map OfStream.written).getD List.nil

end ReliableTransfer
