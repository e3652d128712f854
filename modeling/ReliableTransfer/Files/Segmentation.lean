import ReliableTransfer.Files.DataFeeder

/-!
# The segments of a file

`while(dataFeeder->hasNext())` takes a file apart without loss: full segments, one that may be
shorter, and one empty segment, which is the last.
-/

namespace ReliableTransfer

theorem flatMap_chunks {α : Type*} (xs : List α) (width count : Nat) :
    ((List.range count).flatMap fun i => (xs.drop (width * i)).take width) =
      xs.take (width * count) := by
  induction count with
  | zero => simp
  | succ count ih =>
    rw [List.range_succ,List.flatMap_append,ih,Nat.mul_succ,List.take_add]
    simp

/-- What the calls of `getNextDataSegment` return while `hasNext` holds, and the feeder after them;
`none` when `fuel` calls are not enough. -/
def DataFeeder.segments : Nat → DataFeeder → Option (List PacketCoreData × DataFeeder)
  | 0,feeder => if feeder.hasNext then none else some (List.nil,feeder)
  | fuel + 1,feeder =>
    if feeder.hasNext then
      (segments fuel feeder.getNextDataSegment.2).map fun (rest,last) =>
        (feeder.getNextDataSegment.1 :: rest,last)
    else some (List.nil,feeder)

def fileSegments (file : List UInt8) : List PacketCoreData :=
  (List.range (numSegments file + 1)).map (segment file)

section Segments

variable (file : List UInt8)

@[simp] theorem fileSegments_length : (fileSegments file).length = numSegments file + 1 := by
  rw [fileSegments,List.length_map,List.length_range]

theorem fileSegments_getElem? {i : Nat} {seg : PacketCoreData} :
    (fileSegments file)[i]? = some seg ↔ i ≤ numSegments file ∧ segment file i = seg := by
  rw [fileSegments,List.getElem?_map,Option.map_eq_some_iff]
  constructor
  · rintro ⟨j,hj,rfl⟩
    obtain ⟨hlt,rfl⟩ := List.getElem?_eq_some_iff.mp hj
    rw [List.length_range] at hlt
    rw [List.getElem_range]
    exact ⟨Nat.le_of_lt_succ hlt,rfl⟩
  · rintro ⟨hle,rfl⟩
    exact ⟨i,List.getElem?_range (Nat.lt_succ_of_le hle),rfl⟩

theorem fileSegments_bytes : (fileSegments file).flatMap PacketCoreData.bytes = file := by
  rw [fileSegments,List.flatMap_map]
  simp only [segment_bytes]
  rw [flatMap_chunks,Nat.mul_succ,List.take_add,take_numSegments]
  rw [List.drop_of_length_le (by rw [numSegments]; omega)]
  simp

theorem segments_feederAt {fuel n i : Nat} (hfuel : n ≤ fuel) (hi : i + n = numSegments file + 1) :
    (feederAt file i).segments fuel =
      some ((List.range' i n).map (segment file),feederAt file (numSegments file + 1)) := by
  induction n generalizing fuel i with
  | zero =>
    have hdone : ¬(feederAt file i).hasNext = true := by
      rw [hasNext_feederAt]
      omega
    obtain rfl : i = numSegments file + 1 := hi
    cases fuel <;> rw [DataFeeder.segments,if_neg hdone] <;> rfl
  | succ n ih =>
    obtain ⟨fuel,rfl⟩ := Nat.exists_eq_add_one.mpr (Nat.zero_lt_of_lt hfuel)
    have hle : i ≤ numSegments file := by omega
    rw [DataFeeder.segments,if_pos ((hasNext_feederAt file i).mpr hle),
      getNextDataSegment_feederAt file hle,ih (Nat.le_of_succ_le_succ hfuel) (by omega)]
    rfl

end Segments

/-- Segments that hold a file and mark its end. -/
structure Segmented (file : List UInt8) (segs : List PacketCoreData) : Prop where
  bytes : segs.flatMap PacketCoreData.bytes = file
  ne_nil : segs ≠ List.nil
  /-- The last one is empty, and no other. -/
  empty : ∀ i seg, segs[i]? = some seg → (seg.size = 0 ↔ i + 1 = segs.length)
  earlier : ∀ i seg, segs[i]? = some seg → i + 1 < segs.length →
    1 ≤ seg.size.toNat ∧ seg.size.toNat ≤ 512
  /-- Of the others only the final one may be shorter. -/
  full : ∀ i seg, segs[i]? = some seg → i + 2 < segs.length → seg.size.toNat = 512
  /-- In the packets built from them, `len` is the size of the header at the end and nowhere
  else. -/
  len : ∀ order seqNum i seg, segs[i]? = some seg →
    ((createDataPacketCore order seg seqNum).len = 8 ↔ i + 1 = segs.length)

theorem fileSegments_segmented (file : List UInt8) : Segmented file (fileSegments file) := by
  have hempty : ∀ i seg, (fileSegments file)[i]? = some seg →
      (seg.size = 0 ↔ i + 1 = (fileSegments file).length) := by
    intro i seg hseg
    obtain ⟨hi,rfl⟩ := (fileSegments_getElem? file).mp hseg
    rw [segment_size_eq_zero,fileSegments_length]
    omega
  refine ⟨fileSegments_bytes file,?_,hempty,fun i seg hseg hlt => ?_,fun i seg hseg hlt => ?_,?_⟩
  · rw [← List.length_pos_iff,fileSegments_length]
    exact Nat.succ_pos _
  · obtain ⟨-,rfl⟩ := (fileSegments_getElem? file).mp hseg
    rw [fileSegments_length,numSegments] at hlt
    rw [segment_size]
    omega
  · obtain ⟨-,rfl⟩ := (fileSegments_getElem? file).mp hseg
    rw [fileSegments_length,numSegments] at hlt
    rw [segment_size]
    omega
  · intro order seqNum i seg hseg
    rw [createDataPacketCore_len_eq_header]
    exact hempty i seg hseg

/-- A readable file is taken apart without loss, and the loop ends. -/
theorem segmentation_lossless (disk : ByteString → Option DiskFile) (path : ByteString)
    (file : List UInt8) (h : disk path = some ⟨file.length,file⟩) :
    ∃ feeder segs last, DataFeeder.new.readFile disk path = (true,feeder) ∧
      Segmented file segs ∧ ∀ fuel, segs.length ≤ fuel → feeder.segments fuel = some (segs,last) := by
  refine ⟨feederAt file 0,fileSegments file,feederAt file (numSegments file + 1),
    readFile_feederAt disk path file h,fileSegments_segmented file,fun fuel hfuel => ?_⟩
  rw [fileSegments_length] at hfuel
  rw [segments_feederAt file hfuel (Nat.zero_add _),← List.range_eq_range']
  rfl

theorem segmentation_lossless_full : ∃ feeder segs last,
    DataFeeder.new.readFile (fun _ => some ⟨512,.replicate 512 7⟩) List.nil = (true,feeder) ∧
      Segmented (.replicate 512 7) segs ∧
      ∀ fuel, segs.length ≤ fuel → feeder.segments fuel = some (segs,last) :=
  segmentation_lossless _ _ (.replicate 512 7) (by rw [List.length_replicate])

end ReliableTransfer
