import ReliableTransfer.Files.DataSink

/-!
# Failing streams

`DataFeeder` does not look at what `read_chunk` returns and `DataSink` does not look at what
`write_chunk` returns. A feeder goes on with zeros in place of the bytes its stream does not
deliver, and a sink goes on as if its output file had received everything.
-/

namespace ReliableTransfer

/-- What a feeder hands over of a file. -/
def DiskFile.sent (disk : DiskFile) : List UInt8 :=
  (disk.readable ++ List.replicate disk.size 0).take disk.size

def DiskFile.delivered (disk : DiskFile) (feeder : DataFeeder) : List UInt8 :=
  match feeder.reader.ifs with
  | none => List.nil
  | some s => disk.readable.take (disk.readable.length - s.avail.length)

def feederOn (disk : DiskFile) (i : Nat) : DataFeeder where
  reader := ⟨some ⟨disk.readable.drop (min (512 * i) disk.size),
    decide (min (512 * i) disk.size ≤ disk.readable.length)⟩⟩
  remainSize := disk.size - 512 * i
  lastPacket := decide (numSegments disk.sent < i)

section Reading

variable (disk : DiskFile)

theorem DiskFile.sent_length : disk.sent.length = disk.size := by
  rw [sent,List.length_take,List.length_append,List.length_replicate]
  omega

theorem DiskFile.sent_of_le (h : disk.size ≤ disk.readable.length) :
    disk.sent = disk.readable.take disk.size :=
  List.take_append_of_le_length h

theorem DiskFile.delivered_feederOn (i : Nat) :
    disk.delivered (feederOn disk i) = disk.readable.take (min (512 * i) disk.size) := by
  change disk.readable.take (disk.readable.length -
    (disk.readable.drop (min (512 * i) disk.size)).length) = _
  rw [List.length_drop,List.take_eq_take_iff]
  omega

theorem FileReader.readChunk_at (readable : List UInt8) (pos n : Nat) :
    FileReader.readChunk ⟨some ⟨readable.drop pos,decide (pos ≤ readable.length)⟩⟩ n =
      ((readable.drop pos).take n ++ List.replicate (n - (readable.length - pos)) 0,
        min n (readable.length - pos),
        ⟨some ⟨readable.drop (pos + n),decide (pos + n ≤ readable.length)⟩⟩) := by
  by_cases hpos : pos ≤ readable.length
  · have hgood : decide (n ≤ readable.length - pos) = decide (pos + n ≤ readable.length) :=
      decide_eq_decide.mpr (by omega)
    have hpad : n - min n (readable.length - pos) = n - (readable.length - pos) := by omega
    simp only [readChunk,hpos,decide_true,if_true,List.length_take,List.length_drop,hpad,hgood,
      List.drop_drop]
  · have hpast : ¬pos + n ≤ readable.length := by omega
    have hnil : readable.drop pos = List.nil := List.drop_of_length_le (by omega)
    have hnil' : readable.drop (pos + n) = List.nil := List.drop_of_length_le (by omega)
    have hzero : readable.length - pos = 0 := by omega
    simp [readChunk,hpos,hpast,hnil,hnil',hzero]

theorem DiskFile.sent_chunk {pos n : Nat} (h : pos + n ≤ disk.size) :
    (disk.readable.drop pos).take n ++ List.replicate (n - (disk.readable.length - pos)) 0 =
      (disk.sent.drop pos).take n := by
  apply List.ext_getElem
  · rw [List.length_append,List.length_take,List.length_drop,List.length_replicate,
      List.length_take,List.length_drop,disk.sent_length]
    omega
  · intro k hk hk'
    rw [List.length_take] at hk'
    by_cases hin : pos + k < disk.readable.length
    · rw [List.getElem_append_left (by rw [List.length_take,List.length_drop]; omega)]
      simp [sent,hin]
    · rw [List.getElem_append_right (by rw [List.length_take,List.length_drop]; omega)]
      simp [sent,List.getElem_append_right (Nat.not_lt.mp hin)]

theorem hasNext_feederOn (i : Nat) : (feederOn disk i).hasNext = (feederAt disk.sent i).hasNext := by
  change (decide (disk.size - 512 * i > 0) || _) = (decide (disk.sent.length - 512 * i > 0) || _)
  rw [disk.sent_length]
  rfl

theorem getNextDataSegment_feederOn {i : Nat} (hi : i ≤ numSegments disk.sent) :
    (feederOn disk i).getNextDataSegment = (segment disk.sent i,feederOn disk (i + 1)) := by
  have hnum : numSegments disk.sent = (disk.size + 511) / 512 := by
    rw [numSegments,disk.sent_length]
  have hlen : (disk.sent.drop (512 * i)).length = disk.size - 512 * i := by
    rw [List.length_drop,disk.sent_length]
  rw [DataFeeder.getNextDataSegment]
  by_cases hbig : disk.size - 512 * i > 512
  · rw [dif_pos (by exact hbig)]
    have hpos : min (512 * i) disk.size = 512 * i := by omega
    have hnext : min (512 * (i + 1)) disk.size = 512 * i + 512 := by omega
    have hlast : numSegments disk.sent < i ↔ numSegments disk.sent < i + 1 := by omega
    have hchunk := FileReader.readChunk_at disk.readable (512 * i) 512
    rw [disk.sent_chunk (by omega)] at hchunk
    have hremain : disk.size - 512 * i - 512 = disk.size - 512 * (i + 1) := by omega
    simp only [feederOn,pckDataSize,hpos,hchunk,hnext,hlast,hremain,segment]
  · rw [dif_neg (by exact hbig)]
    by_cases hrest : disk.size - 512 * i ≠ 0
    · rw [if_pos (by exact hrest)]
      have hpos : min (512 * i) disk.size = 512 * i := by omega
      have hnext : min (512 * (i + 1)) disk.size = 512 * i + (disk.size - 512 * i) := by omega
      have hlast : numSegments disk.sent < i ↔ numSegments disk.sent < i + 1 := by omega
      have hchunk := FileReader.readChunk_at disk.readable (512 * i) (disk.size - 512 * i)
      have htake : (disk.sent.drop (512 * i)).take (disk.size - 512 * i) =
          (disk.sent.drop (512 * i)).take 512 := by
        rw [List.take_of_length_le hlen.le,List.take_of_length_le (by omega)]
      rw [disk.sent_chunk (by omega),htake] at hchunk
      have hdone : disk.size - 512 * (i + 1) = 0 := by omega
      simp only [feederOn,hpos,hchunk,hnext,hlast,hdone,segment]
    · rw [if_neg (by exact hrest)]
      have hpos : min (512 * i) disk.size = disk.size := by omega
      have hnext : min (512 * (i + 1)) disk.size = disk.size := by omega
      have hnil : disk.sent.drop (512 * i) = List.nil := List.length_eq_zero_iff.mp (by omega)
      have hlast : numSegments disk.sent < i + 1 := by omega
      have hzero : disk.size - 512 * i = 0 := by omega
      have hdone : disk.size - 512 * (i + 1) = 0 := by omega
      simp only [feederOn,hpos,hnext,hzero,hdone,hlast,segment,hnil,List.take_nil,decide_true]

end Reading

/-- Two feeders at the same place, one on the file and one on what it hands over of it. -/
def DataFeeder.Supplies (disk : DiskFile) (f g : DataFeeder) : Prop :=
  ∃ i, f = feederOn disk i ∧ g = feederAt disk.sent i

theorem DataFeeder.Supplies.hasNext {disk : DiskFile} {f g : DataFeeder}
    (h : f.Supplies disk g) : f.hasNext = g.hasNext := by
  obtain ⟨i,rfl,rfl⟩ := h
  exact hasNext_feederOn disk i

theorem DataFeeder.Supplies.next {disk : DiskFile} {f g : DataFeeder} (h : f.Supplies disk g)
    (hnext : f.hasNext = true) :
    f.getNextDataSegment.1 = g.getNextDataSegment.1 ∧
      f.getNextDataSegment.2.Supplies disk g.getNextDataSegment.2 := by
  rw [h.hasNext] at hnext
  obtain ⟨i,rfl,rfl⟩ := h
  have hi := (hasNext_feederAt disk.sent i).mp hnext
  rw [getNextDataSegment_feederOn disk hi,getNextDataSegment_feederAt disk.sent hi]
  exact ⟨rfl,i + 1,rfl,rfl⟩

def payload (packet : Packet) : List UInt8 :=
  ((extractPureData packet).map PacketCoreData.bytes).getD List.nil

@[simp] theorem payload_createDataPacketCore (order : ByteOrder) (data : PacketCoreData)
    (seqNum : UInt32) : payload (createDataPacketCore order data seqNum) = data.bytes := by
  rw [payload,extractPureData_createDataPacketCore]
  rfl

def DataSink.fed (sink : DataSink) : List UInt8 := sink.packets.flatMap payload

theorem DataSink.payload_infix {sink : DataSink} {packet : Packet} (h : packet ∈ sink.packets) :
    payload packet <:+: sink.fed := by
  obtain ⟨before,after,hsplit⟩ := List.append_of_mem h
  rw [fed,hsplit,List.flatMap_append,List.flatMap_cons]
  exact ⟨_,_,List.append_assoc _ _ _⟩

/-- The sink after `set_write_file`, with what became of the output file. -/
def DataSink.onto (good : Bool) (room : Option Nat) : DataSink :=
  ⟨⟨some ⟨List.nil,good,room⟩⟩,List.nil⟩

def OfStream.takes (good : Bool) (room : Option Nat) (bytes : List UInt8) : List UInt8 :=
  if good then match room with
    | none => bytes
    | some room => bytes.take room
  else List.nil

def FileWriter.writeAll (writer : FileWriter) (chunks : List (List UInt8)) : FileWriter :=
  chunks.foldl (fun writer chunk => (writer.writeChunk chunk).2) writer

theorem FileWriter.written_writeAll (good : Bool) (room : Option Nat) (before : List UInt8)
    (chunks : List (List UInt8)) :
    (FileWriter.writeAll ⟨some ⟨before,good,room⟩⟩ chunks).written =
      before ++ OfStream.takes good room chunks.flatten := by
  induction chunks generalizing good room before with
  | nil =>
    cases good
    · simp [writeAll,written,OfStream.takes]
    · cases room <;> simp [writeAll,written,OfStream.takes]
  | cons chunk chunks ih =>
    rw [writeAll,List.foldl_cons]
    change (writeAll _ chunks).written = _
    cases good
    · change (writeAll ⟨some ⟨before,false,room⟩⟩ chunks).written = _
      rw [ih]
      rfl
    · cases room with
      | none =>
        change (writeAll ⟨some ⟨before ++ chunk,true,none⟩⟩ chunks).written = _
        rw [ih,List.append_assoc]
        rfl
      | some room =>
        change (writeAll ⟨some ⟨before ++ chunk.take room,decide (chunk.length ≤ room),
          some (room - chunk.length)⟩⟩ chunks).written = _
        rw [ih,List.append_assoc,List.flatten_cons]
        by_cases hfit : chunk.length ≤ room
        · simp [OfStream.takes,hfit,List.take_append,List.take_of_length_le hfit]
        · have hnone : room - chunk.length = 0 := by omega
          simp [OfStream.takes,hfit,List.take_append,hnone]

theorem OfStream.takes_eq_iff (good : Bool) (room : Option Nat) (bytes : List UInt8) :
    takes good room bytes = bytes ↔
      bytes.length = 0 ∨ (good = true ∧ ∀ n, room = some n → bytes.length ≤ n) := by
  cases good
  · simp [takes,eq_comm]
  · cases room with
    | none => simp [takes]
    | some room =>
      simp only [takes,if_true,List.take_eq_self_iff,Option.some.injEq,true_and,forall_eq']
      omega

/-- The output file has received, as far as it could, what the sink was fed. -/
def DataSink.Wrote (good : Bool) (room : Option Nat) (sink : DataSink) : Prop :=
  sink.writer = (onto good room).writer.writeAll (sink.packets.map payload)

theorem DataSink.Wrote.feed {good : Bool} {room : Option Nat} {sink : DataSink}
    (h : sink.Wrote good room) (order : ByteOrder) (data : PacketCoreData) (seqNo : UInt32) :
    (sink.feedNextData order data seqNo).Wrote good room := by
  rw [Wrote] at h ⊢
  simp only [feedNextData,h,List.map_append,List.map_cons,List.map_nil,FileWriter.writeAll,
    List.foldl_append,payload_createDataPacketCore,List.foldl_cons,List.foldl_nil]

theorem DataSink.Wrote.written {good : Bool} {room : Option Nat} {sink : DataSink}
    (h : sink.Wrote good room) : sink.writer.written = OfStream.takes good room sink.fed := by
  rw [h,onto,FileWriter.written_writeAll,List.nil_append,fed,List.flatMap]

structure DataSink.Like (good : Bool) (room : Option Nat) (a b : DataSink) : Prop where
  packets : a.packets = b.packets
  wrote : a.Wrote good room
  fresh : b.Wrote true none

theorem DataSink.Like.feed {good : Bool} {room : Option Nat} {a b : DataSink}
    (h : a.Like good room b) (order : ByteOrder) (data : PacketCoreData) (seqNo : UInt32) :
    (a.feedNextData order data seqNo).Like good room (b.feedNextData order data seqNo) where
  packets := by simp only [feedNextData,h.packets]
  wrote := h.wrote.feed order data seqNo
  fresh := h.fresh.feed order data seqNo

theorem DataSink.like_onto (good : Bool) (room : Option Nat) :
    (onto good room).Like good room .fresh := ⟨rfl,rfl,rfl⟩

theorem DataSink.Like.fed {good : Bool} {room : Option Nat} {a b : DataSink}
    (h : a.Like good room b) : a.fed = b.writer.written := by
  rw [h.fresh.written,DataSink.fed,h.packets]
  rfl

/-- What a transfer owes to its file, whatever the streams do. -/
structure Faithful (disk : DiskFile) (feeder : DataFeeder) (sink : DataSink)
    (data : Multiset Packet) (acks : Multiset AckPacket) (returned : Bool) : Prop where
  /-- No bytes are on the wire as file data that were not read. -/
  sent : ∀ d ∈ data, payload d <:+: disk.delivered feeder
  /-- What counts as delivered has been written. -/
  written : sink.writer.written = sink.fed
  /-- No segment is acknowledged that the sink was given and has not written. -/
  acked : ∀ a ∈ acks, ∀ d ∈ sink.packets, d.seqno = a.ackno →
    payload d <:+: sink.writer.written
  /-- A client that has returned has written what was read. -/
  complete : returned = true → sink.writer.written = disk.delivered feeder

/-- The stream on the file delivers all of it, and the one on the output file takes all of it. -/
def StreamsSuffice (disk : DiskFile) (good : Bool) (room : Option Nat) : Prop :=
  disk.size ≤ disk.readable.length ∧
    (disk.size = 0 ∨ (good = true ∧ ∀ n, room = some n → disk.size ≤ n))

structure Delivering (order : ByteOrder) (file : List UInt8) (feeder : DataFeeder)
    (sink : DataSink) (data : Multiset Packet) (returned : Bool) : Prop where
  sent : ∀ d ∈ data, payload d <:+: file.take (file.length - feeder.remainSize)
  fed : ∃ n, sink.Fed order file n
  complete : returned = true → sink.Fed order file (numSegments file) ∧ feeder.remainSize = 0

section Faithful

variable {order : ByteOrder} {disk : DiskFile} {good : Bool} {room : Option Nat}
  {f g : DataFeeder} {a b : DataSink} {data : Multiset Packet} {returned : Bool}

theorem DataSink.Fed.written {file : List UInt8} {n : Nat} {sink : DataSink}
    (h : sink.Fed order file n) : sink.writer.written = file.take (512 * n) := by
  rw [h.writer]
  rfl

theorem DataFeeder.Supplies.delivered (h : f.Supplies disk g)
    (hread : disk.size ≤ disk.readable.length) :
    disk.delivered f = disk.sent.take (disk.sent.length - g.remainSize) := by
  obtain ⟨i,rfl,rfl⟩ := h
  have hremain : (feederAt disk.sent i).remainSize = disk.size - 512 * i := by
    rw [← disk.sent_length]
    rfl
  rw [disk.delivered_feederOn,hremain,disk.sent_length,disk.sent_of_le hread,List.take_take]
  congr 1
  omega

theorem DataFeeder.Supplies.delivered_length (h : f.Supplies disk g) :
    (disk.delivered f).length ≤ disk.readable.length := by
  obtain ⟨i,rfl,-⟩ := h
  rw [disk.delivered_feederOn]
  exact List.length_take_le' _ _

/-- On streams that suffice the transfer is faithful. -/
theorem Delivering.faithful (h : Delivering order disk.sent g b data returned)
    (hfeeder : f.Supplies disk g) (hsink : a.Like good room b)
    (hsuffice : StreamsSuffice disk good room) (acks : Multiset AckPacket) :
    Faithful disk f a data acks returned := by
  obtain ⟨hread,hroom⟩ := hsuffice
  have hdelivered := hfeeder.delivered hread
  have hwritten : a.writer.written = a.fed := by
    rw [hsink.wrote.written,OfStream.takes_eq_iff]
    obtain ⟨n,hfed⟩ := h.fed
    have hlen : a.fed.length ≤ disk.size := by
      rw [hsink.fed,hfed.written,← disk.sent_length]
      exact List.length_take_le' _ _
    rcases hroom with hzero | ⟨hgood,hroom⟩
    · exact Or.inl (by omega)
    · exact Or.inr ⟨hgood,fun n hn => hlen.trans (hroom n hn)⟩
  refine ⟨fun d hd => ?_,hwritten,fun _ _ d hd _ => ?_,fun hret => ?_⟩
  · rw [hdelivered]
    exact h.sent d hd
  · rw [hwritten]
    exact DataSink.payload_infix hd
  · obtain ⟨hfed,hdone⟩ := h.complete hret
    rw [hwritten,hsink.fed,hfed.written,take_numSegments,hdelivered,hdone,Nat.sub_zero,
      List.take_length]

theorem Delivering.suffice (h : Delivering order disk.sent g b data returned)
    (hfeeder : f.Supplies disk g) (hsink : a.Like good room b) (hret : returned = true)
    {acks : Multiset AckPacket} (hfaithful : Faithful disk f a data acks returned) :
    StreamsSuffice disk good room := by
  have hwritten := hfaithful.written
  have hlen : a.fed.length = disk.size := by
    rw [hsink.fed,(h.complete hret).1.written,take_numSegments,disk.sent_length]
  constructor
  · have hcomplete := hfaithful.complete hret
    rw [hwritten] at hcomplete
    rw [← hlen,hcomplete]
    exact hfeeder.delivered_length
  · rw [hsink.wrote.written,OfStream.takes_eq_iff,hlen] at hwritten
    exact hwritten

end Faithful

end ReliableTransfer
