import ReliableTransfer.Files.Failures
import ReliableTransfer.Framework.CountedLoop

/-!
# Messages and their packets

`breakAppMessage` cuts a message into packets and `assembleAppMessage` puts packets together.
Memory that nothing has written is a parameter: the structs on the stack that become packets, and
the block that becomes the buffer.
-/

namespace ReliableTransfer

open Framework

/-- An `app_data`, whose buffer has as many bytes as `lenData` says. -/
@[ext] structure AppData where
  data : List UInt8
  lenData : UInt64
  length_data : data.length = lenData.toNat
deriving DecidableEq

/-- What `breakAppMessage` does with the struct of one packet. Only `data` is cleared first. -/
def fillPacket (pack : Packet) (bytes : List UInt8) (minSize : Nat) : Packet :=
  { pack with data := copyBytes bytes minSize, len := pack.len + UInt16.ofNat minSize }

/-- The loop of `breakAppMessage`; struct `i` is what the `i`-th uninitialised packet holds. `rem`
and `sent` stay below the 32 bits they begin with. -/
def breakLoop (structs : Nat → Packet) (data : List UInt8) (rem sent i : Nat) : List Packet :=
  if 0 < rem then
    let minSize := min pckDataSize rem
    fillPacket (structs i) (data.drop sent) minSize ::
      breakLoop structs data (rem - minSize) (sent + minSize) (i + 1)
  else List.nil
termination_by rem
decreasing_by simp only [pckDataSize]; omega

/-- `lenData` is cut to 32 bits. -/
def breakAppMessage (structs : Nat → Packet) (message : AppData) : List Packet :=
  breakLoop structs message.data (message.lenData.toNat % 2^32) 0 0

/-- The buffer of `assembleAppMessage`, `len` bytes of which the first have been copied. -/
@[ext] structure Assembly (len : UInt32) where
  copied : List UInt8
  length_le : copied.length ≤ len.toNat

def Assembly.start (len : UInt32) : Assembly len := ⟨List.nil,Nat.zero_le _⟩

/-- One `memcpy`; `none` where it leaves the packet or the buffer. -/
def Assembly.copy {len : UInt32} (a : Assembly len) (pck : Packet) : Option (Assembly len) :=
  if h : pck.LenFits ∧ a.copied.length + (pck.len.toNat - 8) ≤ len.toNat then
    some
      { copied := a.copied ++ pck.data.toList.take (pck.len.toNat - 8)
        length_le := by
          rw [List.length_append]
          exact (Nat.add_le_add_left (List.length_take_le _ _) _).trans h.2 }
  else none

/-- The result, whose last bytes are those of the block where nothing was copied. -/
def Assembly.appData {len : UInt32} (block : Nat → UInt8) (a : Assembly len) : AppData where
  data := a.copied ++ (List.range' a.copied.length (len.toNat - a.copied.length)).map block
  lenData := len.toUInt64
  length_data := by
    have hle := a.length_le
    rw [List.length_append,List.length_map,List.length_range',UInt32.toNat_toUInt64]
    omega

/-- `len += (pckts[i]->len - PCK_HEADER_SIZE)`. -/
def addLen (len : UInt32) (pck : Packet) : UInt32 := len + (pck.len.toUInt32 - 8)

def assembleAppMessage (block : Nat → UInt8) (fuel : Nat) (pckts : List Packet) :
    LoopResult AppData :=
  (countedLoop (fun len pck => some (addLen len pck)) pckts fuel (0 : BitVec 32) 0).bind fun len =>
  (countedLoop Assembly.copy pckts fuel (0 : BitVec 32) (.start len)).bind fun a =>
  .done (a.appData block)

/-- `get_buff`, which collects pointers to the packets first. -/
def DataSink.getBuff (block : Nat → UInt8) (fuel : Nat) (sink : DataSink) : LoopResult AppData :=
  (countedLoop (fun pckts pck => some (pckts ++ [pck])) sink.packets fuel (0 : BitVec 32)
    List.nil).bind (assembleAppMessage block fuel)

theorem payload_of_fits {pck : Packet} (h : pck.LenFits) :
    payload pck = pck.data.toList.take (pck.len.toNat - 8) := by
  have hsize : (pck.len - 8).toNat = pck.len.toNat - 8 :=
    UInt16.toNat_sub_of_le _ _ (UInt16.le_iff_toNat_le.mpr h.1)
  have hle : pck.len.toNat - 8 ≤ pckDataSize := by
    have hlen := h.2
    simp only [pckDataSize]
    omega
  rw [payload,extractPureData,dif_pos ⟨h.1,h.2⟩]
  change ((copyBytes pck.data.toList (pck.len - 8).toNat).toList.take (pck.len - 8).toNat) = _
  rw [hsize]
  exact take_copyBytes le_rfl hle (by simpa using hle)

theorem length_payload {pck : Packet} (h : pck.LenFits) :
    (payload pck).length = pck.len.toNat - 8 := by
  have hlen := h.2
  rw [payload_of_fits h,List.length_take,Vector.length_toList]
  simp only [pckDataSize]
  omega

theorem Assembly.copy_eq_some {len : UInt32} {a b : Assembly len} {pck : Packet} :
    a.copy pck = some b ↔ pck.LenFits ∧ b.copied = a.copied ++ payload pck := by
  rw [copy]
  constructor
  · intro h
    split at h
    · next hfits =>
      obtain rfl := Option.some.inj h
      exact ⟨hfits.1,by rw [payload_of_fits hfits.1]⟩
    · contradiction
  · rintro ⟨hfits,hcopied⟩
    have hroom := b.length_le
    rw [hcopied,List.length_append,length_payload hfits] at hroom
    rw [dif_pos ⟨hfits,hroom⟩,Option.some.injEq]
    ext1
    rw [hcopied,payload_of_fits hfits]

theorem Assembly.foldlM_copy {len : UInt32} {a b : Assembly len} {pckts : List Packet} :
    pckts.foldlM Assembly.copy a = some b ↔
      (∀ pck ∈ pckts, pck.LenFits) ∧ b.copied = a.copied ++ pckts.flatMap payload := by
  induction pckts generalizing a with
  | nil =>
    rw [List.foldlM_nil]
    simp [Assembly.ext_iff,eq_comm]
  | cons pck pckts ih =>
    rw [List.foldlM_cons,Option.bind_eq_bind,Option.bind_eq_some_iff]
    simp only [copy_eq_some,ih,List.forall_mem_cons,List.flatMap_cons]
    constructor
    · rintro ⟨c,⟨hfits,hc⟩,hrest,hb⟩
      exact ⟨⟨hfits,hrest⟩,by rw [hb,hc,List.append_assoc]⟩
    · rintro ⟨⟨hfits,hrest⟩,hb⟩
      rw [← List.append_assoc] at hb
      have hroom := b.length_le
      rw [hb,List.length_append] at hroom
      exact ⟨⟨a.copied ++ payload pck,by omega⟩,⟨hfits,rfl⟩,hrest,hb⟩

theorem Assembly.appData_full {len : UInt32} (a : Assembly len) (block : Nat → UInt8)
    (h : a.copied.length = len.toNat) : (a.appData block).data = a.copied := by
  change a.copied ++ (List.range' a.copied.length (len.toNat - a.copied.length)).map block = _
  rw [h,Nat.sub_self,List.range'_zero,List.map_nil,List.append_nil]

theorem foldl_addLen_toNat {pckts : List Packet} (h : ∀ pck ∈ pckts, pck.LenFits) (len : UInt32) :
    (pckts.foldl addLen len).toNat =
      (len.toNat + (pckts.flatMap payload).length) % 2^32 := by
  induction pckts generalizing len with
  | nil => simp [Nat.mod_eq_of_lt len.toNat_lt]
  | cons pck pckts ih =>
    obtain ⟨hfits,hrest⟩ := List.forall_mem_cons.mp h
    have hsub : (pck.len.toUInt32 - 8).toNat = pck.len.toNat - 8 := by
      have hle : (8 : UInt32) ≤ pck.len.toUInt32 := by
        rw [UInt32.le_iff_toNat_le,UInt16.toNat_toUInt32]
        exact hfits.1
      rw [UInt32.toNat_sub_of_le _ _ hle,UInt16.toNat_toUInt32]
      rfl
    rw [List.foldl_cons,ih hrest,addLen,UInt32.toNat_add,hsub,List.flatMap_cons,
      List.length_append,length_payload hfits]
    omega

theorem assembleAppMessage_eq_done {block : Nat → UInt8} {fuel : Nat} {pckts : List Packet}
    {message : AppData} :
    assembleAppMessage block fuel pckts = .done message ↔
      (pckts.length < 2^32 ∧ pckts.length < fuel) ∧ (∀ pck ∈ pckts, pck.LenFits) ∧
        (pckts.flatMap payload).length < 2^32 ∧ message.data = pckts.flatMap payload := by
  have hsum : pckts.foldlM (fun len pck => some (addLen len pck)) 0 =
      some (pckts.foldl addLen 0) := List.foldlM_pure (m := Option)
  rw [assembleAppMessage,LoopResult.bind_eq_done]
  simp only [LoopResult.bind_eq_done,countedLoop_eq_done,hsum,Assembly.foldlM_copy,
    LoopResult.done.injEq,Option.some.injEq,Assembly.start,List.nil_append]
  constructor
  · rintro ⟨len,⟨hcount,hfuel,rfl⟩,a,⟨-,-,hfits,hcopied⟩,rfl⟩
    have htotal := foldl_addLen_toNat hfits 0
    have hroom := a.length_le
    rw [hcopied] at hroom
    rw [UInt32.toNat_zero,Nat.zero_add] at htotal
    refine ⟨⟨hcount,hfuel⟩,hfits,by omega,?_⟩
    rw [a.appData_full block (by rw [hcopied]; omega),hcopied]
  · rintro ⟨⟨hcount,hfuel⟩,hfits,hlt,hdata⟩
    have htotal := foldl_addLen_toNat hfits 0
    rw [UInt32.toNat_zero,Nat.zero_add,Nat.mod_eq_of_lt hlt] at htotal
    have hlen := message.length_data
    rw [hdata] at hlen
    refine ⟨_,⟨hcount,hfuel,rfl⟩,⟨pckts.flatMap payload,htotal.ge⟩,⟨hcount,hfuel,hfits,rfl⟩,?_⟩
    ext1
    · rw [Assembly.appData_full _ _ htotal.symm,hdata]
    · apply UInt64.toNat_inj.mp
      rw [Assembly.appData,UInt32.toNat_toUInt64,htotal,hlen]

theorem breakLoop_zero (structs : Nat → Packet) (data : List UInt8) (sent i : Nat) :
    breakLoop structs data 0 sent i = List.nil := by
  rw [breakLoop,if_neg (Nat.lt_irrefl 0)]

theorem breakLoop_pos (structs : Nat → Packet) (data : List UInt8) {rem m : Nat} (h : 0 < rem)
    (hm : m = min 512 rem) (sent i : Nat) :
    breakLoop structs data rem sent i = fillPacket (structs i) (data.drop sent) m ::
      breakLoop structs data (rem - m) (sent + m) (i + 1) := by
  rw [breakLoop,if_pos h,hm]

section Fill

variable {pack : Packet} {bytes : List UInt8} {n : Nat}

theorem fillPacket_len_toNat (hn : n ≤ 512) :
    (fillPacket pack bytes n).len.toNat = (pack.len.toNat + n) % 2^16 := by
  rw [fillPacket,UInt16.toNat_add,UInt16.toNat_ofNat_of_lt' (by simp only [UInt16.size]; omega)]

theorem fillPacket_len_iff (pack : Packet) (bytes : List UInt8) (hn : n ≤ 512) :
    (fillPacket pack bytes n).len.toNat = 8 + n ↔ pack.len = 8 := by
  have hlt := pack.len.toNat_lt
  rw [fillPacket_len_toNat hn,← UInt16.toNat_inj]
  change _ ↔ pack.len.toNat = 8
  omega

theorem payload_fillPacket (hn : n ≤ 512) (hbytes : n ≤ bytes.length) (h : pack.len = 8) :
    (fillPacket pack bytes n).LenFits ∧ payload (fillPacket pack bytes n) = bytes.take n := by
  have hlen := (fillPacket_len_iff pack bytes hn).mpr h
  have hfits : (fillPacket pack bytes n).LenFits := ⟨by omega,by omega⟩
  have hsize : (fillPacket pack bytes n).len.toNat - 8 = n := by omega
  refine ⟨hfits,?_⟩
  rw [payload_of_fits hfits,hsize]
  exact take_copyBytes le_rfl hn hbytes

theorem length_payload_fillPacket (h : (fillPacket pack bytes n).LenFits)
    (hzero : 0 ∉ payload (fillPacket pack bytes n)) :
    (payload (fillPacket pack bytes n)).length ≤ n := by
  by_contra hlt
  have hlen := length_payload h
  have hfits := h.2
  have hpad : n < pckDataSize := by
    simp only [pckDataSize]
    omega
  apply hzero
  rw [payload_of_fits h,List.mem_iff_getElem]
  refine ⟨n,?_,?_⟩
  · rw [List.length_take,Vector.length_toList]
    omega
  · rw [List.getElem_take,Vector.getElem_toList]
    exact copyBytes_padded bytes n n hpad le_rfl

end Fill

section Break

variable {structs : Nat → Packet} {data : List UInt8}

theorem length_breakLoop (rem sent i : Nat) :
    (breakLoop structs data rem sent i).length = (rem + 511) / 512 := by
  induction rem using Nat.strong_induction_on generalizing sent i with
  | _ rem ih =>
    obtain rfl | hpos := Nat.eq_zero_or_pos rem
    · rw [breakLoop_zero]
      rfl
    · rw [breakLoop_pos _ _ hpos rfl,List.length_cons,ih _ (by omega)]
      omega

/-- Structs whose `len` happens to be the size of the header lose nothing. -/
theorem breakLoop_lossless {rem sent i : Nat} (hrem : sent + rem ≤ data.length)
    (h : ∀ j, i ≤ j → j < i + (rem + 511) / 512 → (structs j).len = 8) :
    (∀ pck ∈ breakLoop structs data rem sent i, pck.LenFits) ∧
      (breakLoop structs data rem sent i).flatMap payload = (data.drop sent).take rem := by
  induction rem using Nat.strong_induction_on generalizing sent i with
  | _ rem ih =>
    obtain rfl | hpos := Nat.eq_zero_or_pos rem
    · rw [breakLoop_zero]
      simp
    · obtain ⟨m,hm⟩ : ∃ m, m = min 512 rem := ⟨_,rfl⟩
      have hbytes : m ≤ (data.drop sent).length := by
        rw [List.length_drop]
        omega
      have hnext : sent + m + (rem - m) ≤ data.length := by omega
      obtain ⟨hfits,hpayload⟩ := payload_fillPacket (by omega) hbytes (h i le_rfl (by omega))
      obtain ⟨hrestFits,hrest⟩ := ih (rem - m) (by omega) hnext
        fun j (hij : i + 1 ≤ j) hj => h j (by omega) (by omega)
      have hsplit : rem = m + (rem - m) := by omega
      rw [breakLoop_pos _ _ hpos hm,List.forall_mem_cons,List.flatMap_cons,hrest,hpayload]
      refine ⟨⟨hfits,hrestFits⟩,?_⟩
      conv_rhs => rw [hsplit,List.take_add,List.drop_drop]

theorem breakLoop_exact {rem sent i : Nat}
    (hfits : ∀ pck ∈ breakLoop structs data rem sent i, pck.LenFits)
    (hzero : 0 ∉ (breakLoop structs data rem sent i).flatMap payload) :
    ((breakLoop structs data rem sent i).flatMap payload).length ≤ rem ∧
      (((breakLoop structs data rem sent i).flatMap payload).length = rem →
        ∀ j, i ≤ j → j < i + (rem + 511) / 512 → (structs j).len = 8) := by
  induction rem using Nat.strong_induction_on generalizing sent i with
  | _ rem ih =>
    obtain rfl | hpos := Nat.eq_zero_or_pos rem
    · rw [breakLoop_zero]
      exact ⟨Nat.le_refl 0,fun _ j hij hj => by omega⟩
    · obtain ⟨m,hm⟩ : ∃ m, m = min 512 rem := ⟨_,rfl⟩
      rw [breakLoop_pos _ _ hpos hm,List.forall_mem_cons] at hfits
      rw [breakLoop_pos _ _ hpos hm,List.flatMap_cons,List.mem_append,not_or] at hzero
      obtain ⟨hle,hexact⟩ := ih (rem - m) (by omega) hfits.2 hzero.2
      have hfirst := length_payload_fillPacket hfits.1 hzero.1
      rw [breakLoop_pos _ _ hpos hm,List.flatMap_cons,List.length_append]
      refine ⟨by omega,fun hall j hij hj => ?_⟩
      obtain rfl | hlt := Nat.eq_or_lt_of_le hij
      · have hlen := length_payload hfits.1
        have hlo := hfits.1.1
        have hm512 : m ≤ 512 := by omega
        exact (fillPacket_len_iff (structs i) (data.drop sent) hm512).mp (by omega)
      · exact hexact (by omega) j hlt (by omega)

end Break

/-- The message comes back, whatever the block holds that becomes its buffer. -/
def RoundTrip (structs : Nat → Packet) (message : AppData) : Prop :=
  ∀ block, ∃ fuel, assembleAppMessage block fuel (breakAppMessage structs message) = .done message

theorem roundTrip_iff {structs : Nat → Packet} {message : AppData} :
    RoundTrip structs message ↔ (∀ pck ∈ breakAppMessage structs message, pck.LenFits) ∧
      message.data.length < 2^32 ∧
      message.data = (breakAppMessage structs message).flatMap payload := by
  have hcount : (breakAppMessage structs message).length < 2^32 := by
    rw [breakAppMessage,length_breakLoop]
    omega
  constructor
  · intro h
    obtain ⟨fuel,hdone⟩ := h fun _ => 0
    obtain ⟨-,hfits,hlt,hdata⟩ := assembleAppMessage_eq_done.mp hdone
    exact ⟨hfits,by rwa [hdata],hdata⟩
  · rintro ⟨hfits,hlt,hdata⟩ block
    refine ⟨_,assembleAppMessage_eq_done.mpr ⟨⟨hcount,Nat.lt_succ_self _⟩,hfits,?_,hdata⟩⟩
    rwa [← hdata]

theorem RoundTrip.of_structs {structs : Nat → Packet} {message : AppData}
    (hlen : message.lenData.toNat < 2^32)
    (h : ∀ i < (message.lenData.toNat + 511) / 512, (structs i).len = 8) :
    RoundTrip structs message := by
  have hdata := message.length_data
  have hall : 0 + message.lenData.toNat ≤ message.data.length := by omega
  obtain ⟨hfits,hpayload⟩ := breakLoop_lossless hall fun j (_ : 0 ≤ j) hj => h j (by omega)
  rw [roundTrip_iff,breakAppMessage,Nat.mod_eq_of_lt hlen]
  refine ⟨hfits,by omega,?_⟩
  rw [hpayload,List.drop_zero,List.take_of_length_le hdata.le]

theorem RoundTrip.structs {structs : Nat → Packet} {message : AppData}
    (h : RoundTrip structs message) (hzero : 0 ∉ message.data) :
    message.lenData.toNat < 2^32 ∧
      ∀ i < (message.lenData.toNat + 511) / 512, (structs i).len = 8 := by
  obtain ⟨hfits,hlt,hdata⟩ := roundTrip_iff.mp h
  rw [message.length_data] at hlt
  rw [breakAppMessage,Nat.mod_eq_of_lt hlt] at hfits hdata
  rw [hdata] at hzero
  have hexact := (breakLoop_exact hfits hzero).2 (by rw [← hdata,message.length_data])
  exact ⟨hlt,fun i hi => hexact i (Nat.zero_le i) (by omega)⟩

/-- A struct that makes every packet too long for its own body. -/
def longStruct : Packet := ⟨0,600,0,.replicate _ 0⟩

theorem lenData_of_roundTrip {message : AppData} (h : RoundTrip (fun _ => longStruct) message) :
    message.lenData = 0 := by
  by_contra hne
  obtain ⟨hfits,hlt,-⟩ := roundTrip_iff.mp h
  rw [message.length_data] at hlt
  have hpos : 0 < message.lenData.toNat :=
    Nat.pos_of_ne_zero fun hzero => hne (UInt64.toNat_inj.mp hzero)
  rw [breakAppMessage,Nat.mod_eq_of_lt hlt,breakLoop_pos _ _ hpos rfl,List.forall_mem_cons] at hfits
  have hlen := hfits.1.2
  rw [fillPacket_len_toNat (by omega),show longStruct.len.toNat = 600 from rfl] at hlen
  omega

/-- Whatever the structs hold, only the empty message comes back. Given the structs, the messages of
one length come back exactly if it is below 2^32 and every `len` is 8 by chance. -/
theorem assemble_break_iff (message : AppData) (structs : Nat → Packet) :
    ((∀ structs, RoundTrip structs message) ↔ message.lenData = 0) ∧
    ((∀ other : AppData, other.lenData = message.lenData → RoundTrip structs other) ↔
      message.lenData.toNat < 2^32 ∧
        ∀ i < (message.lenData.toNat + 511) / 512, (structs i).len = 8) := by
  refine ⟨⟨fun h => lenData_of_roundTrip (h _),fun hlen structs => ?_⟩,fun h => ?_,?_⟩
  · refine .of_structs (by rw [hlen]; decide) fun i hi => ?_
    rw [hlen] at hi
    exact absurd hi (by simp)
  · have hones := h ⟨List.replicate message.lenData.toNat 1,_,List.length_replicate⟩ rfl
    exact hones.structs fun hmem => absurd (List.eq_of_mem_replicate hmem) (by decide)
  · rintro ⟨hlt,hlens⟩ other hother
    rw [← hother] at hlt hlens
    exact .of_structs hlt hlens

/-- A message of one byte in a struct that happens to be zero: `len` is 1, and the length of the
copy is -7. -/
theorem assemble_break_fails :
    (∀ block, assembleAppMessage block 2
      (breakAppMessage (fun _ => ⟨0,0,0,.replicate _ 0⟩) ⟨[7],1,rfl⟩) = .failed) ∧
    ¬RoundTrip (fun _ => ⟨0,0,0,.replicate _ 0⟩) ⟨[7],1,rfl⟩ := by
  have hpackets : breakAppMessage (fun _ => ⟨0,0,0,.replicate _ 0⟩) ⟨[7],1,rfl⟩ =
      [fillPacket ⟨0,0,0,.replicate _ 0⟩ [7] 1] := by
    change breakLoop _ _ 1 0 0 = _
    rw [breakLoop_pos _ _ Nat.one_pos rfl,show 1 - min 512 1 = 0 from rfl,breakLoop_zero]
    rfl
  refine ⟨fun block => ?_,fun h => ?_⟩
  · rw [hpackets]
    rfl
  · have hfits := (roundTrip_iff.mp h).1
    rw [hpackets] at hfits
    exact absurd (hfits _ List.mem_cons_self).1 (by decide)

def DataSink.feedAll (order : ByteOrder) (sink : DataSink)
    (feeds : List (PacketCoreData × UInt32)) : DataSink :=
  feeds.foldl (fun sink feed => sink.feedNextData order feed.1 feed.2) sink

def fedBytes (feeds : List (PacketCoreData × UInt32)) : List UInt8 :=
  feeds.flatMap fun feed => feed.1.bytes

section Sink

variable {order : ByteOrder} {feeds : List (PacketCoreData × UInt32)}

theorem createDataPacketCore_fits (order : ByteOrder) (coreData : PacketCoreData)
    (seqNum : UInt32) : (createDataPacketCore order coreData seqNum).LenFits := by
  have hlen := coreData.len_toNat
  have hle := coreData.size_le
  simp only [pckDataSize] at hle
  rw [Packet.LenFits,createDataPacketCore_len]
  omega

theorem DataSink.feedAll_packets (sink : DataSink) :
    (sink.feedAll order feeds).packets =
      sink.packets ++ feeds.map fun feed => createDataPacketCore order feed.1 feed.2 := by
  induction feeds generalizing sink with
  | nil => exact (List.append_nil _).symm
  | cons feed feeds ih =>
    rw [feedAll,List.foldl_cons]
    refine (ih _).trans ?_
    rw [List.map_cons,List.append_cons]
    rfl

theorem DataSink.feedAll_wrote {good : Bool} {room : Option Nat} {sink : DataSink}
    (h : sink.Wrote good room) : (sink.feedAll order feeds).Wrote good room := by
  induction feeds generalizing sink with
  | nil => exact h
  | cons feed feeds ih => exact ih (h.feed order feed.1 feed.2)

theorem DataSink.fed_feedAll (good : Bool) (room : Option Nat) :
    ((onto good room).feedAll order feeds).fed = fedBytes feeds := by
  rw [fed,feedAll_packets,onto,List.nil_append,List.flatMap_map,fedBytes]
  simp only [payload_createDataPacketCore]

theorem DataSink.getBuff_eq_done {sink : DataSink} {block : Nat → UInt8} {fuel : Nat}
    {message : AppData} :
    sink.getBuff block fuel = .done message ↔
      (sink.packets.length < 2^32 ∧ sink.packets.length < fuel) ∧
        (∀ pck ∈ sink.packets, pck.LenFits) ∧ sink.fed.length < 2^32 ∧ message.data = sink.fed := by
  have hcollect (pckts acc : List Packet) :
      pckts.foldlM (fun acc pck => some (acc ++ [pck])) acc = some (acc ++ pckts) := by
    induction pckts generalizing acc with
    | nil => rw [List.append_nil,List.foldlM_nil]; rfl
    | cons pck pckts ih =>
      rw [List.foldlM_cons]
      exact (ih _).trans (by rw [List.append_assoc]; rfl)
  rw [getBuff,LoopResult.bind_eq_done]
  simp only [countedLoop_eq_done,hcollect,assembleAppMessage_eq_done,List.nil_append,
    Option.some.injEq,fed]
  constructor
  · rintro ⟨_,⟨-,-,rfl⟩,h⟩
    exact h
  · intro h
    exact ⟨_,⟨h.1.1,h.1.2,rfl⟩,h⟩

end Sink

/-- The buffer holds what was fed and written exactly if there were less than 2^32 bytes of it, and
less than 2^32 calls. -/
theorem getBuff_written_iff (order : ByteOrder) (room : Option Nat)
    (feeds : List (PacketCoreData × UInt32)) (block : Nat → UInt8)
    (h : ∀ n, room = some n → (fedBytes feeds).length ≤ n) :
    let sink := (DataSink.onto true room).feedAll order feeds
    (∃ fuel message, sink.getBuff block fuel = .done message ∧
      message.lenData.toNat = (fedBytes feeds).length ∧ message.data = fedBytes feeds ∧
      sink.writer.written = message.data) ↔
      (fedBytes feeds).length < 2^32 ∧ feeds.length < 2^32 := by
  intro sink
  have hfed : sink.fed = fedBytes feeds := DataSink.fed_feedAll true room
  have hcount : sink.packets.length = feeds.length := by
    rw [DataSink.feedAll_packets]
    exact List.length_map _
  have hfits : ∀ pck ∈ sink.packets, pck.LenFits := by
    rw [DataSink.feedAll_packets]
    intro pck hpck
    obtain ⟨feed,-,rfl⟩ := List.mem_map.mp hpck
    exact createDataPacketCore_fits order feed.1 feed.2
  have hwritten : sink.writer.written = fedBytes feeds := by
    have hwrote : sink.Wrote true room := DataSink.feedAll_wrote rfl
    rw [hwrote.written,hfed,OfStream.takes_eq_iff]
    exact Or.inr ⟨rfl,h⟩
  simp only [DataSink.getBuff_eq_done,hcount,hfed]
  constructor
  · rintro ⟨fuel,message,⟨⟨hcalls,-⟩,-,hlt,-⟩,-⟩
    exact ⟨hlt,hcalls⟩
  · rintro ⟨hlt,hcalls⟩
    have hlen : (fedBytes feeds).length = (UInt64.ofNat (fedBytes feeds).length).toNat :=
      (UInt64.toNat_ofNat_of_lt' (hlt.trans (by decide))).symm
    exact ⟨feeds.length + 1,⟨fedBytes feeds,UInt64.ofNat (fedBytes feeds).length,hlen⟩,
      ⟨⟨hcalls,Nat.lt_succ_self _⟩,hfits,hlt,rfl⟩,hlen.symm,rfl,hwritten⟩

/-- A segment of one byte and the marker, on a device with room for one byte. -/
theorem getBuff_written_iff_byte :
    let feeds : List (PacketCoreData × UInt32) := [(segment [7] 0,0),(segment [7] 1,1)]
    let sink := (DataSink.onto true (some 1)).feedAll .little feeds
    (∀ n, some 1 = some n → (fedBytes feeds).length ≤ n) ∧
    ((∃ fuel message, sink.getBuff (fun _ => 0) fuel = .done message ∧
      message.lenData.toNat = (fedBytes feeds).length ∧ message.data = fedBytes feeds ∧
      sink.writer.written = message.data) ↔
      (fedBytes feeds).length < 2^32 ∧ feeds.length < 2^32) := by
  intro feeds sink
  have hroom : ∀ n, some 1 = some n → (fedBytes feeds).length ≤ n := by
    intro n hn
    obtain rfl := Option.some.inj hn
    simp [feeds,fedBytes,segment_bytes]
  exact ⟨hroom,getBuff_written_iff .little (some 1) feeds _ hroom⟩

theorem length_fedBytes_replicate (n : Nat) (data : PacketCoreData) (seqNo : UInt32) :
    (fedBytes (List.replicate n (data,seqNo))).length = n * data.size.toNat := by
  have hbytes : data.bytes.length = data.size.toNat := by
    rw [PacketCoreData.bytes,List.length_take,Vector.length_toList]
    exact Nat.min_eq_left data.size_le
  induction n with
  | zero => simp [fedBytes]
  | succ n ih =>
    rw [fedBytes] at ih
    rw [List.replicate_succ,fedBytes,List.flatMap_cons,List.length_append,ih,hbytes,Nat.succ_mul,
      Nat.add_comm]

/-- The lengths of 2^23 full segments have the 32-bit sum 0, and the first copy leaves the buffer. The
loop over 2^32 empty ones never ends. -/
theorem getBuff_overflows :
    (∀ block fuel message, ((DataSink.onto true none).feedAll .little
      (.replicate (2^23) (segment (.replicate 512 7) 0,0))).getBuff block fuel ≠ .done message) ∧
    ∀ block fuel message, ((DataSink.onto true none).feedAll .little
      (.replicate (2^32) (segment List.nil 0,0))).getBuff block fuel ≠ .done message := by
  constructor
  · intro block fuel message hdone
    have hlt := (DataSink.getBuff_eq_done.mp hdone).2.2.1
    rw [DataSink.fed_feedAll,length_fedBytes_replicate,segment_size,List.length_replicate] at hlt
    exact absurd hlt (by decide)
  · intro block fuel message hdone
    have hlt := (DataSink.getBuff_eq_done.mp hdone).1.1
    rw [DataSink.feedAll_packets,DataSink.onto,List.nil_append,List.length_map,
      List.length_replicate] at hlt
    exact absurd hlt (Nat.lt_irrefl _)

end ReliableTransfer
