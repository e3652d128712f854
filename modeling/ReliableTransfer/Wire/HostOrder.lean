import ReliableTransfer.Wire.BitErrors

/-!
# Checksums across byte orders

The header of a frame is in network order, but the checksum loop reads the body in the order of its
host. Two hosts of different byte orders add the same bytes in different places, and their sums
agree only if what the mask drops makes up for it.
-/

namespace ReliableTransfer

/-- How often bit 8 of the total is set while `words` are added, which is what the mask drops. `plain`
is the sum without masks of everything before. -/
def droppedBits : Nat → List Nat → Nat
  | _,[] => 0
  | plain,word :: words => (plain % 256 + 1 + word) / 256 % 2 + droppedBits (plain + word + 1) words

theorem droppedBits_le (plain : Nat) (words : List Nat) :
    droppedBits plain words ≤ words.length := by
  induction words generalizing plain with
  | nil => exact Nat.le_refl 0
  | cons word words ih =>
    have hrest := ih (plain + word + 1)
    rw [droppedBits,List.length_cons]
    omega

/-- Up to what the mask drops, the running sum is the plain one. -/
theorem sumWords_add_droppedBits {sum plain : Nat} (h : sum % 512 = plain % 256 + 1)
    (words : List Nat) :
    (sumWords sum words + 256 * droppedBits plain words) % 65536 =
      (sum + words.sum + words.length) % 65536 := by
  induction words generalizing sum plain with
  | nil => simp [sumWords,droppedBits]
  | cons word words ih =>
    have hnext : carryStep (sum + word) % 512 = (plain + word + 1) % 256 + 1 := by
      rw [carryStep]
      omega
    have hbit : (sum + word) / 256 % 2 = (plain % 256 + 1 + word) / 256 % 2 := by omega
    have hstep : (carryStep (sum + word) + 256 * ((sum + word) / 256 % 2)) % 65536 =
        (sum + word + 1) % 65536 := by
      rw [carryStep]
      omega
    have hrest := ih hnext
    change (sumWords (carryStep (sum + word)) words + 256 * droppedBits plain (word :: words)) %
      65536 = _
    rw [droppedBits,List.sum_cons,List.length_cons,← hbit]
    omega

def littleWord (pair : Nat × Nat) : Nat := 2^8 * pair.2 + pair.1

def bigWord (pair : Nat × Nat) : Nat := 2^8 * pair.1 + pair.2

theorem sum_littleWord (pairs : List (Nat × Nat)) :
    (pairs.map littleWord).sum = 256 * (pairs.map Prod.snd).sum + (pairs.map Prod.fst).sum := by
  induction pairs with
  | nil => rfl
  | cons pair pairs ih =>
    simp only [List.map_cons,List.sum_cons,ih,littleWord]
    omega

theorem sum_bigWord (pairs : List (Nat × Nat)) :
    (pairs.map bigWord).sum = 256 * (pairs.map Prod.fst).sum + (pairs.map Prod.snd).sum := by
  induction pairs with
  | nil => rfl
  | cons pair pairs ih =>
    simp only [List.map_cons,List.sum_cons,ih,bigWord]
    omega

/-- The bytes at odd places and the bits dropped in little-endian reading make up for the bytes at
even places and the bits dropped in big-endian reading. -/
def Balanced (plain : Nat) (pairs : List (Nat × Nat)) : Prop :=
  (pairs.map Prod.fst).sum + 256 * droppedBits plain (pairs.map bigWord) =
    (pairs.map Prod.snd).sum + 256 * droppedBits plain (pairs.map littleWord)

instance (plain : Nat) (pairs : List (Nat × Nat)) : Decidable (Balanced plain pairs) :=
  inferInstanceAs (Decidable (_ = _))

theorem sumWords_swap_iff {sum plain : Nat} (h : sum % 512 = plain % 256 + 1)
    {pairs : List (Nat × Nat)} (hbytes : ∀ pair ∈ pairs, pair.1 < 256 ∧ pair.2 < 256)
    (hlen : pairs.length = 32) (hsum : sum < 2^16) :
    sumWords sum (pairs.map littleWord) = sumWords sum (pairs.map bigWord) ↔
      Balanced plain pairs := by
  have hle (half : Nat × Nat → Nat) (hhalf : ∀ pair ∈ pairs, half pair < 256) :
      (pairs.map half).sum ≤ 32 * 255 := by
    rw [← hlen,← List.length_map (f := half)]
    apply List.sum_le_card_nsmul
    intro b hb
    obtain ⟨pair,hpair,rfl⟩ := List.mem_map.mp hb
    exact Nat.le_of_lt_succ (hhalf pair hpair)
  have hfirst := hle Prod.fst fun pair hpair => (hbytes pair hpair).1
  have hsecond := hle Prod.snd fun pair hpair => (hbytes pair hpair).2
  have hlittle := sumWords_add_droppedBits h (pairs.map littleWord)
  have hbig := sumWords_add_droppedBits h (pairs.map bigWord)
  have hlittleBits := droppedBits_le plain (pairs.map littleWord)
  have hbigBits := droppedBits_le plain (pairs.map bigWord)
  have hlittleLt := sumWords_lt hsum (pairs.map littleWord)
  have hbigLt := sumWords_lt hsum (pairs.map bigWord)
  rw [List.length_map,hlen] at hlittle hbig hlittleBits hbigBits
  rw [sum_littleWord] at hlittle
  rw [sum_bigWord] at hbig
  rw [Balanced]
  generalize sumWords sum (pairs.map littleWord) = little at *
  generalize sumWords sum (pairs.map bigWord) = big at *
  omega

def bytePairs (payload : List UInt8) : List (Nat × Nat) :=
  (List.range 32).map fun i => ((payload.getD (2 * i) 0).toNat,(payload.getD (2 * i + 1) 0).toNat)

def plainHeader (payload : List UInt8) (seqNum : UInt32) : Nat :=
  8 + payload.length + (headerWords seqNum.toNat).sum + 1

theorem bodyWords_bytePairs (order : ByteOrder) {payload : List UInt8}
    (h : payload.length ≤ pckDataSize) :
    bodyWords order (PacketCoreData.ofBytes payload h).data =
      (bytePairs payload).map fun pair => match order with
        | .little => littleWord pair
        | .big => bigWord pair := by
  rw [bodyWords,bytePairs,List.map_map]
  apply List.ext_getElem
  · simp only [List.length_map,List.length_finRange,List.length_range]
    rfl
  · intro i hi hi'
    have hlt : i < 32 := by simpa using hi'
    simp only [List.getElem_map,List.getElem_finRange,List.getElem_range,Function.comp_apply,dumPtr,
      ByteOrder.word_toNat,PacketCoreData.ofBytes_getElem]
    cases order <;> rfl

theorem verifyChecksum_otherHost_iff {payload : List UInt8} (h : payload.length ≤ pckDataSize)
    (seqNum : UInt32) {order order' : ByteOrder} (hne : order ≠ order') :
    verifyChecksum order' (createDataPacketCore order (.ofBytes payload h) seqNum) = true ↔
      Balanced (plainHeader payload seqNum) (bytePairs payload) := by
  have hlen : (createDataPacketCore order (.ofBytes payload h) seqNum).len.toNat =
      8 + payload.length := by
    rw [createDataPacketCore_len,PacketCoreData.len_toNat,PacketCoreData.ofBytes_size]
  have hdata : (createDataPacketCore order (.ofBytes payload h) seqNum).data =
      (PacketCoreData.ofBytes payload h).data := PacketCoreData.copyBytes_data _
  have hsum (host : ByteOrder) : verifyChecksum host
      (createDataPacketCore order (.ofBytes payload h) seqNum) = true ↔
      (createDataPacketCore order (.ofBytes payload h) seqNum).checkSum.toNat =
        sumWords (sumWords (8 + payload.length) (headerWords seqNum.toNat))
          (bodyWords host (PacketCoreData.ofBytes payload h).data) := by
    rw [verifyChecksum_eq_true_iff,hlen,hdata,createDataPacketCore_seqno]
    simp only [sumWords,List.foldl_append]
  have hown := (hsum order).mp (verifyChecksum_createDataPacketCore order _ seqNum)
  have hstart : sumWords (8 + payload.length) (headerWords seqNum.toNat) % 512 =
      plainHeader payload seqNum % 256 + 1 := sumWords_mod _ _ (by simp [headerWords])
  have hlt : sumWords (8 + payload.length) (headerWords seqNum.toNat) < 2^16 :=
    sumWords_lt (by simp only [pckDataSize] at h; omega) _
  have hbytes : ∀ pair ∈ bytePairs payload, pair.1 < 256 ∧ pair.2 < 256 := by
    intro pair hpair
    obtain ⟨i,-,rfl⟩ := List.mem_map.mp hpair
    exact ⟨UInt8.toNat_lt _,UInt8.toNat_lt _⟩
  have hswap := sumWords_swap_iff hstart hbytes (by simp [bytePairs]) hlt
  rw [hsum order',hown,bodyWords_bytePairs,bodyWords_bytePairs,← hswap]
  cases order <;> cases order'
  · exact absurd rfl hne
  · rfl
  · exact eq_comm
  · exact absurd rfl hne

/-- A packet that crosses from a host of one byte order to one of the other passes the check there
exactly if its bytes are balanced. -/
theorem verified_across_hosts_iff (payload : List UInt8) (h : payload.length ≤ 512)
    (seqNum : UInt32) (order order' : ByteOrder) (hne : order ≠ order') :
    ∃ pck, createDataPacket order payload (UInt16.ofNat payload.length) seqNum = some pck ∧
      (verifyChecksum order' (deserializePacket (serializePacket pck)) = true ↔
        Balanced (plainHeader payload seqNum) (bytePairs payload)) := by
  refine ⟨_,createDataPacket_ofBytes order payload h seqNum,?_⟩
  rw [deserialize_serializePacket]
  exact verifyChecksum_otherHost_iff h seqNum hne

theorem verified_across_hosts_iff_byte :
    [(1 : UInt8)].length ≤ 512 ∧ ByteOrder.little ≠ ByteOrder.big ∧
    ∃ pck, createDataPacket .little [1] (UInt16.ofNat [(1 : UInt8)].length) 0 = some pck ∧
      (verifyChecksum .big (deserializePacket (serializePacket pck)) = true ↔
        Balanced (plainHeader [1] 0) (bytePairs [1])) :=
  ⟨by decide,by decide,verified_across_hosts_iff [1] (by decide) 0 .little .big (by decide)⟩

/-- A packet of the single byte 1 is refused by every host of the other byte order. -/
theorem refused_across_hosts :
    ∃ pck, createDataPacket .little [1] 1 0 = some pck ∧
      verifyChecksum .little (deserializePacket (serializePacket pck)) = true ∧
      verifyChecksum .big (deserializePacket (serializePacket pck)) = false := by
  refine ⟨_,createDataPacket_ofBytes .little [1] (by decide) 0,?_,?_⟩
  · rw [deserialize_serializePacket]
    exact verifyChecksum_createDataPacketCore _ _ _
  · rw [deserialize_serializePacket,← Bool.not_eq_true,
      verifyChecksum_otherHost_iff (by decide) 0 (by decide)]
    decide

end ReliableTransfer
