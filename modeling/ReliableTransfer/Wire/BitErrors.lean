import ReliableTransfer.Wire.Checksum

/-!
# Which single-bit errors the checksum detects

A flipped bit of a frame reaches the checksum through at most one word. It is missed when no
word holds it (bits 8 to 15 of the number, and every body byte after the first 64), and when it
is bit 8 of its word and the mask after the addition swallows it.
-/

namespace ReliableTransfer

open Framework

theorem masked_mod (x s : Nat) : Masked x s ↔ Masked x (s % 512) := by
  simp only [Masked,clearBit8]
  omega

theorem sumWords_len_flip {k len len' : Nat} (number : Nat) (h : FlipsAt k len len') (hk : k < 16)
    (words : List Nat) :
    sumWords len (headerWords number ++ words) = sumWords len' (headerWords number ++ words) ↔
      k = 8 ∧ Masked len (number / 65536) :=
  sumWords_flip h hk _

theorem sumWords_number_flip {k number number' : Nat} (len : Nat) (h : FlipsAt k number number')
    (hk : k < 32) (words : List Nat) :
    sumWords len (headerWords number ++ words) = sumWords len (headerWords number' ++ words) ↔
      (8 ≤ k ∧ k < 16) ∨ (k = 24 ∧ Masked (number / 65536) len) := by
  change sumWords (carryStep (carryStep (len + number / 65536) + number % 256)) words =
    sumWords (carryStep (carryStep (len + number' / 65536) + number' % 256)) words ↔ _
  by_cases hhigh : 16 ≤ k
  · obtain ⟨d,rfl⟩ : ∃ d, k = 16 + d := ⟨k - 16,by omega⟩
    have hdiv := h.div
    have hlow : number % 256 = number' % 256 := by
      have hmod := h.mod_eq
      simp only [Nat.reducePow] at hmod
      omega
    rw [← hlow,Nat.add_comm len,Nat.add_comm len]
    have hflip := sumWords_flip (z := len) hdiv (by omega) (number % 256 :: words)
    simp only [Nat.reducePow] at hflip
    refine hflip.trans ⟨?_,?_⟩
    · rintro ⟨rfl,hm⟩
      exact Or.inr ⟨rfl,hm⟩
    · rintro (hb | ⟨hb,hm⟩)
      · omega
      · exact ⟨by omega,hm⟩
  · have hdiv := h.div_eq (w := 16) (by omega)
    simp only [Nat.reducePow] at hdiv
    rw [← hdiv]
    by_cases h8 : 8 ≤ k
    · obtain ⟨d,rfl⟩ : ∃ d, k = 8 + d := ⟨k - 8,by omega⟩
      have hmod := h.mod_eq
      simp only [Nat.reducePow] at hmod
      simp only [hmod,true_iff]
      omega
    · have hmod := h.mod (w := 8) (by omega)
      simp only [Nat.reducePow] at hmod
      have hflip := sumWords_flip (z := carryStep (len + number / 65536)) hmod (by omega) words
      rw [Nat.add_comm _ (number % 256),Nat.add_comm _ (number' % 256),hflip]
      constructor
      · rintro ⟨hb,_⟩
        omega
      · rintro (hb | hb) <;> omega

theorem sumWords_body_flip {k x y : Nat} (h : FlipsAt k x y) (hk : k < 16) (sum : Nat)
    (before after : List Nat) :
    sumWords sum (before ++ x :: after) = sumWords sum (before ++ y :: after) ↔
      k = 8 ∧ Masked x (sumWords sum before) := by
  have hsplit (z : Nat) : sumWords sum (before ++ z :: after) =
      sumWords (carryStep (z + sumWords sum before)) after := by
    rw [Nat.add_comm]
    exact List.foldl_append
  rw [hsplit,hsplit]
  exact sumWords_flip h hk after

structure Header where
  cksum : UInt16
  len : UInt16
  number : UInt32

def AckPacket.header (pack : AckPacket) : Header := ⟨pack.cksum,pack.len,pack.ackno⟩

def Packet.header (pack : Packet) : Header := ⟨pack.checkSum,pack.len,pack.seqno⟩

def readHeader {n : Nat} (frame : Vector UInt8 n) (h : 8 ≤ n) : Header where
  cksum := deserializeUint16 frame[0] frame[1]
  len := deserializeUint16 frame[2] frame[3]
  number := deserializeUint32 frame[4] frame[5] frame[6] frame[7]

def Header.Sums (p : Header) (words : List Nat) : Prop :=
  p.cksum.toNat = sumWords p.len.toNat (headerWords p.number.toNat ++ words)

/-- Bit `pos` of the frame inverted: exactly one number differs, in exactly one bit. -/
inductive HeaderFlip (pos : Nat) (p q : Header) : Prop
  | cksum (hpos : pos < 16) (hflip : p.cksum.toNat ≠ q.cksum.toNat) (hlen : p.len = q.len)
      (hnumber : p.number = q.number)
  | len (hlo : 16 ≤ pos) (hhi : pos < 32) (hcksum : p.cksum = q.cksum)
      (hflip : FlipsAt (8 * (3 - pos / 8) + pos % 8) p.len.toNat q.len.toNat)
      (hnumber : p.number = q.number)
  | number (hlo : 32 ≤ pos) (hhi : pos < 64) (hcksum : p.cksum = q.cksum) (hlen : p.len = q.len)
      (hflip : FlipsAt (8 * (7 - pos / 8) + pos % 8) p.number.toNat q.number.toNat)

/-- The flips of a header that the checksum does not see: bits 8 to 15 of the number, and bit 8 of
`len` and of the number's upper half when the addition does not carry. -/
def HeaderFlipMissed (len number pos : Nat) : Prop :=
  pos / 8 = 6 ∨ (pos = 16 ∧ Masked len (number / 65536)) ∨
    (pos = 32 ∧ Masked (number / 65536) len)

section Header

variable {n pos : Nat} {p q : Header}

theorem readHeader_flip (frame : Vector UInt8 n) (h : 8 ≤ n) (hpos : pos < 64) :
    HeaderFlip pos (readHeader frame h) (readHeader (flipBit frame pos) h) := by
  have hcksum (hpos : 16 ≤ pos) : (readHeader frame h).cksum =
      (readHeader (flipBit frame pos) h).cksum :=
    (deserializeUint16_other frame (a := 0) (by omega) (by omega)).symm
  have hlen (hpos : pos < 16 ∨ 32 ≤ pos) : (readHeader frame h).len =
      (readHeader (flipBit frame pos) h).len :=
    (deserializeUint16_other frame (a := 2) (by omega) (by omega)).symm
  have hnumber (hpos : pos < 32) : (readHeader frame h).number =
      (readHeader (flipBit frame pos) h).number :=
    (deserializeUint32_other frame (a := 4) (by omega) (by omega)).symm
  obtain hlo | ⟨hlo,hhi⟩ | hlo : pos < 16 ∨ (16 ≤ pos ∧ pos < 32) ∨ 32 ≤ pos := by omega
  · have hflip := deserializeUint16_flip frame 0 pos (by omega) (by omega) (by omega)
    exact .cksum hlo hflip.ne (hlen (Or.inl hlo)) (hnumber (by omega))
  · have hflip := deserializeUint16_flip frame 2 pos (by omega) (by omega) (by omega)
    exact .len hlo hhi (hcksum hlo) hflip (hnumber hhi)
  · have hflip := deserializeUint32_flip frame 4 pos (by omega) (by omega) (by omega)
    exact .number hlo hpos (hcksum (by omega)) (hlen (Or.inr hlo)) hflip

theorem readHeader_beyond (frame : Vector UInt8 n) (h : 8 ≤ n) (hpos : 64 ≤ pos) :
    readHeader (flipBit frame pos) h = readHeader frame h := by
  simp only [readHeader]
  rw [deserializeUint16_other frame (a := 0) (by omega) (by omega),
    deserializeUint16_other frame (a := 2) (by omega) (by omega),
    deserializeUint32_other frame (a := 4) (by omega) (by omega)]

/-- The checksum misses a flip of a sound header exactly when nothing of it reaches the sum. -/
theorem HeaderFlip.sums_iff {words : List Nat} (h : HeaderFlip pos p q) (hsum : p.Sums words) :
    q.Sums words ↔ HeaderFlipMissed p.len.toNat p.number.toNat pos := by
  unfold Header.Sums at hsum ⊢
  cases h with
  | cksum hpos hflip hlen hnumber =>
    rw [← hlen,← hnumber,← hsum]
    refine iff_of_false (fun h => hflip h.symm) ?_
    unfold HeaderFlipMissed
    omega
  | len hlo hhi hcksum hflip hnumber =>
    rw [← hcksum,← hnumber,hsum,sumWords_len_flip _ hflip (by omega)]
    unfold HeaderFlipMissed
    constructor
    · rintro ⟨hbit,hm⟩
      exact Or.inr (Or.inl ⟨by omega,hm⟩)
    · rintro (h | ⟨h,hm⟩ | ⟨h,hm⟩)
      · omega
      · exact ⟨by omega,hm⟩
      · omega
  | number hlo hhi hcksum hlen hflip =>
    rw [← hcksum,← hlen,hsum,sumWords_number_flip _ hflip (by omega)]
    unfold HeaderFlipMissed
    constructor
    · rintro (h | ⟨hbit,hm⟩)
      · exact Or.inl (by omega)
      · exact Or.inr (Or.inr ⟨by omega,hm⟩)
    · rintro (h | ⟨h,hm⟩ | ⟨h,hm⟩)
      · exact Or.inl (by omega)
      · omega
      · exact Or.inr ⟨by omega,hm⟩

theorem HeaderFlip.number_ne_iff (h : HeaderFlip pos p q) : q.number ≠ p.number ↔ 32 ≤ pos := by
  cases h with
  | cksum hpos hflip hlen hnumber => exact iff_of_false (fun h => h hnumber.symm) (by omega)
  | len hlo hhi hcksum hflip hnumber => exact iff_of_false (fun h => h hnumber.symm) (by omega)
  | number hlo hhi hcksum hlen hflip =>
    exact iff_of_true (fun h => hflip.ne (congrArg UInt32.toNat h.symm)) hlo

end Header

/-- The flips of an acknowledgement frame that the checksum does not see: bits 8 to 15 of the
number, and bit 8 of `len` and of the number's upper half when the addition does not carry. -/
def AckFlipMissed (ackno : UInt32) (pos : Nat) : Prop :=
  pos / 8 = 6 ∨ (pos = 16 ∧ Masked 8 (ackno.toNat / 65536)) ∨
    (pos = 32 ∧ Masked (ackno.toNat / 65536) 8)

instance (ackno : UInt32) (pos : Nat) : Decidable (AckFlipMissed ackno pos) :=
  inferInstanceAs (Decidable (_ ∨ _))

def flippedAck (ackno : UInt32) (pos : Nat) : AckPacket :=
  deserializeAckpacket (flipBit (serializeAckpacket (createAckPacket ackno)) pos)

theorem flippedAck_header (ackno : UInt32) {pos : Nat} (hpos : pos < 64) :
    HeaderFlip pos (createAckPacket ackno).header (flippedAck ackno pos).header := by
  have hflip := readHeader_flip (serializeAckpacket (createAckPacket ackno)) (le_refl 8) hpos
  have hback : readHeader (serializeAckpacket (createAckPacket ackno)) (le_refl 8) =
      (createAckPacket ackno).header :=
    congrArg AckPacket.header (deserialize_serializeAckpacket (createAckPacket ackno))
  rwa [hback] at hflip

theorem flippedAck_verify (ackno : UInt32) {pos : Nat} (hpos : pos < 64) :
    verifyChecksumAck (flippedAck ackno pos) = true ↔ AckFlipMissed ackno pos := by
  have hsum : (createAckPacket ackno).header.Sums List.nil :=
    (verifyChecksumAck_eq_true_iff _).mp (verifyChecksumAck_createAckPacket ackno)
  rw [verifyChecksumAck_eq_true_iff]
  exact (flippedAck_header ackno hpos).sums_iff hsum

/-- A one-bit error in an acknowledgement is detected exactly when it is not one of the missed
ones, and a missed one turns the frame into a valid acknowledgement of another packet unless it
sits in `len`. -/
theorem ack_flip_detected_iff (ackno : UInt32) (pos : Fin 64) :
    (verifyChecksumAck (flippedAck ackno pos) = false ↔ ¬ AckFlipMissed ackno pos) ∧
      ((verifyChecksumAck (flippedAck ackno pos) = true ∧ (flippedAck ackno pos).ackno ≠ ackno) ↔
        AckFlipMissed ackno pos ∧ pos.val ≠ 16) := by
  have hverify := flippedAck_verify ackno pos.isLt
  refine ⟨by rw [← hverify,Bool.not_eq_true],?_⟩
  rw [hverify]
  apply and_congr_right
  intro hmissed
  have hne : (flippedAck ackno pos).ackno ≠ ackno ↔ 32 ≤ pos.val :=
    (flippedAck_header ackno pos.isLt).number_ne_iff
  rw [hne]
  unfold AckFlipMissed at hmissed
  omega

/-- Acknowledgement 0 with bit 8 of its number inverted is a valid acknowledgement of 256. -/
theorem ack_flip_undetected :
    verifyChecksumAck (flippedAck 0 48) = true ∧ (flippedAck 0 48).ackno = 256 := by
  decide +kernel

/-- The byte of a body word that a host takes as its upper half. -/
def ByteOrder.upper : ByteOrder → Nat
  | .little => 1
  | .big => 0

/-- The running sum's low nine bits when the loop reaches body word `i`. -/
def sumBefore (order : ByteOrder) (payload : List UInt8) (seqno : UInt32) (i : Nat) : Nat :=
  (8 + payload.length + (headerWords seqno.toNat).sum +
    ((bodyWords order (copyBytes payload payload.length)).take i).sum + i + 1) % 256 + 1

/-- The flips of a data frame that the checksum does not see: bits 8 to 15 of the number, every
body byte from the 65th on, and bit 8 of a summed word when its addition does not carry. -/
def DataFlipMissed (order : ByteOrder) (payload : List UInt8) (seqno : UInt32) (pos : Nat) :
    Prop :=
  pos / 8 = 6 ∨ 72 ≤ pos / 8 ∨
    (pos = 16 ∧ Masked (8 + payload.length) (seqno.toNat / 65536)) ∨
    (pos = 32 ∧ Masked (seqno.toNat / 65536) (8 + payload.length)) ∨
    ∃ i : Fin (pckDataSize / 16), pos = 8 * (8 + 2 * i.val + order.upper) ∧
      Masked (dumPtr order (copyBytes payload payload.length) i).toNat
        (sumBefore order payload seqno i)

theorem ByteOrder.word_toNat (order : ByteOrder) (first second : UInt8) :
    (order.word first second).toNat = match order with
      | .little => 2^8 * second.toNat + first.toNat
      | .big => 2^8 * first.toNat + second.toNat := by
  cases order
  · exact deserializeUint16_toNat second first
  · exact deserializeUint16_toNat first second

def ByteOrder.bit (order : ByteOrder) (half k : Nat) : Nat :=
  if half = order.upper then 8 + k else k

theorem ByteOrder.bit_eq_eight (order : ByteOrder) {half k : Nat} (hk : k < 8) :
    order.bit half k = 8 ↔ half = order.upper ∧ k = 0 := by
  unfold bit
  split <;> omega

theorem ByteOrder.word_flip_first (order : ByteOrder) {k : Nat} {x x' : UInt8} (y : UInt8)
    (hk : k < 8) (h : FlipsAt k x.toNat x'.toNat) :
    FlipsAt (order.bit 0 k) (order.word x y).toNat (order.word x' y).toNat := by
  rw [word_toNat,word_toNat]
  cases order
  · exact h.low hk
  · exact h.high y.toNat_lt

theorem ByteOrder.word_flip_second (order : ByteOrder) {k : Nat} {y y' : UInt8} (x : UInt8)
    (hk : k < 8) (h : FlipsAt k y.toNat y'.toNat) :
    FlipsAt (order.bit 1 k) (order.word x y).toNat (order.word x y').toNat := by
  rw [word_toNat,word_toNat]
  cases order
  · exact h.high x.toNat_lt
  · exact h.low hk

theorem bodyWords_set (order : ByteOrder) (data data' : Vector UInt8 pckDataSize)
    (i : Fin (pckDataSize / 16))
    (hsame : ∀ m, m ≠ i → dumPtr order data' m = dumPtr order data m) :
    bodyWords order data' = (bodyWords order data).take i ++
      (dumPtr order data' i).toNat :: (bodyWords order data).drop (i.val + 1) := by
  have hlen (d : Vector UInt8 pckDataSize) : (bodyWords order d).length = 32 := by
    rw [bodyWords,List.length_map,List.length_finRange]
    rfl
  have hset : bodyWords order data' =
      (bodyWords order data).set i (dumPtr order data' i).toNat := by
    apply List.ext_getElem
    · rw [List.length_set,hlen,hlen]
    · intro m hm _
      rw [List.getElem_set]
      split
      · next he => simp [bodyWords,← he]
      · next hne =>
        simp only [bodyWords,List.getElem_map,List.getElem_finRange]
        rw [hsame _ (fun he => hne (by rw [← he]; rfl))]
  rw [hset,List.set_eq_take_append_cons_drop,if_pos (by rw [hlen]; exact i.isLt)]

theorem dumPtr_flip (order : ByteOrder) {data data' : Vector UInt8 pckDataSize} {j k : Nat}
    (hk : k < 8) (hj : j < pckDataSize) (hflip : FlipsAt k data[j].toNat data'[j].toNat)
    (hother : ∀ (m : Nat) (hm : m < pckDataSize), m ≠ j → data'[m] = data[m])
    (i : Fin (pckDataSize / 16)) (hi : j / 2 = i.val) :
    FlipsAt (order.bit (j % 2) k) (dumPtr order data i).toNat (dumPtr order data' i).toNat ∧
      ∀ m, m ≠ i → dumPtr order data' m = dumPtr order data m := by
  have hlt : i.val < 32 := i.isLt
  constructor
  · obtain he | he : j = 2 * i.val ∨ j = 2 * i.val + 1 := by omega
    · subst he
      have hsecond := hother (2 * i.val + 1) (by simp only [pckDataSize]; omega) (by omega)
      simp only [dumPtr,hsecond,Nat.mul_mod_right]
      exact order.word_flip_first _ hk hflip
    · subst he
      have hfirst := hother (2 * i.val) (by simp only [pckDataSize]; omega) (by omega)
      simp only [dumPtr,hfirst,show (2 * i.val + 1) % 2 = 1 by omega]
      exact order.word_flip_second _ hk hflip
  · intro m hm
    have hmlt : m.val < 32 := m.isLt
    have hne : m.val ≠ i.val := fun h => hm (Fin.ext h)
    simp only [dumPtr]
    rw [hother (2 * m.val) _ (by omega),hother (2 * m.val + 1) _ (by omega)]

def flippedData (pck : Packet) (pos : Nat) : Packet :=
  deserializePacket (flipBit (serializePacket pck) pos)

theorem readHeader_serializePacket (p : Packet) :
    readHeader (serializePacket p) (by decide) = p.header :=
  congrArg Packet.header (deserialize_serializePacket p)

theorem flippedData_other (p : Packet) {pos m : Nat} (hm : m < pckDataSize)
    (hne : 8 + m ≠ pos / 8) : (flippedData p pos).data[m] = p.data[m] := by
  have hlt : 8 + m < 520 := Nat.add_lt_add_left hm 8
  have hbyte : (flippedData p pos).data[m] = (flipBit (serializePacket p) pos)[8 + m] := by
    simp [flippedData,deserializePacket]
  rw [hbyte,flipBit_other _ hlt hne]
  exact serializePacket_data p m hm hlt

theorem flippedData_header (p : Packet) {pos : Nat} (hpos : pos < 64) :
    HeaderFlip pos p.header (flippedData p pos).header ∧ (flippedData p pos).data = p.data := by
  constructor
  · have hflip := readHeader_flip (serializePacket p) (by decide) hpos
    rwa [readHeader_serializePacket] at hflip
  · ext m hm
    exact congrArg UInt8.toNat (flippedData_other p hm (by omega))

theorem flippedData_body (p : Packet) {pos : Nat} (hlo : 64 ≤ pos) (hpos : pos < 4160) :
    (flippedData p pos).header = p.header ∧
      ∃ (j : Nat) (hj : j < pckDataSize), pos / 8 = 8 + j ∧
        FlipsAt (pos % 8) p.data[j].toNat (flippedData p pos).data[j].toNat := by
  have hj : pos / 8 - 8 < pckDataSize := by
    simp only [pckDataSize]
    omega
  have hlt : 8 + (pos / 8 - 8) < 520 := Nat.add_lt_add_left hj 8
  constructor
  · rw [← readHeader_serializePacket p,← readHeader_beyond _ (by decide) hlo]
    rfl
  · refine ⟨pos / 8 - 8,hj,by omega,?_⟩
    have hbyte : (flippedData p pos).data[pos / 8 - 8] =
        (flipBit (serializePacket p) pos)[8 + (pos / 8 - 8)] := by
      simp [flippedData,deserializePacket]
    rw [hbyte,← serializePacket_data p _ hj hlt]
    exact flipBit_flipsAt _ hlt (by omega)

theorem sumBefore_eq (order : ByteOrder) (payload : List UInt8) (seqno : UInt32)
    (i : Fin (pckDataSize / 16)) :
    sumWords (8 + payload.length) (headerWords seqno.toNat ++
        (bodyWords order (copyBytes payload payload.length)).take i) % 512 =
      sumBefore order payload seqno i := by
  have hi : i.val < 32 := i.isLt
  have hlen : ((bodyWords order (copyBytes payload payload.length)).take i).length = i.val := by
    rw [List.length_take,bodyWords,List.length_map,List.length_finRange]
    exact min_eq_left i.isLt.le
  rw [sumWords_mod _ _ (by simp [headerWords]),List.sum_append,List.length_append,hlen,sumBefore]
  simp only [headerWords,List.length_cons,List.length_nil]
  congr 2
  omega

theorem flippedBody_sums (order : ByteOrder) (p : Packet) {pos j : Nat} (hj : j < pckDataSize)
    (hjp : pos / 8 = 8 + j)
    (hflip : FlipsAt (pos % 8) p.data[j].toNat (flippedData p pos).data[j].toNat) :
    sumWords p.len.toNat (headerWords p.seqno.toNat ++ bodyWords order p.data) =
        sumWords p.len.toNat (headerWords p.seqno.toNat ++
          bodyWords order (flippedData p pos).data) ↔
      64 ≤ j ∨ ∃ i : Fin (pckDataSize / 16), pos = 8 * (8 + 2 * i.val + order.upper) ∧
        Masked (dumPtr order p.data i).toNat (sumWords p.len.toNat
          (headerWords p.seqno.toNat ++ (bodyWords order p.data).take i)) := by
  have hother (m : Nat) (hm : m < pckDataSize) (hne : m ≠ j) :
      (flippedData p pos).data[m] = p.data[m] := flippedData_other p hm (by omega)
  have hupper : order.upper < 2 := by cases order <;> decide
  by_cases hsummed : j < 64
  · let i : Fin (pckDataSize / 16) := ⟨j / 2,by simp only [pckDataSize]; omega⟩
    have hi : i.val = j / 2 := rfl
    obtain ⟨hword,hsame⟩ := dumPtr_flip order (Nat.mod_lt pos (by decide)) hj hflip hother i rfl
    have hold := bodyWords_set order p.data p.data i (fun _ _ => rfl)
    have hnew := bodyWords_set order p.data (flippedData p pos).data i hsame
    have hbit : order.bit (j % 2) (pos % 8) < 16 := by
      unfold ByteOrder.bit
      split <;> omega
    have hkey := sumWords_body_flip hword hbit p.len.toNat
      (headerWords p.seqno.toNat ++ (bodyWords order p.data).take i)
      ((bodyWords order p.data).drop (i.val + 1))
    simp only [List.append_assoc] at hkey
    rw [← hold,← hnew,order.bit_eq_eight (Nat.mod_lt pos (by decide))] at hkey
    refine hkey.trans ⟨?_,?_⟩
    · rintro ⟨⟨hhalf,hbit⟩,hm⟩
      exact Or.inr ⟨i,by omega,hm⟩
    · rintro (h | ⟨i',h,hm⟩)
      · omega
      · have he : i' = i := Fin.ext (by omega)
        subst he
        exact ⟨by omega,hm⟩
  · have hsame : bodyWords order (flippedData p pos).data = bodyWords order p.data := by
      apply List.map_congr_left
      intro m _
      have hm : m.val < 32 := m.isLt
      simp only [dumPtr]
      rw [hother (2 * m.val) _ (by omega),hother (2 * m.val + 1) _ (by omega)]
    rw [hsame]
    exact iff_of_true rfl (Or.inl (not_lt.mp hsummed))

theorem dataFlipMissed_header (order : ByteOrder) (payload : List UInt8) (seqno : UInt32)
    {pos : Nat} (hpos : pos < 64) :
    DataFlipMissed order payload seqno pos ↔
      HeaderFlipMissed (8 + payload.length) seqno.toNat pos := by
  unfold DataFlipMissed HeaderFlipMissed
  constructor
  · rintro (h | h | h | h | ⟨i,h,_⟩)
    · exact Or.inl h
    · omega
    · exact Or.inr (Or.inl h)
    · exact Or.inr (Or.inr h)
    · omega
  · rintro (h | h | h)
    · exact Or.inl h
    · exact Or.inr (Or.inr (Or.inl h))
    · exact Or.inr (Or.inr (Or.inr (Or.inl h)))

theorem dataFlipMissed_body (order : ByteOrder) (payload : List UInt8) (seqno : UInt32)
    {pos j : Nat} (hjp : pos / 8 = 8 + j) :
    DataFlipMissed order payload seqno pos ↔
      64 ≤ j ∨ ∃ i : Fin (pckDataSize / 16), pos = 8 * (8 + 2 * i.val + order.upper) ∧
        Masked (dumPtr order (copyBytes payload payload.length) i).toNat
          (sumBefore order payload seqno i) := by
  unfold DataFlipMissed
  constructor
  · rintro (h | h | ⟨h,_⟩ | ⟨h,_⟩ | h)
    · omega
    · exact Or.inl (by omega)
    · omega
    · omega
    · exact Or.inr h
  · rintro (h | h)
    · exact Or.inr (Or.inl (by omega))
    · exact Or.inr (Or.inr (Or.inr (Or.inr h)))

theorem flippedData_verify (order : ByteOrder) (payload : List UInt8)
    (hsize : payload.length ≤ pckDataSize) (seqno : UInt32) {pos : Nat} (hpos : pos < 4160) :
    verifyChecksum order (flippedData (sealPacket order (UInt16.ofNat payload.length) seqno
        (copyBytes payload payload.length)) pos) = true ↔
      DataFlipMissed order payload seqno pos := by
  let p := sealPacket order (UInt16.ofNat payload.length) seqno (copyBytes payload payload.length)
  have hlen : p.len.toNat = 8 + payload.length := by
    simp only [pckDataSize] at hsize
    change (8 + UInt16.ofNat payload.length).toNat = _
    rw [UInt16.toNat_add,UInt16.toNat_ofNat']
    simp only [show (8 : UInt16).toNat = 8 from rfl]
    omega
  have hsum : p.header.Sums (bodyWords order p.data) :=
    (verifyChecksum_eq_true_iff order p).mp (verifyChecksum_sealPacket _ _ _ _)
  rw [verifyChecksum_eq_true_iff]
  change (flippedData p pos).header.Sums (bodyWords order (flippedData p pos).data) ↔ _
  rcases Nat.lt_or_ge pos 64 with hlo | hlo
  · obtain ⟨hflip,hdata⟩ := flippedData_header p hlo
    rw [hdata,hflip.sums_iff hsum,dataFlipMissed_header order payload seqno hlo]
    change HeaderFlipMissed p.len.toNat _ _ ↔ _
    rw [hlen]
    rfl
  · obtain ⟨hheader,j,hj,hjp,hflip⟩ := flippedData_body p hlo hpos
    have hbody := flippedBody_sums order p hj hjp hflip
    rw [hheader,Header.Sums,hsum,dataFlipMissed_body order payload seqno hjp]
    refine hbody.trans (or_congr_right (exists_congr fun i => and_congr_right fun _ => ?_))
    rw [masked_mod,hlen]
    change Masked _ (sumWords (8 + payload.length) (headerWords seqno.toNat ++
      (bodyWords order (copyBytes payload payload.length)).take i) % 512) ↔ _
    rw [sumBefore_eq]
    rfl

/-- A one-bit error in a data packet is detected exactly when it is not one of the missed ones. -/
theorem data_flip_detected_iff (order : ByteOrder) (payload : List UInt8)
    (hsize : payload.length ≤ pckDataSize) (seqno : UInt32) (pos : Fin 4160) :
    ∃ pck, createDataPacket order payload (UInt16.ofNat payload.length) seqno = some pck ∧
      (verifyChecksum order (flippedData pck pos) = false ↔
        ¬ DataFlipMissed order payload seqno pos) := by
  have hnat : (UInt16.ofNat payload.length).toNat = payload.length := by
    simp only [pckDataSize] at hsize
    exact Nat.mod_eq_of_lt (by omega)
  refine ⟨_,by rw [createDataPacket,hnat,if_pos ⟨le_refl _,hsize⟩],?_⟩
  rw [← flippedData_verify order payload hsize seqno pos.isLt,Bool.not_eq_true]

/-- The last bit of a full segment, on hosts of either byte order. -/
theorem data_flip_detected_iff_full : (List.replicate 512 0).length ≤ pckDataSize ∧
    ∀ order, ∃ pck, createDataPacket order (List.replicate 512 0)
        (UInt16.ofNat (List.replicate 512 (0 : UInt8)).length) 0 = some pck ∧
      (verifyChecksum order (flippedData pck 4159) = false ↔
        ¬ DataFlipMissed order (List.replicate 512 0) 0 4159) :=
  ⟨List.length_replicate.le,fun order =>
    data_flip_detected_iff order (List.replicate 512 0) List.length_replicate.le 0 4159⟩

/-- A full segment whose last bit was inverted still passes the checksum. -/
theorem data_flip_undetected :
    ∃ pck, createDataPacket .little (List.replicate 512 0) 512 0 = some pck ∧
      verifyChecksum .little (flippedData pck 4159) = true := by
  refine ⟨sealPacket .little 512 0 (copyBytes (List.replicate 512 0) 512),?_,?_⟩
  · rw [createDataPacket,if_pos ⟨List.length_replicate.ge,by decide⟩]
    rfl
  · have hmissed : DataFlipMissed .little (List.replicate 512 0) 0 4159 :=
      Or.inr (Or.inl (by decide))
    have hlen : (List.replicate 512 (0 : UInt8)).length = 512 := List.length_replicate
    have h := (flippedData_verify .little (List.replicate 512 0) hlen.le 0 (by decide)).mpr hmissed
    rw [hlen] at h
    exact h

end ReliableTransfer
