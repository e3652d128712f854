import ReliableTransfer.Wire.Serial

/-!
# The arithmetic of the checksum

Each addition of `calculateChecksum` is followed by a mask that drops bit 8 and everything
above bit 15, and by an increment. Two runs of the loop that have come apart in the low byte,
or above bit 8 with equal low parts, can never meet again; a difference in bit 8 alone either
disappears at the mask or has already carried into bit 9.
-/

namespace ReliableTransfer

open Framework

/-- The mask and the increment after one addition. -/
def carryStep (total : Nat) : Nat :=
  512 * (total / 512 % 128) + total % 256 + 1

def sumWords (sum : Nat) (words : List Nat) : Nat :=
  words.foldl (fun sum word => carryStep (sum + word)) sum

theorem land_mask (x : Nat) : x &&& 0xFEFF = 512 * (x / 512 % 128) + x % 256 := by
  have hlow : x % 256 < 2^9 := (Nat.mod_lt x (by decide)).trans (by decide)
  apply Nat.eq_of_testBit_eq
  intro i
  rw [show 512 = 2^9 from rfl,Nat.testBit_two_pow_mul_add _ hlow,Nat.testBit_and,
    show 128 = 2^7 from rfl,show 256 = 2^8 from rfl]
  simp only [Nat.testBit_mod_two_pow,Nat.testBit_div_two_pow]
  have hmask : Nat.testBit 0xFEFF i = (decide (i < 8) || (decide (9 ≤ i) && decide (i < 16))) := by
    by_cases hi : i < 16
    · interval_cases i <;> rfl
    · rw [Nat.testBit_lt_two_pow (lt_of_lt_of_le (by decide : 0xFEFF < 2^16)
        (Nat.pow_le_pow_right (by decide) (by omega)))]
      simp [show ¬ i < 8 by omega,hi]
  rw [hmask]
  by_cases h8 : i < 8
  · simp [h8,show i < 9 by omega]
  · by_cases h9 : i < 9
    · simp [h8,h9,show ¬ 9 ≤ i by omega]
    · simp only [h8,h9,show 9 ≤ i by omega,if_false,decide_false,decide_true,Bool.false_or,
        Bool.true_and,show i - 9 + 9 = i by omega]
      by_cases h16 : i < 16
      · simp [h16,show i - 9 < 7 by omega]
      · simp [h16,show ¬ i - 9 < 7 by omega]

theorem addWord_toNat (sum word : UInt32) (h : sum.toNat + word.toNat < 2^32) :
    (addWord sum word).toNat = carryStep (sum.toNat + word.toNat) := by
  have htest : (sum + word ||| 0x0100) ≠ 0 := by
    intro he
    have hn := congrArg (fun x : UInt32 => x.toNat.testBit 8) he
    simp only [UInt32.toNat_or,Nat.testBit_or,UInt32.toNat_zero,Nat.zero_testBit] at hn
    simp [show Nat.testBit 256 8 = true from rfl] at hn
  have hmask := land_mask (sum.toNat + word.toNat)
  rw [addWord,if_pos htest,UInt32.toNat_add,UInt32.toNat_and,UInt32.toNat_add,
    Nat.mod_eq_of_lt h,show (0xFEFF : UInt32).toNat = 0xFEFF from rfl,hmask,
    show (1 : UInt32).toNat = 1 from rfl,carryStep]
  omega

theorem carryStep_lt (total : Nat) : carryStep total < 2^16 := by
  rw [carryStep]
  omega

/-- Two running sums that no further additions can bring together. -/
def Diverges (s t : Nat) : Prop :=
  s % 256 ≠ t % 256 ∨ (s % 512 = t % 512 ∧ s / 512 % 128 ≠ t / 512 % 128)

theorem Diverges.ne {s t : Nat} (h : Diverges s t) : s ≠ t := by
  rintro rfl
  simp [Diverges] at h

theorem Diverges.symm {s t : Nat} (h : Diverges s t) : Diverges t s := by
  unfold Diverges at *
  omega

theorem Diverges.carryStep {s t : Nat} (h : Diverges s t) (word : Nat) :
    Diverges (carryStep (s + word)) (carryStep (t + word)) := by
  unfold Diverges ReliableTransfer.carryStep at *
  omega

theorem Diverges.sumWords {s t : Nat} (h : Diverges s t) (words : List Nat) :
    Diverges (sumWords s words) (sumWords t words) := by
  induction words generalizing s t with
  | nil => exact h
  | cons word words ih => exact ih (h.carryStep word)

def clearBit8 (x : Nat) : Nat := x - 256 * (x / 256 % 2)

/-- A flip of bit 8 of one summand `x` is lost when adding the other one, `y`, leaves bit 8 to
the flipped bit alone. -/
def Masked (x y : Nat) : Prop := (clearBit8 x + y) / 256 % 2 = 0

instance (x y : Nat) : Decidable (Masked x y) := inferInstanceAs (Decidable (_ = _))

theorem carryStep_flip_other {k x y z : Nat} (h : FlipsAt k x y) (hk : k < 16) (h8 : k ≠ 8) :
    Diverges (carryStep (x + z)) (carryStep (y + z)) := by
  unfold Diverges carryStep
  interval_cases k <;> simp only [FlipsAt,Nat.reducePow] at h <;> omega

theorem carryStep_flip_masked {x y z : Nat} (h : FlipsAt 8 x y) (hm : Masked x z) :
    carryStep (x + z) = carryStep (y + z) := by
  simp only [FlipsAt,Masked,clearBit8,carryStep,Nat.reducePow] at *
  omega

theorem carryStep_flip_carried {x y z : Nat} (h : FlipsAt 8 x y) (hm : ¬ Masked x z) :
    Diverges (carryStep (x + z)) (carryStep (y + z)) := by
  simp only [FlipsAt,Masked,clearBit8,Diverges,carryStep,Nat.reducePow] at *
  omega

/-- Inverting one bit of a summand changes the sum of all words unless it is bit 8 and masked. -/
theorem sumWords_flip {k x y z : Nat} (h : FlipsAt k x y) (hk : k < 16) (words : List Nat) :
    sumWords (carryStep (x + z)) words = sumWords (carryStep (y + z)) words ↔
      k = 8 ∧ Masked x z := by
  by_cases h8 : k = 8
  · subst h8
    by_cases hm : Masked x z
    · simp [hm,carryStep_flip_masked h hm]
    · simpa [hm] using ((carryStep_flip_carried h hm).sumWords words).ne
  · simpa [h8] using ((carryStep_flip_other h hk h8).sumWords words).ne

/-- The two words the header contributes after `len`. -/
def headerWords (number : Nat) : List Nat := [number / 65536,number % 256]

/-- The body words the loop reads: 32 of the 256. -/
def bodyWords (order : ByteOrder) (data : Vector UInt8 pckDataSize) : List Nat :=
  (List.finRange (pckDataSize / 16)).map fun i => (dumPtr order data i).toNat

theorem sumWords_lt {sum : Nat} (h : sum < 2^16) (words : List Nat) :
    sumWords sum words < 2^16 := by
  induction words generalizing sum with
  | nil => exact h
  | cons word words ih => exact ih (carryStep_lt _)

theorem foldl_addWord_toNat {ι : Type} (f : ι → UInt16) (is : List ι) (sum : UInt32)
    (h : sum.toNat < 2^16) :
    (is.foldl (fun sum i => addWord sum (f i).toUInt32) sum).toNat =
      sumWords sum.toNat (is.map fun i => (f i).toNat) := by
  induction is generalizing sum with
  | nil => rfl
  | cons i is ih =>
    have hword := (f i).toNat_lt
    have hstep := addWord_toNat sum (f i).toUInt32 (by simp only [UInt16.toNat_toUInt32]; omega)
    simp only [UInt16.toNat_toUInt32] at hstep
    rw [List.foldl_cons,ih _ (by rw [hstep]; exact carryStep_lt _),hstep]
    rfl

theorem addHeader_toNat (len : UInt16) (number : UInt32) :
    (addWord (addWord len.toUInt32 (number >>> 16)) (number &&& 0x00FF)).toNat =
      sumWords len.toNat (headerWords number.toNat) := by
  have hlen := len.toNat_lt
  have hnum := number.toNat_lt
  have hhigh : (number >>> 16).toNat = number.toNat / 65536 := by
    rw [UInt32.toNat_shiftRight,show (16 : UInt32).toNat % 32 = 16 from rfl,
      Nat.shiftRight_eq_div_pow]
  have hlow : (number &&& 0x00FF).toNat = number.toNat % 256 := by
    rw [UInt32.toNat_and]
    exact Nat.and_two_pow_sub_one_eq_mod number.toNat 8
  have hfirst := addWord_toNat len.toUInt32 (number >>> 16) (by
    rw [hhigh,UInt16.toNat_toUInt32]
    omega)
  have hlt := carryStep_lt (len.toUInt32.toNat + (number >>> 16).toNat)
  rw [addWord_toNat _ _ (by rw [hfirst,hlow]; omega),hfirst,hhigh,hlow,UInt16.toNat_toUInt32]
  rfl

theorem calculateChecksum_toNat (order : ByteOrder) (pack : Packet) :
    (calculateChecksum order pack).toNat =
      sumWords pack.len.toNat (headerWords pack.seqno.toNat ++ bodyWords order pack.data) := by
  have hheader := addHeader_toNat pack.len pack.seqno
  have hlt := sumWords_lt pack.len.toNat_lt (headerWords pack.seqno.toNat)
  have hbody := foldl_addWord_toNat (dumPtr order pack.data) (List.finRange (pckDataSize / 16))
    (addWord (addWord pack.len.toUInt32 (pack.seqno >>> 16)) (pack.seqno &&& 0x00FF))
    (by rw [hheader]; exact hlt)
  rw [calculateChecksum,UInt32.toNat_toUInt16,hbody,hheader,sumWords,sumWords,← List.foldl_append]
  exact Nat.mod_eq_of_lt (sumWords_lt pack.len.toNat_lt _)

theorem calculateChecksumAck_toNat (pack : AckPacket) :
    (calculateChecksumAck pack).toNat =
      sumWords pack.len.toNat (headerWords pack.ackno.toNat) := by
  rw [calculateChecksumAck,UInt32.toNat_toUInt16,addHeader_toNat]
  exact Nat.mod_eq_of_lt (sumWords_lt pack.len.toNat_lt _)

theorem verifyChecksum_eq_true_iff (order : ByteOrder) (pack : Packet) :
    verifyChecksum order pack = true ↔ pack.checkSum.toNat =
      sumWords pack.len.toNat (headerWords pack.seqno.toNat ++ bodyWords order pack.data) := by
  rw [verifyChecksum,beq_iff_eq,← calculateChecksum_toNat,UInt16.toNat_inj]

theorem verifyChecksumAck_eq_true_iff (pack : AckPacket) :
    verifyChecksumAck pack = true ↔
      pack.cksum.toNat = sumWords pack.len.toNat (headerWords pack.ackno.toNat) := by
  rw [verifyChecksumAck,beq_iff_eq,← calculateChecksumAck_toNat,UInt16.toNat_inj]

theorem sumWords_mod (sum : Nat) (words : List Nat) (h : words ≠ []) :
    sumWords sum words % 512 = (sum + words.sum + (words.length - 1)) % 256 + 1 := by
  induction words generalizing sum with
  | nil => contradiction
  | cons first words ih =>
    cases words with
    | nil =>
      simp only [sumWords,List.foldl_cons,List.foldl_nil,carryStep,List.sum_cons,List.sum_nil,
        List.length_singleton]
      omega
    | cons second words =>
      have hrest := ih (carryStep (sum + first)) (by simp)
      simp only [sumWords,List.foldl_cons,List.sum_cons,List.length_cons] at hrest ⊢
      rw [hrest,carryStep]
      omega

end ReliableTransfer
