import Mathlib

/-!
# Byte strings

A `std::string` holds any bytes. What the C library reads through `c_str()` ends at its first
zero byte.
-/

namespace ReliableTransfer

abbrev ByteString := List UInt8

/-- What a C function sees of a string. -/
def cString (s : ByteString) : ByteString := s.takeWhile (· ≠ 0)

def isSpace (b : UInt8) : Bool := (9 ≤ b && b ≤ 13) || b == 32

def isDigit (b : UInt8) : Bool := 48 ≤ b && b ≤ 57

def digitsValue (digits : ByteString) : Nat :=
  digits.foldl (fun n b => 10 * n + (b.toNat - 48)) 0

/-- The number that `strtol` and its relatives find after white space and a sign, before they fit
it to their type; `none` where they find no digit. -/
def readInteger (s : ByteString) : Option Int :=
  let s := (cString s).dropWhile isSpace
  let (negative,s) := match s with
    | 43 :: s => (false,s)
    | 45 :: s => (true,s)
    | s => (false,s)
  let digits := s.takeWhile isDigit
  if digits = List.nil then none
  else if negative then some (-(digitsValue digits : Int)) else some (digitsValue digits)

/-- `stoi`; `none` is an exception. -/
def stoi (s : ByteString) : Option Int :=
  match readInteger s with
  | none => none
  | some n => if -(2^31) ≤ n ∧ n < 2^31 then some n else none

/-- `stoul` with a 64-bit `unsigned long`, which a minus sign negates; `none` is an exception. -/
def stoul (s : ByteString) : Option Nat :=
  match readInteger s with
  | none => none
  | some n => if n.natAbs < 2^64 then some (n % 2^64).toNat else none

/-- `atoi`: a 64-bit `strtol`, which saturates, cut to 32 bits. -/
def atoi (s : ByteString) : Int :=
  let n := max (-(2^63)) (min (2^63 - 1) ((readInteger s).getD 0))
  (n + 2^31) % 2^32 - 2^31

/-- `strtok` called until it returns the null pointer, with one delimiter. -/
def strtok (delim : UInt8) (s : ByteString) : List ByteString :=
  ((cString s).splitOn delim).filter (· ≠ List.nil)

def trimCopy (s : ByteString) : ByteString :=
  ((s.dropWhile isSpace).reverse.dropWhile isSpace).reverse

/-- The strings `getline` reads from a stream that delivers these bytes. -/
def getLines : ByteString → List ByteString
  | [] => List.nil
  | b :: rest =>
    if b = 10 then List.nil :: getLines rest
    else match getLines rest with
      | [] => [[b]]
      | line :: lines => (b :: line) :: lines

theorem getLines_terminated {lines : List ByteString} (h : ∀ line ∈ lines, 10 ∉ line) :
    getLines (lines.flatMap (· ++ [10])) = lines := by
  have hline (line rest : ByteString) (hnl : 10 ∉ line) :
      getLines (line ++ 10 :: rest) = line :: getLines rest := by
    induction line with
    | nil => rfl
    | cons b line ih =>
      rw [List.mem_cons,not_or] at hnl
      rw [List.cons_append,getLines,if_neg (Ne.symm hnl.1),ih hnl.2]
  induction lines with
  | nil => rfl
  | cons line lines ih =>
    rw [List.flatMap_cons,List.append_assoc,List.singleton_append,
      hline line _ (h line List.mem_cons_self),
      ih fun line hline => h line (List.mem_cons_of_mem _ hline)]

theorem cString_append_zeros (s : ByteString) (n : Nat) (hn : 0 < n) :
    cString (s ++ List.replicate n 0) = cString s := by
  obtain ⟨n,rfl⟩ := Nat.exists_eq_add_one.mpr hn
  induction s with
  | nil => rfl
  | cons b s ih =>
    by_cases hb : b = 0
    · simp [cString,hb]
    · simpa [cString,hb] using ih

theorem cString_eq_self {s : ByteString} : cString s = s ↔ 0 ∉ s := by
  rw [cString,List.takeWhile_eq_self_iff]
  constructor
  · intro h hmem
    simpa using h 0 hmem
  · intro h b hb
    simp only [ne_eq,decide_not,Bool.not_eq_true',decide_eq_false_iff_not]
    exact fun heq => h (heq ▸ hb)

theorem length_cString_le (s : ByteString) : (cString s).length ≤ s.length :=
  (List.takeWhile_prefix _).length_le

theorem zero_notMem_cString (s : ByteString) : 0 ∉ cString s := by
  intro h
  simpa using List.mem_takeWhile_imp h

end ReliableTransfer
