import ReliableTransfer.Parser.ByteString

/-!
# The parameter files

`readServerParameters` and `readClientParameters`. The functions report an unusable file through
`*error`, but they can also end the program.
-/

namespace ReliableTransfer

/-- What the parser gets from the library: how `operator>>` and `stof` read a number with a
fraction, and the address `gethostbyname` finds. -/
structure ParserLib where
  /-- `iss >> noskipws >> f` succeeds and leaves the stream at its end. -/
  readsFloat : ByteString → Bool
  /-- `none` is an exception. -/
  stof : ByteString → Option ℚ
  /-- `none` is the null pointer. -/
  gethostbyname : ByteString → Option UInt32

structure ServerParameters where
  servPort : Int
  windowSize : UInt32
  seed : UInt32
  lossProb : ℚ
deriving DecidableEq

structure ClientParameters where
  inAdd : UInt32
  servPort : Int
  cliPort : Int
  filename : ByteString
  windowSize : UInt32
deriving DecidableEq

inductive Parsed (α : Type) where
  /-- `*error` is true. -/
  | rejected
  | accepted (params : α)
  /-- An exception that nobody catches, or a null pointer is dereferenced. -/
  | aborted
deriving DecidableEq

def validDigit (s : ByteString) : Bool := (cString s).all isDigit

/-- The loop of `is_valid_ip` over the tokens, with its `dots`; `none` where it returns 0. -/
def countDots : List ByteString → Nat → Option Nat
  | [],dots => some dots
  | ptr :: rest,dots =>
    if validDigit ptr then
      let num := atoi ptr
      if 0 ≤ num ∧ num ≤ 255 then countDots rest (if rest = List.nil then dots else dots + 1)
      else none
    else none

def isValidIp (s : ByteString) : Bool :=
  match strtok 46 s with
  | [] => false
  | ptr :: rest => countDots (ptr :: rest) 0 == some 3

/-- `none` is a file that cannot be opened. -/
def readLines (file : Option ByteString) : List ByteString :=
  match file with
  | none => List.nil
  | some content => getLines content

namespace ParserLib

variable (lib : ParserLib)

def isFloat (s : ByteString) : Bool := lib.readsFloat s

def readServerParameters (file : Option ByteString) : Parsed ServerParameters :=
  match readLines file with
  | [port,window,seed,loss] =>
    if validDigit port && validDigit window && validDigit seed && lib.isFloat loss then
      match stoi port,stoul window,stoul seed,lib.stof loss with
      | some servPort,some windowSize,some seed,some lossProb =>
        if lossProb < 0 ∨ lossProb > 1 then .rejected
        else .accepted ⟨servPort,UInt32.ofNat windowSize,UInt32.ofNat seed,lossProb⟩
      | _,_,_,_ => .aborted
    else .rejected
  | _ => .rejected

def readClientParameters (file : Option ByteString) : Parsed ClientParameters :=
  match readLines file with
  | [ip,servPort,cliPort,name,window] =>
    if validDigit servPort && validDigit cliPort && isValidIp ip && validDigit window then
      match lib.gethostbyname (cString ip),stoi servPort,stoi cliPort,stoul window with
      | some inAdd,some servPort,some cliPort,some windowSize =>
        .accepted ⟨inAdd,servPort,cliPort,trimCopy name,UInt32.ofNat windowSize⟩
      | _,_,_,_ => .aborted
    else .rejected
  | _ => .rejected

end ParserLib

/-- A library that knows the address 1.1.1.1 and the fraction 0. -/
def smallLib : ParserLib where
  readsFloat s := decide (s = [48])
  stof s := if s = [48] then some 0 else none
  gethostbyname s := if s = [49,46,49,46,49,46,49] then some 0x01010101 else none

/-- A parameter file of a client: 1.1.1.1, both ports 1, the name, and the window. -/
def clientFile (name window : ByteString) : Option ByteString :=
  some ([49,46,49,46,49,46,49,10,49,10,49,10] ++ name ++ 10 :: window)

/-- A parameter file of a server: port 1, the window, seed 1, and no loss. -/
def serverFile (window : ByteString) : Option ByteString :=
  some ([49,10] ++ window ++ [10,49,10,48])

theorem isDigit_ne {b : UInt8} (h : isDigit b = true) : isSpace b = false ∧ b ≠ 43 ∧ b ≠ 45 := by
  simp only [isDigit,Bool.and_eq_true,decide_eq_true_eq,UInt8.le_iff_toNat_le] at h
  have hlo : 48 ≤ b.toNat := h.1
  refine ⟨?_,?_,?_⟩
  · simp only [isSpace,Bool.or_eq_false_iff,Bool.and_eq_false_iff,decide_eq_false_iff_not,
      beq_eq_false_iff_ne,UInt8.le_iff_toNat_le,ne_eq,← UInt8.toNat_inj]
    refine ⟨Or.inr ?_,?_⟩
    · change ¬b.toNat ≤ 13
      omega
    · change ¬b.toNat = 32
      omega
  · rintro rfl
    exact absurd hlo (by decide)
  · rintro rfl
    exact absurd hlo (by decide)

theorem readInteger_digits {s : ByteString} (h : validDigit s = true) :
    readInteger s = if cString s = List.nil then none else some (digitsValue (cString s) : Int) := by
  rw [validDigit] at h
  rw [readInteger]
  generalize cString s = digits at h ⊢
  cases digits with
  | nil => rfl
  | cons b rest =>
    obtain ⟨hspace,hplus,hminus⟩ := isDigit_ne (List.all_eq_true.mp h b List.mem_cons_self)
    have htake : (b :: rest).takeWhile isDigit = b :: rest :=
      List.takeWhile_eq_self_iff.mpr fun c hc => List.all_eq_true.mp h c hc
    have hdrop : (b :: rest).dropWhile isSpace = b :: rest := by simp [hspace]
    rw [hdrop]
    dsimp only
    split
    · next heq => exact absurd (List.cons.inj heq).1 hplus
    · next heq => exact absurd (List.cons.inj heq).1 hminus
    · simp [htake]

/-- What `c_str()` shows of the line has a digit and is below what the conversion can return. -/
structure Converts (bound : Nat) (line : ByteString) : Prop where
  ne_nil : cString line ≠ List.nil
  lt : digitsValue (cString line) < bound

section Conversions

variable {s : ByteString} (h : validDigit s = true)

include h

theorem stoi_eq_some {n : Int} :
    stoi s = some n ↔ Converts (2^31) s ∧ n = digitsValue (cString s) := by
  rw [stoi,readInteger_digits h]
  by_cases hnil : cString s = List.nil
  · rw [if_pos hnil]
    exact ⟨fun hn => absurd hn (by simp),fun hconv => absurd hnil hconv.1.ne_nil⟩
  · rw [if_neg hnil]
    dsimp only
    by_cases hlt : digitsValue (cString s) < 2^31
    · rw [if_pos (by omega),Option.some.injEq,eq_comm]
      exact ⟨fun hn => ⟨⟨hnil,hlt⟩,hn⟩,And.right⟩
    · rw [if_neg (by omega)]
      exact ⟨fun hn => absurd hn (by simp),fun hconv => absurd hconv.1.lt hlt⟩

theorem stoul_eq_some {n : Nat} :
    stoul s = some n ↔ Converts (2^64) s ∧ n = digitsValue (cString s) := by
  rw [stoul,readInteger_digits h]
  by_cases hnil : cString s = List.nil
  · rw [if_pos hnil]
    exact ⟨fun hn => absurd hn (by simp),fun hconv => absurd hnil hconv.1.ne_nil⟩
  · rw [if_neg hnil]
    dsimp only
    rw [Int.natAbs_natCast]
    by_cases hlt : digitsValue (cString s) < 2^64
    · have hmod : ((digitsValue (cString s) : Int) % 2^64).toNat = digitsValue (cString s) := by
        omega
      rw [if_pos hlt,hmod,Option.some.injEq,eq_comm]
      exact ⟨fun hn => ⟨⟨hnil,hlt⟩,hn⟩,And.right⟩
    · rw [if_neg hlt]
      exact ⟨fun hn => absurd hn (by simp),fun hconv => absurd hconv.1.lt hlt⟩

end Conversions

namespace ParserLib

variable {lib : ParserLib}

theorem readServerParameters_window {file : Option ByteString} {params : ServerParameters}
    (h : lib.readServerParameters file = .accepted params) :
    ∃ port window seed loss, readLines file = [port,window,seed,loss] ∧
      params.windowSize = UInt32.ofNat (digitsValue (cString window)) := by
  unfold readServerParameters at h
  split at h
  · next port window seed loss hlines =>
    split at h
    · next hvalid =>
      simp only [Bool.and_eq_true] at hvalid
      split at h
      · next servPort windowSize seed' lossProb hport hwindow hseed hloss =>
        split at h
        · contradiction
        · obtain rfl := Parsed.accepted.inj h
          obtain ⟨-,rfl⟩ := (stoul_eq_some hvalid.1.1.2).mp hwindow
          exact ⟨port,window,seed,loss,hlines,rfl⟩
      · contradiction
    · contradiction
  · contradiction

theorem readClientParameters_fields {file : Option ByteString} {params : ClientParameters}
    (h : lib.readClientParameters file = .accepted params) :
    ∃ ip servPort cliPort name window, readLines file = [ip,servPort,cliPort,name,window] ∧
      params.filename = trimCopy name ∧
      params.windowSize = UInt32.ofNat (digitsValue (cString window)) := by
  unfold readClientParameters at h
  split at h
  · next ip servPort cliPort name window hlines =>
    split at h
    · next hvalid =>
      simp only [Bool.and_eq_true] at hvalid
      split at h
      · next hip hserv hcli hwindow =>
        obtain rfl := Parsed.accepted.inj h
        obtain ⟨-,rfl⟩ := (stoul_eq_some hvalid.2).mp hwindow
        exact ⟨ip,servPort,cliPort,name,window,hlines,rfl,rfl⟩
      · contradiction
    · contradiction
  · contradiction

end ParserLib

end ReliableTransfer
