import ReliableTransfer.Parser.DottedQuad

/-!
# Rejecting a parameter file

`valid_digit` and `is_valid_ip` check the lines, and then library calls that may throw convert
them. A field takes the number a numeral has only if nothing is cut off on the way.
-/

namespace ReliableTransfer

structure Fits (bound : Nat) (line : ByteString) : Prop where
  numeral : Numeral line
  lt : digitsValue line < bound

structure Stored (bound : Nat) (line : ByteString) (field : Int) : Prop where
  fits : Fits bound line
  value : field = digitsValue line

def ServerParameters.From (lines : List ByteString) (params : ServerParameters) : Prop :=
  ∃ port window seed loss, lines = [port,window,seed,loss] ∧
    Stored 65536 port params.servPort ∧ Stored (2^32) window params.windowSize.toNat ∧
    Stored (2^32) seed params.seed.toNat

def ClientParameters.From (lines : List ByteString) (params : ClientParameters) : Prop :=
  ∃ ip servPort cliPort name window, lines = [ip,servPort,cliPort,name,window] ∧
    Stored 65536 servPort params.servPort ∧ Stored 65536 cliPort params.cliPort ∧
    Stored (2^32) window params.windowSize.toNat

/-- The call returns, and what it accepts is good. -/
structure Parsed.Strict {α : Type} (Good : α → Prop) (result : Parsed α) : Prop where
  returns : result ≠ .aborted
  accepted : ∀ params, result = .accepted params → Good params

/-- A dotted address whose numbers have no leading zero, which would make them octal. -/
structure DottedAddress (s : ByteString) : Prop where
  quad : DottedQuad s
  decimal : ∀ run ∈ s.splitOn 46, run.head? = some 48 → run.length = 1

namespace ParserLib

/-- `isFloat` accepts only what `stof` converts, and `gethostbyname` knows every address that is
written out. -/
structure Sound (lib : ParserLib) : Prop where
  stof : ∀ s, lib.isFloat s = true → (lib.stof s).isSome
  gethostbyname : ∀ s, DottedAddress s → (lib.gethostbyname s).isSome

/-- If the lines pass the checks, the conversions succeed; and if also the probability is one, every
integer line is a numeral in the range of its field. -/
def ServerLines (lib : ParserLib) (lines : List ByteString) : Prop :=
  ∀ port window seed loss, lines = [port,window,seed,loss] →
    validDigit port = true → validDigit window = true → validDigit seed = true →
    lib.isFloat loss = true →
    if (lib.stof loss).any fun p => decide (0 ≤ p ∧ p ≤ 1) then
      Fits 65536 port ∧ Fits (2^32) window ∧ Fits (2^32) seed
    else Converts (2^31) port ∧ Converts (2^64) window ∧ Converts (2^64) seed

/-- If the lines pass the checks, the address is found, and every integer line is a numeral in the
range of its field. -/
def ClientLines (lib : ParserLib) (lines : List ByteString) : Prop :=
  ∀ ip servPort cliPort name window, lines = [ip,servPort,cliPort,name,window] →
    validDigit servPort = true → validDigit cliPort = true → isValidIp ip = true →
    validDigit window = true →
    (DottedAddress ip ∨ (lib.gethostbyname (cString ip)).isSome) ∧
      Fits 65536 servPort ∧ Fits 65536 cliPort ∧ Fits (2^32) window

end ParserLib

theorem Fits.converts {bound bound' : Nat} {line : ByteString} (h : Fits bound line)
    (hle : bound ≤ bound') : Converts bound' line := by
  refine ⟨?_,?_⟩
  · rw [h.numeral.cString]
    exact h.numeral.ne_nil
  · rw [h.numeral.cString]
    exact h.lt.trans_le hle

theorem stored_int_iff {bound : Nat} {line : ByteString} :
    Stored bound line (digitsValue (cString line)) ↔ Fits bound line :=
  ⟨Stored.fits,fun h => ⟨h,by rw [h.numeral.cString]⟩⟩

theorem stored_unsigned_iff {line : ByteString} :
    Stored (2^32) line (UInt32.ofNat (digitsValue (cString line))).toNat ↔ Fits (2^32) line := by
  refine ⟨Stored.fits,fun h => ⟨h,?_⟩⟩
  rw [h.numeral.cString,UInt32.toNat_ofNat_of_lt' h.lt]

section Strict

variable {α : Type} {Good : α → Prop}

theorem Parsed.strict_rejected : (Parsed.rejected : Parsed α).Strict Good :=
  ⟨fun h => absurd h (by simp),fun _ h => absurd h (by simp)⟩

theorem Parsed.not_strict_aborted : ¬(Parsed.aborted : Parsed α).Strict Good :=
  fun h => h.returns rfl

theorem Parsed.strict_accepted {params : α} :
    (Parsed.accepted params).Strict Good ↔ Good params := by
  refine ⟨fun h => h.accepted params rfl,fun h => ⟨fun habort => absurd habort (by simp),?_⟩⟩
  rintro params' heq
  exact Parsed.accepted.inj heq ▸ h

end Strict

theorem ServerParameters.from_iff {port window seed loss : ByteString} {lossProb : ℚ} :
    ServerParameters.From [port,window,seed,loss] ⟨digitsValue (cString port),
        UInt32.ofNat (digitsValue (cString window)),UInt32.ofNat (digitsValue (cString seed)),
        lossProb⟩ ↔
      Fits 65536 port ∧ Fits (2^32) window ∧ Fits (2^32) seed := by
  rw [← stored_int_iff,← stored_unsigned_iff,← stored_unsigned_iff]
  constructor
  · rintro ⟨_,_,_,_,hlines,hstored⟩
    obtain ⟨rfl,rfl,rfl,-⟩ : _ ∧ _ ∧ _ ∧ _ := by simpa using hlines
    exact hstored
  · intro hstored
    exact ⟨port,window,seed,loss,rfl,hstored⟩

theorem ClientParameters.from_iff {ip servPort cliPort name window filename : ByteString}
    {inAdd : UInt32} :
    ClientParameters.From [ip,servPort,cliPort,name,window] ⟨inAdd,
        digitsValue (cString servPort),digitsValue (cString cliPort),filename,
        UInt32.ofNat (digitsValue (cString window))⟩ ↔
      Fits 65536 servPort ∧ Fits 65536 cliPort ∧ Fits (2^32) window := by
  rw [← stored_int_iff,← stored_int_iff,← stored_unsigned_iff]
  constructor
  · rintro ⟨_,_,_,_,_,hlines,hstored⟩
    obtain ⟨-,rfl,rfl,-,rfl⟩ : _ ∧ _ ∧ _ ∧ _ ∧ _ := by simpa using hlines
    exact hstored
  · intro hstored
    exact ⟨ip,servPort,cliPort,name,window,rfl,hstored⟩

namespace ParserLib

variable {lib : ParserLib}

section Server

variable {file : Option ByteString} {port window seed loss : ByteString}
  (hlines : readLines file = [port,window,seed,loss]) (hport : validDigit port = true)
  (hwindow : validDigit window = true) (hseed : validDigit seed = true)
  (hfloat : lib.isFloat loss = true)

include hlines hport hwindow hseed hfloat

theorem readServerParameters_converted {lossProb : ℚ} (hloss : lib.stof loss = some lossProb)
    (hconv : Converts (2^31) port ∧ Converts (2^64) window ∧ Converts (2^64) seed) :
    lib.readServerParameters file =
      if lossProb < 0 ∨ lossProb > 1 then .rejected
      else .accepted ⟨digitsValue (cString port),UInt32.ofNat (digitsValue (cString window)),
        UInt32.ofNat (digitsValue (cString seed)),lossProb⟩ := by
  simp only [readServerParameters,hlines,hport,hwindow,hseed,hfloat,Bool.and_self,if_true,
    (stoi_eq_some hport).mpr ⟨hconv.1,rfl⟩,(stoul_eq_some hwindow).mpr ⟨hconv.2.1,rfl⟩,
    (stoul_eq_some hseed).mpr ⟨hconv.2.2,rfl⟩,hloss]

theorem readServerParameters_aborted
    (hconv : ¬(Converts (2^31) port ∧ Converts (2^64) window ∧ Converts (2^64) seed)) :
    lib.readServerParameters file = .aborted := by
  simp only [readServerParameters,hlines,hport,hwindow,hseed,hfloat,Bool.and_self,if_true]
  split
  · next hp hw hs _ =>
    exact absurd ⟨((stoi_eq_some hport).mp hp).1,((stoul_eq_some hwindow).mp hw).1,
      ((stoul_eq_some hseed).mp hs).1⟩ hconv
  · rfl

end Server

theorem readServerParameters_unchecked {file : Option ByteString}
    (h : ∀ port window seed loss, readLines file = [port,window,seed,loss] →
      ¬(validDigit port = true ∧ validDigit window = true ∧ validDigit seed = true ∧
        lib.isFloat loss = true)) :
    lib.readServerParameters file = .rejected := by
  unfold readServerParameters
  split
  · next port window seed loss hlines =>
    have hchecks := h port window seed loss hlines
    rw [if_neg (by simpa [and_assoc] using hchecks)]
  · rfl

theorem readServerParameters_strict_iff (hlib : lib.Sound) (file : Option ByteString) :
    (lib.readServerParameters file).Strict (ServerParameters.From (readLines file)) ↔
      lib.ServerLines (readLines file) := by
  by_cases hchecks : ∃ port window seed loss, readLines file = [port,window,seed,loss] ∧
      validDigit port = true ∧ validDigit window = true ∧ validDigit seed = true ∧
      lib.isFloat loss = true
  · obtain ⟨port,window,seed,loss,hlines,hport,hwindow,hseed,hfloat⟩ := hchecks
    obtain ⟨lossProb,hloss⟩ := Option.isSome_iff_exists.mp (hlib.stof loss hfloat)
    have hgood : lib.ServerLines (readLines file) ↔
        if 0 ≤ lossProb ∧ lossProb ≤ 1 then
          Fits 65536 port ∧ Fits (2^32) window ∧ Fits (2^32) seed
        else Converts (2^31) port ∧ Converts (2^64) window ∧ Converts (2^64) seed := by
      simp only [ServerLines,hlines,List.cons.injEq,and_true]
      constructor
      · intro h
        simpa [hloss] using h port window seed loss ⟨rfl,rfl,rfl,rfl⟩ hport hwindow hseed hfloat
      · rintro h _ _ _ _ ⟨rfl,rfl,rfl,rfl⟩ - - - -
        simpa [hloss] using h
    rw [hgood]
    by_cases hconv : Converts (2^31) port ∧ Converts (2^64) window ∧ Converts (2^64) seed
    · rw [readServerParameters_converted hlines hport hwindow hseed hfloat hloss hconv]
      by_cases hprob : 0 ≤ lossProb ∧ lossProb ≤ 1
      · have hin : ¬(lossProb < 0 ∨ lossProb > 1) := by
          rw [not_or]
          exact ⟨not_lt.mpr hprob.1,not_lt.mpr hprob.2⟩
        rw [if_neg hin,if_pos hprob,Parsed.strict_accepted,hlines,ServerParameters.from_iff]
      · have hout : lossProb < 0 ∨ lossProb > 1 := by
          rw [not_and_or,not_le,not_le] at hprob
          exact hprob
        rw [if_pos hout,if_neg hprob]
        exact iff_of_true Parsed.strict_rejected hconv
    · rw [readServerParameters_aborted hlines hport hwindow hseed hfloat hconv]
      refine iff_of_false Parsed.not_strict_aborted fun h => hconv ?_
      split at h
      · exact ⟨h.1.converts (by decide),h.2.1.converts (by decide),h.2.2.converts (by decide)⟩
      · exact h
  · rw [readServerParameters_unchecked fun port window seed loss hlines h =>
      hchecks ⟨port,window,seed,loss,hlines,h⟩]
    refine iff_of_true Parsed.strict_rejected ?_
    intro port window seed loss hlines hport hwindow hseed hfloat
    exact absurd ⟨port,window,seed,loss,hlines,hport,hwindow,hseed,hfloat⟩ hchecks

section Client

variable {file : Option ByteString} {ip servPort cliPort name window : ByteString}
  (hlines : readLines file = [ip,servPort,cliPort,name,window])
  (hserv : validDigit servPort = true) (hcli : validDigit cliPort = true)
  (hip : isValidIp ip = true) (hwindow : validDigit window = true)

include hlines hserv hcli hip hwindow

theorem readClientParameters_converted {inAdd : UInt32}
    (haddr : lib.gethostbyname (cString ip) = some inAdd)
    (hconv : Converts (2^31) servPort ∧ Converts (2^31) cliPort ∧ Converts (2^64) window) :
    lib.readClientParameters file = .accepted ⟨inAdd,digitsValue (cString servPort),
      digitsValue (cString cliPort),trimCopy name,UInt32.ofNat (digitsValue (cString window))⟩ := by
  simp only [readClientParameters,hlines,hserv,hcli,hip,hwindow,Bool.and_self,if_true,haddr,
    (stoi_eq_some hserv).mpr ⟨hconv.1,rfl⟩,(stoi_eq_some hcli).mpr ⟨hconv.2.1,rfl⟩,
    (stoul_eq_some hwindow).mpr ⟨hconv.2.2,rfl⟩]

theorem readClientParameters_aborted
    (hconv : ¬((lib.gethostbyname (cString ip)).isSome ∧ Converts (2^31) servPort ∧
      Converts (2^31) cliPort ∧ Converts (2^64) window)) :
    lib.readClientParameters file = .aborted := by
  simp only [readClientParameters,hlines,hserv,hcli,hip,hwindow,Bool.and_self,if_true]
  split
  · next ha hs hc hw =>
    exact absurd ⟨Option.isSome_iff_exists.mpr ⟨_,ha⟩,((stoi_eq_some hserv).mp hs).1,
      ((stoi_eq_some hcli).mp hc).1,((stoul_eq_some hwindow).mp hw).1⟩ hconv
  · rfl

end Client

theorem readClientParameters_unchecked {file : Option ByteString}
    (h : ∀ ip servPort cliPort name window,
      readLines file = [ip,servPort,cliPort,name,window] →
      ¬(validDigit servPort = true ∧ validDigit cliPort = true ∧ isValidIp ip = true ∧
        validDigit window = true)) :
    lib.readClientParameters file = .rejected := by
  unfold readClientParameters
  split
  · next ip servPort cliPort name window hlines =>
    have hchecks := h ip servPort cliPort name window hlines
    rw [if_neg (by simpa [and_assoc] using hchecks)]
  · rfl

theorem Sound.found_iff (hlib : lib.Sound) (ip : ByteString) :
    DottedAddress ip ∨ (lib.gethostbyname (cString ip)).isSome ↔
      (lib.gethostbyname (cString ip)).isSome := by
  refine ⟨fun h => h.elim (fun haddr => ?_) id,Or.inr⟩
  rw [cString_eq_self.mpr haddr.quad.notMem]
  exact hlib.gethostbyname ip haddr

theorem readClientParameters_strict_iff (hlib : lib.Sound) (file : Option ByteString) :
    (lib.readClientParameters file).Strict (ClientParameters.From (readLines file)) ↔
      lib.ClientLines (readLines file) := by
  by_cases hchecks : ∃ ip servPort cliPort name window,
      readLines file = [ip,servPort,cliPort,name,window] ∧ validDigit servPort = true ∧
      validDigit cliPort = true ∧ isValidIp ip = true ∧ validDigit window = true
  · obtain ⟨ip,servPort,cliPort,name,window,hlines,hserv,hcli,hip,hwindow⟩ := hchecks
    have hgood : lib.ClientLines (readLines file) ↔ (lib.gethostbyname (cString ip)).isSome ∧
        Fits 65536 servPort ∧ Fits 65536 cliPort ∧ Fits (2^32) window := by
      simp only [ClientLines,hlines,List.cons.injEq,and_true]
      constructor
      · intro h
        have hall := h ip servPort cliPort name window ⟨rfl,rfl,rfl,rfl,rfl⟩ hserv hcli hip hwindow
        exact ⟨(hlib.found_iff ip).mp hall.1,hall.2⟩
      · rintro h _ _ _ _ _ ⟨rfl,rfl,rfl,rfl,rfl⟩ - - - -
        exact ⟨Or.inr h.1,h.2⟩
    rw [hgood]
    by_cases hconv : (lib.gethostbyname (cString ip)).isSome ∧ Converts (2^31) servPort ∧
        Converts (2^31) cliPort ∧ Converts (2^64) window
    · obtain ⟨inAdd,haddr⟩ := Option.isSome_iff_exists.mp hconv.1
      rw [readClientParameters_converted hlines hserv hcli hip hwindow haddr hconv.2,
        Parsed.strict_accepted,hlines,ClientParameters.from_iff,haddr,Option.isSome_some]
      simp only [true_and]
    · rw [readClientParameters_aborted hlines hserv hcli hip hwindow hconv]
      refine iff_of_false Parsed.not_strict_aborted fun h => hconv ⟨h.1,?_⟩
      exact ⟨h.2.1.converts (by decide),h.2.2.1.converts (by decide),
        h.2.2.2.converts (by decide)⟩
  · rw [readClientParameters_unchecked fun ip servPort cliPort name window hlines h =>
      hchecks ⟨ip,servPort,cliPort,name,window,hlines,h⟩]
    refine iff_of_true Parsed.strict_rejected ?_
    intro ip servPort cliPort name window hlines hserv hcli hip hwindow
    exact absurd ⟨ip,servPort,cliPort,name,window,hlines,hserv,hcli,hip,hwindow⟩ hchecks

/-- Both calls return, and accept only integer fields that are the numerals of their lines, exactly
on these lines. -/
theorem parameters_strict_iff (lib : ParserLib) (hlib : lib.Sound) (file : Option ByteString) :
    ((lib.readServerParameters file).Strict (ServerParameters.From (readLines file)) ↔
      lib.ServerLines (readLines file)) ∧
    ((lib.readClientParameters file).Strict (ClientParameters.From (readLines file)) ↔
      lib.ClientLines (readLines file)) :=
  ⟨readServerParameters_strict_iff hlib file,readClientParameters_strict_iff hlib file⟩

end ParserLib

def numericLib : ParserLib where
  readsFloat s := decide (s = [48])
  stof s := if s = [48] then some 0 else none
  gethostbyname s :=
    if isValidIp s then
      some ((strtok 46 s).foldl (fun addr run => addr <<< 8 ||| UInt32.ofNat (digitsValue run)) 0)
    else none

theorem numericLib_sound : numericLib.Sound where
  stof s h := by
    have hzero : s = [48] := of_decide_eq_true h
    simp [numericLib,hzero]
  gethostbyname s h := by
    simp [numericLib,h.quad.isValidIp]

theorem parameters_strict_iff_ones :
    (numericLib.readServerParameters (serverFile [49])).Strict
        (ServerParameters.From (readLines (serverFile [49]))) ∧
      numericLib.readServerParameters (serverFile [49]) = .accepted ⟨1,1,1,0⟩ ∧
    (numericLib.readClientParameters (clientFile [97] [49])).Strict
        (ClientParameters.From (readLines (clientFile [97] [49]))) ∧
      numericLib.readClientParameters (clientFile [97] [49]) =
        .accepted ⟨0x01010101,1,1,[97],1⟩ := by
  have hone (bound : Nat) (h : 1 < bound) : Fits bound [49] := ⟨⟨by decide,by decide⟩,h⟩
  have hserver := (ParserLib.parameters_strict_iff numericLib numericLib_sound (serverFile [49])).1
  have hclient :=
    (ParserLib.parameters_strict_iff numericLib numericLib_sound (clientFile [97] [49])).2
  have hlines₁ : readLines (serverFile [49]) = [[49],[49],[49],[48]] := by decide
  have hlines₂ : readLines (clientFile [97] [49]) =
      [[49,46,49,46,49,46,49],[49],[49],[97],[49]] := by decide
  refine ⟨hserver.mpr ?_,by decide,hclient.mpr ?_,by decide⟩
  · rw [hlines₁]
    rintro _ _ _ _ ⟨⟩ - - - -
    exact ⟨hone _ (by decide),hone _ (by decide),hone _ (by decide)⟩
  · rw [hlines₂]
    rintro _ _ _ _ _ ⟨⟩ - - - -
    exact ⟨Or.inr (by decide),hone _ (by decide),hone _ (by decide),hone _ (by decide)⟩

/-- An empty line in place of a server's port or a client's window ends the program, port 65536 is
accepted, and a window of 2^32 is accepted as 0. -/
theorem parameters_not_strict : numericLib.Sound ∧
    numericLib.readServerParameters (some [10,49,10,49,10,48]) = .aborted ∧
    numericLib.readClientParameters (clientFile [97] [10]) = .aborted ∧
    numericLib.readServerParameters (some [54,53,53,51,54,10,49,10,49,10,48]) =
      .accepted ⟨65536,1,1,0⟩ ∧
    numericLib.readServerParameters (serverFile [52,50,57,52,57,54,55,50,57,54]) =
      .accepted ⟨1,0,1,0⟩ ∧
    ¬(numericLib.readServerParameters (serverFile [52,50,57,52,57,54,55,50,57,54])).Strict
      (ServerParameters.From (readLines (serverFile [52,50,57,52,57,54,55,50,57,54]))) := by
  have hcut : numericLib.readServerParameters (serverFile [52,50,57,52,57,54,55,50,57,54]) =
      .accepted ⟨1,0,1,0⟩ := by decide
  refine ⟨numericLib_sound,by decide,by decide,by decide,hcut,fun h => ?_⟩
  obtain ⟨port,window,seed,loss,hlines,-,hwindow,-⟩ := h.accepted _ hcut
  have hsecond : window = [52,50,57,52,57,54,55,50,57,54] := by
    have hread : readLines (serverFile [52,50,57,52,57,54,55,50,57,54]) =
        [[49],[52,50,57,52,57,54,55,50,57,54],[49],[48]] := by decide
    rw [hread] at hlines
    exact (List.cons.inj (List.cons.inj hlines).2).1.symm
  have hlt := hwindow.fits.lt
  rw [hsecond] at hlt
  exact absurd hlt (by decide)

end ReliableTransfer
