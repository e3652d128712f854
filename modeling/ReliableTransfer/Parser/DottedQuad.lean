import ReliableTransfer.Parser.ArgumentParser

/-!
# Dotted addresses

`is_valid_ip` counts the tokens that `strtok` finds between the dots, and `strtok` skips empty
ones. It compares what `atoi` makes of a token, and `atoi` cuts a long numeral to 32 bits.
-/

namespace ReliableTransfer

structure Numeral (s : ByteString) : Prop where
  ne_nil : s ≠ List.nil
  digits : s.all isDigit = true

/-- Four numerals of at most 255 with exactly three dots, one between each two. -/
def DottedQuad (s : ByteString) : Prop :=
  ∃ a b c d, s = a ++ 46 :: (b ++ 46 :: (c ++ 46 :: d)) ∧
    ∀ run ∈ [a,b,c,d], Numeral run ∧ digitsValue run ≤ 255

theorem Numeral.notMem {s : ByteString} (h : Numeral s) {b : UInt8} (hb : isDigit b = false) :
    b ∉ s := by
  intro hmem
  have hdigit := List.all_eq_true.mp h.digits b hmem
  simp [hb] at hdigit

theorem Numeral.cString {s : ByteString} (h : Numeral s) : cString s = s :=
  cString_eq_self.mpr (h.notMem (by decide))

theorem dottedQuad_iff (s : ByteString) : DottedQuad s ↔ (s.splitOn 46).length = 4 ∧
    ∀ run ∈ s.splitOn 46, Numeral run ∧ digitsValue run ≤ 255 := by
  constructor
  · rintro ⟨a,b,c,d,rfl,hruns⟩
    have hdots : ∀ run ∈ [a,b,c,d], 46 ∉ run := fun run hrun => (hruns run hrun).1.notMem (by decide)
    have hsplit := List.splitOn_intercalate 46 hdots (by simp)
    have hjoin : [46].intercalate [a,b,c,d] = a ++ 46 :: (b ++ 46 :: (c ++ 46 :: d)) := by
      simp [List.intercalate_cons_cons]
    rw [hjoin] at hsplit
    rw [hsplit]
    exact ⟨rfl,hruns⟩
  · rintro ⟨hfour,hruns⟩
    have hjoin : [46].intercalate (s.splitOn 46) = s := List.intercalate_splitOn 46
    obtain ⟨a,b,c,d,hfields⟩ := List.length_eq_four.mp hfour
    rw [hfields] at hruns hjoin
    refine ⟨a,b,c,d,?_,hruns⟩
    rw [← hjoin]
    simp [List.intercalate_cons_cons]

/-- A token that passes both tests of the loop: a numeral that `atoi` makes a number of at most
255. It wraps around from 2^32 on, and saturates from 2^63 on. -/
structure OctetToken (run : ByteString) : Prop where
  numeral : Numeral run
  lt : digitsValue run < 2^63
  wrapped : digitsValue run % 2^32 ≤ 255

theorem atoi_octet {run : ByteString} (h : Numeral run) :
    (0 ≤ atoi run ∧ atoi run ≤ 255) ↔ digitsValue run < 2^63 ∧ digitsValue run % 2^32 ≤ 255 := by
  have hread := readInteger_digits (s := run) (by rw [validDigit,h.cString]; exact h.digits)
  rw [h.cString,if_neg h.ne_nil] at hread
  simp only [atoi,hread,Option.getD_some]
  omega

theorem octetToken_iff {run : ByteString} (hzero : 0 ∉ run) (hne : run ≠ List.nil) :
    OctetToken run ↔ validDigit run = true ∧ 0 ≤ atoi run ∧ atoi run ≤ 255 := by
  rw [validDigit,cString_eq_self.mpr hzero]
  constructor
  · intro h
    exact ⟨h.numeral.digits,(atoi_octet h.numeral).mpr ⟨h.lt,h.wrapped⟩⟩
  · rintro ⟨hdigits,hoctet⟩
    obtain ⟨hlt,hwrapped⟩ := (atoi_octet ⟨hne,hdigits⟩).mp hoctet
    exact ⟨⟨hne,hdigits⟩,hlt,hwrapped⟩

/-- The loop over the tokens: each has to pass, and every one but the last counts as a dot. -/
theorem countDots_eq_some {tokens : List ByteString}
    (h : ∀ run ∈ tokens, 0 ∉ run ∧ run ≠ List.nil) (dots n : Nat) :
    countDots tokens dots = some n ↔
      (∀ run ∈ tokens, OctetToken run) ∧ n = dots + (tokens.length - 1) := by
  induction tokens generalizing dots with
  | nil => simp [countDots,eq_comm]
  | cons ptr rest ih =>
    obtain ⟨hzero,hne⟩ := h ptr List.mem_cons_self
    have hrest := ih fun run hrun => h run (List.mem_cons_of_mem _ hrun)
    have htoken := octetToken_iff hzero hne
    rw [countDots]
    by_cases hdigits : validDigit ptr = true
    · by_cases hoctet : 0 ≤ atoi ptr ∧ atoi ptr ≤ 255
      · rw [if_pos hdigits]
        dsimp only
        rw [if_pos hoctet,hrest,List.forall_mem_cons,iff_true_intro (htoken.mpr ⟨hdigits,hoctet⟩),
          true_and]
        cases rest with
        | nil => simp
        | cons next rest =>
          rw [if_neg (List.cons_ne_nil _ _)]
          simp only [List.length_cons]
          exact and_congr_right fun _ => by omega
      · rw [if_pos hdigits]
        dsimp only
        rw [if_neg hoctet]
        simp [htoken,hoctet]
    · rw [if_neg hdigits]
      simp [htoken,hdigits]

theorem notMem_of_mem_splitOn {s : ByteString} {sep b : UInt8} (h : b ∉ s) {run : ByteString}
    (hrun : run ∈ s.splitOn sep) : b ∉ run := by
  induction s generalizing run with
  | nil =>
    rw [List.splitOn_nil,List.mem_singleton] at hrun
    simp [hrun]
  | cons first s ih =>
    rw [List.mem_cons,not_or] at h
    rw [List.splitOn_cons_eq_if_modifyHead] at hrun
    split at hrun
    · rcases List.mem_cons.mp hrun with rfl | hrun
      · exact List.not_mem_nil
      · exact ih h.2 hrun
    · obtain ⟨head,tail,hsplit⟩ := List.exists_cons_of_ne_nil (List.splitOn_ne_nil sep s)
      rw [hsplit] at hrun ih
      rcases List.mem_cons.mp hrun with rfl | hrun
      · rw [List.mem_cons,not_or]
        exact ⟨h.1,ih h.2 List.mem_cons_self⟩
      · exact ih h.2 (List.mem_cons_of_mem _ hrun)

/-- The fields between the dots that are not empty are four octets. -/
def FourTokens (s : ByteString) : Prop :=
  (s.splitOn 46).countP (· ≠ List.nil) = 4 ∧
    ∀ run ∈ s.splitOn 46, run ≠ List.nil → OctetToken run

theorem isValidIp_iff {s : ByteString} (h : 0 ∉ s) : isValidIp s = true ↔ FourTokens s := by
  have htokens : strtok 46 s = (s.splitOn 46).filter (· ≠ List.nil) := by
    rw [strtok,cString_eq_self.mpr h]
  have hmem : ∀ run ∈ strtok 46 s, 0 ∉ run ∧ run ≠ List.nil := by
    intro run hrun
    rw [htokens,List.mem_filter] at hrun
    exact ⟨notMem_of_mem_splitOn h hrun.1,by simpa using hrun.2⟩
  have hfour : FourTokens s ↔ (strtok 46 s).length = 4 ∧ ∀ run ∈ strtok 46 s, OctetToken run := by
    rw [FourTokens,htokens,List.countP_eq_length_filter]
    simp [List.mem_filter]
  rw [hfour,isValidIp]
  cases hlist : strtok 46 s with
  | nil => simp
  | cons ptr rest =>
    rw [hlist] at hmem
    rw [beq_iff_eq,countDots_eq_some hmem,List.length_cons,and_comm]
    exact and_congr_left fun _ => by omega

theorem countP_of_nil_notMem {s : ByteString} (h : List.nil ∉ s.splitOn 46) :
    (s.splitOn 46).countP (· ≠ List.nil) = (s.splitOn 46).length := by
  rw [List.countP_eq_length]
  intro run hrun
  rw [decide_eq_true_iff]
  exact fun heq => h (heq ▸ hrun)

theorem DottedQuad.fourTokens {s : ByteString} (h : DottedQuad s) : FourTokens s := by
  obtain ⟨hfour,hruns⟩ := (dottedQuad_iff s).mp h
  have hnil : List.nil ∉ s.splitOn 46 := fun hmem => (hruns _ hmem).1.ne_nil rfl
  refine ⟨(countP_of_nil_notMem hnil).trans hfour,fun run hrun _ => ?_⟩
  obtain ⟨hnumeral,hle⟩ := hruns run hrun
  exact ⟨hnumeral,by omega,by omega⟩

theorem DottedQuad.notMem {s : ByteString} (h : DottedQuad s) : 0 ∉ s := by
  obtain ⟨a,b,c,d,rfl,hruns⟩ := h
  have hzero : ∀ run ∈ [a,b,c,d], (0 : UInt8) ∉ run := fun run hrun =>
    (hruns run hrun).1.notMem (by decide)
  simp only [List.mem_cons,List.not_mem_nil,or_false,forall_eq_or_imp,forall_eq] at hzero
  simp [hzero]

theorem DottedQuad.isValidIp {s : ByteString} (h : DottedQuad s) : isValidIp s = true :=
  (isValidIp_iff h.notMem).mpr h.fourTokens

/-- `is_valid_ip` is right about a string exactly if it does not have four octet tokens, or has no
empty field beside them and no number above 255. -/
theorem isValidIp_dottedQuad_iff (s : ByteString) (h : 0 ∉ s) :
    (isValidIp s = true ↔ DottedQuad s) ↔
      (FourTokens s → List.nil ∉ s.splitOn 46 ∧ ∀ run ∈ s.splitOn 46, digitsValue run ≤ 255) := by
  rw [isValidIp_iff h]
  constructor
  · intro hright htokens
    obtain ⟨-,hruns⟩ := (dottedQuad_iff s).mp (hright.mp htokens)
    exact ⟨fun hnil => (hruns _ hnil).1.ne_nil rfl,fun run hrun => (hruns run hrun).2⟩
  · intro hfields
    refine ⟨fun htokens => ?_,DottedQuad.fourTokens⟩
    obtain ⟨hnil,hle⟩ := hfields htokens
    rw [dottedQuad_iff]
    refine ⟨(countP_of_nil_notMem hnil).symm.trans htokens.1,fun run hrun => ⟨?_,hle run hrun⟩⟩
    exact (htokens.2 run hrun fun heq => hnil (heq ▸ hrun)).numeral

/-- "1.1.1.1" -/
theorem isValidIp_dottedQuad_iff_ones :
    0 ∉ ([49,46,49,46,49,46,49] : ByteString) ∧
    ((isValidIp [49,46,49,46,49,46,49] = true ↔ DottedQuad [49,46,49,46,49,46,49]) ↔
      (FourTokens [49,46,49,46,49,46,49] →
        List.nil ∉ ([49,46,49,46,49,46,49] : ByteString).splitOn 46 ∧
        ∀ run ∈ ([49,46,49,46,49,46,49] : ByteString).splitOn 46, digitsValue run ≤ 255)) :=
  ⟨by decide,isValidIp_dottedQuad_iff _ (by decide)⟩

/-- "1..1.1.1" has four dots, and the first number of "4294967297.1.1.1" is 2^32 + 1. -/
theorem isValidIp_loose :
    (isValidIp [49,46,46,49,46,49,46,49] = true ∧ ¬DottedQuad [49,46,46,49,46,49,46,49]) ∧
    (isValidIp [52,50,57,52,57,54,55,50,57,55,46,49,46,49,46,49] = true ∧
      ¬DottedQuad [52,50,57,52,57,54,55,50,57,55,46,49,46,49,46,49]) := by
  refine ⟨⟨by decide,fun h => ?_⟩,⟨by decide,fun h => ?_⟩⟩
  · exact absurd ((dottedQuad_iff _).mp h).1 (by decide)
  · have hle := (((dottedQuad_iff _).mp h).2 [52,50,57,52,57,54,55,50,57,55] (by decide)).2
    exact absurd hle (by decide)

end ReliableTransfer
