import ReliableTransfer.Parser.ArgumentParser
import ReliableTransfer.Workers.GoBackN.Frame
import ReliableTransfer.Workers.SelectiveRepeat.Runs
import ReliableTransfer.Workers.SelectiveRepeatCC.Receivers

/-!
# The window setting

Neither parser looks at the window it reads, and both parties compute the end of their window as
a 32-bit sum. A setting stalls a transfer where that sum is not larger than the base.
-/

namespace ReliableTransfer

open Framework

/-- The end of the window lies behind its base. -/
def WindowFits (base window : UInt32) : Prop :=
  0 < window.toNat ∧ base.toNat + window.toNat < 2^32

instance (base window : UInt32) : Decidable (WindowFits base window) :=
  inferInstanceAs (Decidable (_ ∧ _))

theorem lt_window_iff (base window : UInt32) : base < base + window ↔ WindowFits base window := by
  constructor
  · intro h
    have hsum := toNat_window h
    have hfit := (base + window).toNat_lt
    rw [UInt32.lt_iff_toNat_lt] at h
    exact ⟨by omega,by omega⟩
  · intro h
    rw [UInt32.lt_iff_toNat_lt,UInt32.toNat_add,Nat.mod_eq_of_lt h.2]
    exact Nat.lt_add_of_pos_right h.1

/-- With nothing outstanding the next segment can be sent, and the acknowledgement of every
outstanding number passes the window test. -/
structure Unstalled (base seqNo window : UInt32) (hasNext : Bool) (Outstanding : UInt32 → Prop) :
    Prop where
  sends : hasNext = true → (∀ i, ¬Outstanding i) → base + window > seqNo
  accepts : ∀ i, Outstanding i → base ≤ i ∧ i < base + window

/-- A sender whose outstanding numbers are spanned by its window is stalled exactly where the
window wraps around while there is something to send or to wait for. -/
theorem unstalled_iff {base seqNo window : UInt32} {hasNext : Bool} {Outstanding : UInt32 → Prop}
    (hspan : seqNo.toNat ≤ base.toNat + window.toNat)
    (hrange : ∀ i, Outstanding i → base.toNat ≤ i.toNat ∧ i.toNat < seqNo.toNat)
    (hbase : Outstanding base ↔ base ≠ seqNo) :
    Unstalled base seqNo window hasNext Outstanding ↔
      (hasNext = true ∨ base ≠ seqNo → WindowFits base window) := by
  constructor
  · intro h hbusy
    rw [← lt_window_iff]
    by_cases hout : Outstanding base
    · exact (h.accepts base hout).2
    · have heq : base = seqNo := not_not.mp fun hne => hout (hbase.mpr hne)
      have hnone (i : UInt32) (hi : Outstanding i) : False := by
        have hin := hrange i hi
        rw [heq] at hin
        omega
      have hnext := hbusy.resolve_right fun hne => hne heq
      have hopen := h.sends hnext hnone
      rwa [← heq] at hopen
  · intro h
    constructor
    · intro hnext hnone
      have hfits := h (Or.inl hnext)
      have heq : base = seqNo := not_not.mp fun hne => hnone base (hbase.mpr hne)
      rw [← heq]
      exact (lt_window_iff base window).mpr hfits
    · intro i hi
      obtain ⟨hlo,hhi⟩ := hrange i hi
      have hne : base ≠ seqNo := by
        rintro rfl
        omega
      have hfits := h (Or.inr hne)
      refine ⟨UInt32.le_iff_toNat_le.mpr hlo,?_⟩
      rw [UInt32.lt_iff_toNat_lt,UInt32.toNat_add,Nat.mod_eq_of_lt hfits.2]
      omega

def GoBackServer.Outstanding (s : GoBackServer) (i : UInt32) : Prop :=
  s.baseSeqNo.toNat ≤ i.toNat ∧ i.toNat < s.seqNo.toNat

def GoBackServer.Flows (window : UInt32) (s : Sending GoBackServer) : Prop :=
  Unstalled s.worker.baseSeqNo s.worker.seqNo window s.feeder.hasNext s.worker.Outstanding

theorem GoBackServer.Spanned.flows_iff {window : UInt32} {s : Sending GoBackServer}
    (hs : s.worker.Spanned window) : Flows window s ↔
      (s.feeder.hasNext = true ∨ s.worker.baseSeqNo ≠ s.worker.seqNo →
        WindowFits s.worker.baseSeqNo window) := by
  have hcount := hs.count
  apply unstalled_iff hs.seqNo_le
  · intro i hi
    exact hi
  · constructor
    · intro hout heq
      have hlt := hout.2
      rw [heq] at hlt
      exact lt_irrefl _ hlt
    · intro hne
      have hne' : s.worker.baseSeqNo.toNat ≠ s.worker.seqNo.toNat :=
        fun h => hne (UInt32.toNat_inj.mp h)
      exact ⟨le_refl _,by omega⟩

namespace SelectiveRepeat

def Flows (window : UInt32) (s : Sending SelectiveRepeatServer) : Prop :=
  Unstalled s.worker.baseSeqNo s.worker.seqNo window s.feeder.hasNext s.worker.Outstanding

theorem Spanned.flows_iff {window : UInt32} {s : Sending SelectiveRepeatServer}
    (hs : Spanned window s.worker) : Flows window s ↔
      (s.feeder.hasNext = true ∨ s.worker.baseSeqNo ≠ s.worker.seqNo →
        WindowFits s.worker.baseSeqNo window) := by
  apply unstalled_iff hs.seqNo_le
  · intro i hi
    exact ⟨hi.1,hi.2.1⟩
  · exact hs.numbered.outstanding_base

end SelectiveRepeat

namespace RepeatClient

variable {order : ByteOrder} {window : UInt32} {c : RepeatClient}

theorem inWindow_base : c.InWindow window c.baseAckNo ↔ WindowFits c.baseAckNo window := by
  rw [← lt_window_iff]
  constructor
  · intro h
    exact UInt32.not_le.mp h.2
  · intro h
    exact ⟨UInt32.lt_irrefl _,UInt32.not_le.mpr h⟩

theorem recvMessage_base {room : RepeatClient → Bool} {packet : Packet}
    (hsum : verifyChecksum order packet = true) (hseq : packet.seqno = c.baseAckNo) :
    c.recvMessage order window room (.ok packet) ≠ some (c,List.nil) ↔
      WindowFits c.baseAckNo window := by
  have hold : ¬c.Old window packet.seqno := by
    rw [hseq]
    exact fun h => UInt32.lt_irrefl _ h.1
  rw [← inWindow_base,← hseq]
  by_cases hwin : c.InWindow window packet.seqno
  · simp only [RepeatClient.recvMessage,hsum,if_true,hold,if_false,hwin,iff_true]
    split
    · cases extractPureData packet with
      | none => simp
      | some coreData => simp
    · simp
  · simp [RepeatClient.recvMessage,hsum,hold,hwin]

theorem absorbed_iff {room : RepeatClient → Bool} {packet : Packet}
    (hc : c.Confined window) (hroom : ∀ i, c.InWindow window i → room c = true)
    (hsum : verifyChecksum order packet = true) (hseq : packet.seqno = c.baseAckNo)
    (hfits : packet.LenFits) :
    Absorbed order c packet (c.recvMessage order window room (.ok packet)) ↔
      WindowFits c.baseAckNo window := by
  constructor
  · rintro ⟨c',hout,-⟩
    have hheard : c.recvMessage order window room (.ok packet) ≠ some (c,List.nil) := by
      rw [hout]
      simp
    exact (recvMessage_base hsum hseq).mp hheard
  · intro h
    have hin : c.InWindow window packet.seqno := by
      rw [hseq]
      exact inWindow_base.mpr h
    exact recvMessage_absorbed hc.base_notMem (hroom _ hin) hsum hfits hseq hin

end RepeatClient

/-- An accepted window setting, cut to 32 bits, stalls a sender exactly in the states in which
the window wraps around or is empty while there is something to send or to wait for. A receiver
ignores the awaited packet exactly in the states in which its window does, and otherwise it
acknowledges the packet and writes its data or records it as the end marker. -/
theorem window_setting (lib : ParserLib) (order : ByteOrder) :
    (∀ file params, lib.readServerParameters file = .accepted params →
      (∃ port window seed loss, readLines file = [port,window,seed,loss] ∧
        params.windowSize = UInt32.ofNat (digitsValue (cString window))) ∧
      ∀ feeder,
        (∀ s, Sending.RunsTo (GoBackServer.ops params.windowSize) order (fun _ _ => True)
            ⟨⟨0,0,List.nil,⟨0,0⟩⟩,feeder,.head⟩ s →
          (GoBackServer.Flows params.windowSize s ↔
            (s.feeder.hasNext = true ∨ s.worker.baseSeqNo ≠ s.worker.seqNo →
              WindowFits s.worker.baseSeqNo params.windowSize))) ∧
        (∀ s, Sending.RunsTo (RepeatServer.ops SelectiveRepeat.hooks) order (fun _ _ => True)
            ⟨.fresh params.windowSize,feeder,.head⟩ s →
          (SelectiveRepeat.Flows params.windowSize s ↔
            (s.feeder.hasNext = true ∨ s.worker.baseSeqNo ≠ s.worker.seqNo →
              WindowFits s.worker.baseSeqNo params.windowSize)))) ∧
    (∀ file params, lib.readClientParameters file = .accepted params →
      (∃ ip servPort cliPort name window, readLines file = [ip,servPort,cliPort,name,window] ∧
        params.windowSize = UInt32.ofNat (digitsValue (cString window))) ∧
      ∀ room, room = SelectiveRepeat.room ∨ room = SelectiveRepeatCC.room params.windowSize →
      ∀ (c : RepeatClient) packet, verifyChecksum order packet = true →
        packet.seqno = c.baseAckNo →
        (c.recvMessage order params.windowSize room (.ok packet) ≠ some (c,List.nil) ↔
          WindowFits c.baseAckNo params.windowSize) ∧
        ∀ rs, ((RepeatClient.receiver order params.windowSize room).run .fresh rs).state = some c →
          packet.LenFits →
          (RepeatClient.Absorbed order c packet
              (c.recvMessage order params.windowSize room (.ok packet)) ↔
            WindowFits c.baseAckNo params.windowSize)) := by
  constructor
  · intro file params hparams
    refine ⟨ParserLib.readServerParameters_window hparams,fun feeder => ⟨?_,?_⟩⟩
    · intro s hrun
      have hs := (GoBackServer.keeps_spanned params.windowSize _).run
        ⟨rfl,Nat.zero_le _⟩ hrun
      exact hs.flows_iff
    · intro s hrun
      have hs := (SelectiveRepeat.keeps_spanned params.windowSize _).run
        ⟨RepeatServer.fresh_numbered _,rfl,Nat.zero_le _⟩ hrun
      exact hs.flows_iff
  · intro file params hparams
    obtain ⟨ip,servPort,cliPort,name,window,hlines,-,hwindow⟩ :=
      ParserLib.readClientParameters_fields hparams
    refine ⟨⟨ip,servPort,cliPort,name,window,hlines,hwindow⟩,
      fun room hwhich c packet hsum hseq => ⟨RepeatClient.recvMessage_base hsum hseq,?_⟩⟩
    intro rs hrun hfits
    have hc := Receiver.run_keeps (RepeatClient.keeps_confined order params.windowSize room)
      (RepeatClient.fresh_confined params.windowSize) hrun
    refine RepeatClient.absorbed_iff hc (fun i hi => ?_) hsum hseq hfits
    rcases hwhich with rfl | rfl
    · rfl
    · exact hc.room hi

/-- A window of 1 with the packet of a one-byte file outstanding, and a client that takes it in. -/
theorem window_setting_one :
    (∃ s, s.worker.baseSeqNo = 0 ∧ s.worker.seqNo = 1 ∧ GoBackServer.Flows 1 s) ∧
    (∃ s, s.worker.baseSeqNo = 0 ∧ s.worker.seqNo = 1 ∧ SelectiveRepeat.Flows 1 s) ∧
    RepeatClient.Absorbed .little .fresh (filePacket .little [7] 0)
      (RepeatClient.fresh.recvMessage .little 1 (SelectiveRepeatCC.room 1)
        (.ok (filePacket .little [7] 0))) := by
  have hs := (window_setting smallLib .little).1 (serverFile [49]) ⟨1,1,1,0⟩ (by decide)
  have hc := (window_setting smallLib .little).2 (clientFile [97] [49]) ⟨0x01010101,1,1,[97],1⟩ rfl
  obtain ⟨hgoBack,hrepeat⟩ := hs.2 (feederAt [7] 0)
  have hgoBack₁ : ∃ s, Sending.RunsTo (GoBackServer.ops 1) .little (fun _ _ => True)
      ⟨⟨0,0,List.nil,⟨0,0⟩⟩,feederAt [7] 0,.head⟩ s ∧
        (s.worker.baseSeqNo = 0 ∧ s.worker.seqNo = 1) :=
    Sending.run_reaches [.send (calmTick ⟨0,0⟩)] rfl
  have hrepeat₁ : ∃ s, Sending.RunsTo (RepeatServer.ops SelectiveRepeat.hooks) .little
      (fun _ _ => True) ⟨.fresh 1,feederAt [7] 0,.head⟩ s ∧
        (s.worker.baseSeqNo = 0 ∧ s.worker.seqNo = 1) :=
    Sending.run_reaches [.send (calmTick ⟨0,0⟩)] rfl
  obtain ⟨s₁,hrun₁,hbase₁,hseq₁⟩ := hgoBack₁
  obtain ⟨s₂,hrun₂,hbase₂,hseq₂⟩ := hrepeat₁
  refine ⟨⟨s₁,hbase₁,hseq₁,(hgoBack s₁ hrun₁).mpr fun _ => by rw [hbase₁]; decide⟩,
    ⟨s₂,hbase₂,hseq₂,(hrepeat s₂ hrun₂).mpr fun _ => by rw [hbase₂]; decide⟩,?_⟩
  have hroom := hc.2 (SelectiveRepeatCC.room 1) (Or.inr rfl) .fresh (filePacket .little [7] 0)
    (verifyChecksum_filePacket _ _ _) rfl
  exact (hroom.2 List.nil rfl (by decide)).mpr (by decide)

/-- A window of 0 is accepted on both sides; the sender never sends, and the receiver ignores
every packet it awaits. -/
theorem window_zero_stalls :
    smallLib.readServerParameters (serverFile [48]) = .accepted ⟨1,0,1,0⟩ ∧
      ¬GoBackServer.Flows 0 ⟨⟨0,0,List.nil,⟨0,0⟩⟩,feederAt List.nil 0,.head⟩ ∧
      ¬SelectiveRepeat.Flows 0 ⟨.fresh 0,feederAt List.nil 0,.head⟩ ∧
    smallLib.readClientParameters (clientFile [97] [48]) = .accepted ⟨0x01010101,1,1,[97],0⟩ ∧
      RepeatClient.fresh.recvMessage .little 0 SelectiveRepeat.room
        (.ok (filePacket .little List.nil 0)) = some (.fresh,List.nil) := by
  refine ⟨by decide,?_,?_,rfl,?_⟩
  · intro h
    have hopen := h.sends rfl fun i hi => Nat.not_lt_zero _ hi.2
    exact absurd hopen (by decide)
  · intro h
    have hopen := h.sends rfl fun i hi => Nat.not_lt_zero _ hi.2.1
    exact absurd hopen (by decide)
  · by_contra hne
    exact absurd ((RepeatClient.recvMessage_base (verifyChecksum_filePacket _ _ _) rfl).mp hne)
      (by decide)

end ReliableTransfer
