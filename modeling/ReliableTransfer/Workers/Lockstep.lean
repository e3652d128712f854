import ReliableTransfer.Workers.GoBackN.Progress
import ReliableTransfer.Workers.Pair
import ReliableTransfer.Workers.SelectiveRepeatCC.Congestion
import ReliableTransfer.Workers.SelectiveRepeatCC.Correspondence
import ReliableTransfer.Workers.StopWait.Progress

/-!
# One packet at a time

As long as nothing is lost, a server can send its packets one at a time and wait for each to be
acknowledged. Then it makes no difference which protocol either end runs.
-/

namespace ReliableTransfer

open Framework

variable {order : ByteOrder} {file : List UInt8} {n : UInt32}

theorem eq_of_below {a b : UInt32} (h : ∀ m : UInt32, m.toNat < a.toNat ↔ m.toNat < b.toNat) :
    a = b := by
  have hab := (h a).mpr.mt (lt_irrefl _)
  have hba := (h b).mp.mt (lt_irrefl _)
  exact UInt32.toNat_inj.mp (le_antisymm (not_lt.mp hba) (not_lt.mp hab))

namespace ClientWorker

def Opens (n : UInt32) : ClientWorker → Prop
  | .selectiveRepeat window _ => n < n + window
  | .selectiveRepeatCC window _ => n < n + window
  | _ => True

structure Expects (order : ByteOrder) (file : List UInt8) (n : UInt32) (k : ClientWorker) : Prop where
  holds : k.Holds order file
  got : ∀ m, k.Got file m ↔ m.toNat < n.toNat
  opens : ∀ m : UInt32, m.toNat ≤ numSegments file → k.Opens m

theorem stopWait_expected {c : StopWaitClient} (hc : c.Consumed order file)
    (hgot : ∀ m : UInt32, m.toNat < c.ackNo.toNat ↔ m.toNat < n.toNat)
    (hn : n.toNat ≤ numSegments file) (hfile : numSegments file + 1 < 2^32) :
    ∃ c', accept order (.stopWait c) (filePacket order file n) =
        some (.stopWait c',[createAckPacket n]) ∧
      c'.Consumed order file ∧ c'.ackNo.toNat = n.toNat + 1 := by
  obtain rfl := eq_of_below hgot
  have hended : c.ended = false := by
    rw [← Bool.not_eq_true,hc.ended]
    omega
  obtain ⟨c',hrun,hc',hsucc⟩ := hc.expected (by omega) hended
  refine ⟨c',?_,hc',hsucc⟩
  rw [accept,returned,hended]
  simp only [Bool.false_eq_true,if_false,recvMessage,hrun,Option.map_some]

theorem goBackN_expected {c : GoBackClient} (hc : c.Consumed order file)
    (hgot : ∀ m : UInt32, m.toNat < c.baseAckNo.toNat ↔ m.toNat < n.toNat)
    (hn : n.toNat ≤ numSegments file) (hfile : numSegments file + 1 < 2^32) :
    ∃ c', accept order (.goBackN c) (filePacket order file n) =
        some (.goBackN c',[createAckPacket n]) ∧
      c'.Consumed order file ∧ c'.baseAckNo.toNat = n.toNat + 1 := by
  obtain rfl := eq_of_below hgot
  have hended : c.ended = false := by
    rw [← Bool.not_eq_true,hc.ended]
    omega
  obtain ⟨c',hrun,hc',hsucc⟩ := hc.expected (by omega) hended
  rw [GoBackClient.recvMessage_of_accept hended] at hrun
  refine ⟨c',?_,hc',hsucc⟩
  rw [accept,returned,hended]
  simp only [Bool.false_eq_true,if_false,recvMessage,hrun,Option.map_some]

theorem repeat_base {window : UInt32} {c : RepeatClient} (hc : c.Holding order file window)
    (hgot : ∀ m, c.Got file m ↔ m.toNat < n.toNat) (hn : n.toNat ≤ numSegments file) :
    c.baseAckNo = n ∧ c.returned = false := by
  have hbase : c.baseAckNo = n := by
    apply eq_of_below
    intro m
    refine ⟨fun hm => (hgot m).mp (Or.inl (Or.inl hm)),fun hm => ?_⟩
    by_contra hlt
    have hbase : c.Got file c.baseAckNo := (hgot _).mpr ((not_lt.mp hlt).trans_lt hm)
    rcases hbase with (hlt | hmem) | ⟨hnum,-⟩
    · exact lt_irrefl _ hlt
    · exact hc.base_notMem hmem
    · omega
  refine ⟨hbase,?_⟩
  by_contra hret
  rw [Bool.not_eq_false,RepeatClient.returned,Bool.and_eq_true,beq_iff_eq] at hret
  have hlast := hc.last hret.1
  have hmarker := (hgot c.lastAckNo).mp (Or.inr ⟨hlast,hret.1,rfl⟩)
  omega

theorem repeat_expected {window : UInt32} {room : RepeatClient → Bool}
    (hroom : RepeatServer.Roomy order file window room) {c : RepeatClient}
    (hc : c.Holding order file window) (hgot : ∀ m, c.Got file m ↔ m.toNat < n.toNat)
    (hn : n.toNat ≤ numSegments file) (hfile : numSegments file + 1 < 2^32)
    (hopen : n < n + window) :
    c.returned = false ∧ ∃ c', c.recvMessage order window room (.ok (filePacket order file n)) =
        some (c',[createAckPacket n]) ∧
      c'.Holding order file window ∧ ∀ m, c'.Got file m ↔ m.toNat < n.toNat + 1 := by
  obtain ⟨hbase,hret⟩ := repeat_base hc hgot hn
  have hin : c.InWindow window n := by
    rw [RepeatClient.InWindow,hbase]
    exact ⟨UInt32.lt_irrefl _,UInt32.not_le.mpr hopen⟩
  have hans : c.Answers window n := Or.inr hin
  obtain ⟨c',hrun,hacc⟩ := hc.accept hret (fun hc hpos => hroom c hc hpos) hn (by omega)
  rw [RepeatClient.recvMessage_of_accept hret,if_pos hans] at hrun
  refine ⟨hret,c',hrun,hacc.holding,fun m => ?_⟩
  rw [hacc.got,hgot]
  have hm : m = n ↔ m.toNat = n.toNat := UInt32.toNat_inj.symm
  rw [hm,and_iff_right hin]
  omega

theorem Expects.accept {k : ClientWorker} (hk : k.Expects order file n)
    (hn : n.toNat ≤ numSegments file) (hfile : numSegments file + 1 < 2^32) :
    ∃ k', k.accept order (filePacket order file n) = some (k',[createAckPacket n]) ∧
      k'.Expects order file (n + 1) := by
  have hsucc : (n + 1).toNat = n.toNat + 1 := toNat_add_one (by omega)
  have hopen := hk.opens n hn
  cases k with
  | stopWait c =>
    obtain ⟨c',hrun,hc',hack⟩ := stopWait_expected hk.holds hk.got hn hfile
    refine ⟨.stopWait c',hrun,hc',fun m => ?_,fun _ _ => trivial⟩
    rw [hsucc,← hack]
    exact Iff.rfl
  | goBackN c =>
    obtain ⟨c',hrun,hc',hack⟩ := goBackN_expected hk.holds hk.got hn hfile
    refine ⟨.goBackN c',hrun,hc',fun m => ?_,fun _ _ => trivial⟩
    rw [hsucc,← hack]
    exact Iff.rfl
  | selectiveRepeat window c =>
    obtain ⟨hret,c',hrun,hc',hgot⟩ := repeat_expected (SelectiveRepeat.roomy order file window)
      hk.holds hk.got hn hfile hopen
    refine ⟨.selectiveRepeat window c',?_,hc',fun m => ?_,hk.opens⟩
    · rw [ClientWorker.accept,returned,hret]
      simp only [Bool.false_eq_true,if_false,recvMessage,hrun,Option.map_some]
    · rw [hsucc]
      exact hgot m
  | selectiveRepeatCC window c =>
    obtain ⟨hret,c',hrun,hc',hgot⟩ := repeat_expected (SelectiveRepeatCC.roomy order file window)
      hk.holds hk.got hn hfile hopen
    refine ⟨.selectiveRepeatCC window c',?_,hc',fun m => ?_,hk.opens⟩
    · rw [ClientWorker.accept,returned,hret]
      simp only [Bool.false_eq_true,if_false,recvMessage,hrun,Option.map_some]
    · rw [hsucc]
      exact hgot m

structure Complete (order : ByteOrder) (file : List UInt8) (k : ClientWorker) : Prop where
  holds : k.Holds order file
  got : ∀ m : UInt32, m.toNat ≤ numSegments file → k.Got file m

theorem Complete.returned {k : ClientWorker} (hk : k.Complete order file)
    (hfile : numSegments file + 1 < 2^32) : k.returned = true :=
  hk.holds.returned_of_got (by omega) hk.got

theorem Expects.complete {k : ClientWorker} (hk : k.Expects order file n)
    (hn : n.toNat = numSegments file + 1) : k.Complete order file where
  holds := hk.holds
  got m hm := (hk.got m).mpr ((Nat.lt_succ_of_le hm).trans_eq hn.symm)

end ClientWorker

/-- `Rest n` holds of a worker that has numbered the packets below `n` and had them all
acknowledged. -/
structure SenderOps.Steady {σ : Type} (ops : SenderOps σ) (order : ByteOrder) (file : List UInt8)
    (Rest : UInt32 → σ → Prop) : Prop where
  quiet : ops.Quiet fun w => ∃ n, Rest n w
  seqNo : ∀ {n w}, Rest n w → ops.seqNo w = n
  opens : ∀ {n w}, Rest n w → n.toNat ≤ numSegments file → ops.windowOpen w = true
  /-- It sends the next packet and takes its acknowledgement. -/
  acked : ∀ {n w} (t : Timeval), Rest n w → n.toNat ≤ numSegments file →
    ∃ t' w', ops.receiveAck (arrival t' (createAckPacket n)) (Sending.sendNext ops order file t w) =
      some (true,w') ∧ Rest (n + 1) w'
  done : ∀ {n w}, Rest n w → n.toNat = numSegments file + 1 → ops.pending w = false

namespace Sending

variable {σ : Type} {ops : SenderOps σ} {Rest : UInt32 → σ → Prop}

structure Resting (file : List UInt8) (Rest : UInt32 → σ → Prop) (n : UInt32) (s : Sending σ) :
    Prop where
  worker : Rest n s.worker
  feeder : s.feeder = feederAt file n.toNat
  loc : s.loc = .head ∨ s.loc = .drain .afterSend

variable {s : Sending σ} {k : ClientWorker} {D : Multiset Packet} {A : Multiset AckPacket}

theorem Resting.good (hs : s.Resting file Rest n) (hops : ops.Steady order file Rest)
    (hn : n.toNat ≤ numSegments file + 1) : s.Good ops file fun w => ∃ n, Rest n w where
  worker := ⟨n,hs.worker⟩
  seqNo_le := by
    rw [hops.seqNo hs.worker]
    exact hn
  feeder _ := by
    rw [hops.seqNo hs.worker]
    exact hs.feeder
  closing h := by rcases hs.loc with hloc | hloc <;> simp [hloc,Loc.Closing] at h
  done h := by rcases hs.loc with hloc | hloc <;> simp [hloc] at h

theorem Resting.taken (hs : s.Resting file Rest n) (hops : ops.Steady order file Rest)
    (hk : k.Expects order file n) (hn : n.toNat ≤ numSegments file)
    (hfile : numSegments file + 1 < 2^32) :
    ∃ k', (Pair.windowed order ops).CalmRun ⟨s,k,D,A⟩
        ⟨⟨sendNext ops order file ⟨0,0⟩ s.worker,feederAt file (n.toNat + 1),.drain .afterSend⟩,k',D,
          createAckPacket n ::ₘ A⟩ ∧
      k'.Expects order file (n + 1) := by
  have hseq := hops.seqNo hs.worker
  obtain ⟨k',hk',hexpects⟩ := hk.accept hn hfile
  have hsent := reach_send order (ClientWorker.accept order) (c := k) (D := D) (A := A) hops.quiet
    (hs.good hops (Nat.le_succ_of_le hn))
    (fun failed => by rcases hs.loc with hloc | hloc <;> simp [hloc]) (by rw [hseq]; exact hn)
    (hops.opens hs.worker hn) ⟨0,0⟩
  rw [hseq] at hsent
  have htaken : (Pair.windowed order ops).CalmRun ⟨s,k,D,A⟩ _ :=
    hsent.trans (.single (.accept hk'))
  rw [Multiset.coe_singleton,add_comm A,Multiset.singleton_add] at htaken
  exact ⟨k',htaken,hexpects⟩

theorem Resting.round (hs : s.Resting file Rest n) (hops : ops.Steady order file Rest)
    (hk : k.Expects order file n) (hn : n.toNat ≤ numSegments file)
    (hfile : numSegments file + 1 < 2^32) :
    ∃ s' k', (Pair.windowed order ops).CalmRun ⟨s,k,D,A⟩ ⟨s',k',D,A⟩ ∧
      s'.Resting file Rest (n + 1) ∧ k'.Expects order file (n + 1) := by
  have hsucc : (n + 1).toNat = n.toNat + 1 := toNat_add_one (by omega)
  obtain ⟨k',htaken,hexpects⟩ := hs.taken (D := D) (A := A) hops hk hn hfile
  obtain ⟨t,w,hrecv,hrest⟩ := hops.acked ⟨0,0⟩ hs.worker hn
  obtain ⟨loc,hack,-,hloc⟩ := run_ack ops order (ClientWorker.accept order)
    (s := ⟨sendNext ops order file ⟨0,0⟩ s.worker,feederAt file (n.toNat + 1),.drain .afterSend⟩)
    (c := k') (D := D) (A := createAckPacket n ::ₘ A) rfl (Multiset.mem_cons_self _ _) hrecv
  obtain rfl := hloc rfl
  rw [Multiset.erase_cons_head] at hack
  refine ⟨_,k',htaken.trans hack,⟨hrest,?_,Or.inr rfl⟩,hexpects⟩
  change feederAt file (n.toNat + 1) = feederAt file (n + 1).toNat
  rw [hsucc]

/-- Packet after packet, up to the end of both loops. -/
theorem Resting.complete (hs : s.Resting file Rest n) (hops : ops.Steady order file Rest)
    (hk : k.Expects order file n) (hn : n.toNat ≤ numSegments file + 1)
    (hfile : numSegments file + 1 < 2^32) :
    ∃ s' k', (Pair.windowed order ops).CalmRun ⟨s,k,D,A⟩ ⟨s',k',D,A⟩ ∧
      s'.loc = .returned false ∧ k'.Complete order file := by
  obtain ⟨rest,hrest⟩ := Nat.exists_eq_add_of_le hn
  induction rest generalizing n s k with
  | zero =>
    have hclosed := run_close order (ClientWorker.accept order) (c := k) (D := D) (A := A)
      hops.quiet (hs.good hops hn) (by rcases hs.loc with hloc | hloc <;> simp [hloc])
      (by rw [hops.seqNo hs.worker]; exact hrest.symm) (hops.done hs.worker hrest.symm)
    exact ⟨_,k,hclosed,rfl,hk.complete hrest.symm⟩
  | succ rest ih =>
    have hle : n.toNat ≤ numSegments file := by omega
    have hsucc : (n + 1).toNat = n.toNat + 1 := toNat_add_one (by omega)
    obtain ⟨s₁,k₁,hrun,hs₁,hk₁⟩ := hs.round (D := D) (A := A) hops hk hle hfile
    obtain ⟨s',k',hrun',hret,hgot⟩ := ih hs₁ hk₁ (by omega) (by omega)
    exact ⟨s',k',hrun.trans hrun',hret,hgot⟩

end Sending

theorem lt_add_of_fits {n window : UInt32} (hwindow : 0 < window.toNat)
    (hfits : n.toNat + window.toNat < 2^32) : n < n + window := by
  rw [UInt32.lt_iff_toNat_lt,UInt32.toNat_add,Nat.mod_eq_of_lt hfits]
  omega

theorem GoBackServer.steady (order : ByteOrder) {window : UInt32} (hwindow : 0 < window.toNat)
    (hfits : numSegments file + window.toNat < 2^32) :
    (ops window).Steady order file fun n s =>
      s.Bookkept order file window ∧ s.baseSeqNo = n ∧ s.seqNo = n where
  quiet := quiet window _
  seqNo h := h.2.2
  opens := by
    rintro n s ⟨-,hbase,hseq⟩ hn
    have hlt : n < n + window := lt_add_of_fits hwindow (by omega)
    change decide (s.baseSeqNo + window > s.seqNo) = true
    rw [hbase,hseq]
    exact decide_eq_true hlt
  acked := by
    rintro n s t ⟨hs,hbase,hseq⟩ hn
    have hlt : n < n + window := lt_add_of_fits hwindow (by omega)
    have hopen : s.windowOpen window = true := by
      rw [windowOpen,hbase,hseq]
      exact decide_eq_true hlt
    obtain ⟨hsent,hsucc⟩ := recordSent_bookkept hs hopen t
    have hacc : (s.recordSent (filePacket order file s.seqNo) t).Acceptable window
        (createAckPacket n) := by
      rw [Acceptable,createAckPacket_ackno]
      change n ≥ s.baseSeqNo ∧ n < s.baseSeqNo + window
      rw [hbase]
      exact ⟨UInt32.le_refl _,hlt⟩
    have hnum : n.toNat < (s.recordSent (filePacket order file s.seqNo) t).seqNo.toNat := by
      rw [hsucc,hseq]
      exact Nat.lt_succ_self _
    obtain ⟨s',hrecv,hbase',hseq',-⟩ := receiveAck_acceptable hsent hacc hnum t
    have hkept := hsent.received hrecv
    refine ⟨t,s',hrecv,hkept.1,hbase',?_⟩
    rw [hseq']
    change s.seqNo + 1 = n + 1
    rw [hseq]
  done := by
    rintro n s ⟨hs,hbase,hseq⟩ -
    rw [← Bool.not_eq_true,hs.pending_iff,hbase,hseq]
    exact lt_irrefl _

namespace RepeatServer

variable {γ : Type} {h : RepeatHooks γ} {J : RepeatServer γ → Prop}

structure Clear (order : ByteOrder) (file : List UInt8) (J : RepeatServer γ → Prop) (n : UInt32)
    (s : RepeatServer γ) : Prop where
  inStep : s.InStep order file
  tidy : s.Tidy
  base : s.baseSeqNo = n
  seqNo : s.seqNo = n
  own : J s

theorem Clear.acked (hJ : (ops h).Keeps (fun _ _ => True) J) {s : RepeatServer γ}
    (hs : s.Clear order file J n) (hlt : n < n + h.window s.ctl) (t : Timeval) :
    ∃ s', receiveAck h (arrival t (createAckPacket n))
        (s.recordSent (filePacket order file s.seqNo) t) = some (true,s') ∧
      s'.Clear order file J (n + 1) := by
  have hopen : s.windowOpen h = true := by
    rw [windowOpen,hs.base,hs.seqNo]
    exact decide_eq_true hlt
  have hacc : (s.recordSent (filePacket order file s.seqNo) t).Acceptable h (createAckPacket n) := by
    rw [Acceptable,createAckPacket_ackno]
    change n ≥ s.baseSeqNo ∧ n < s.baseSeqNo + h.window s.ctl
    rw [hs.base]
    exact ⟨UInt32.le_refl _,hlt⟩
  obtain ⟨hsent,hsucc,hout⟩ := hs.inStep.recordSent hopen t
  have htidy := hs.tidy.recordSent hs.inStep hopen t
  have hn : (s.recordSent (filePacket order file s.seqNo) t).Outstanding n :=
    (hout n).mpr (Or.inr hs.seqNo.symm)
  obtain ⟨s',hrecv,hack⟩ := hsent.receiveAck_taken h hacc hn t
  have hbusy : (s.recordSent (filePacket order file s.seqNo) t).sendOrder.values ≠ List.nil := by
    intro hnil
    have hmem := (hsent.mem_order n).mpr hn
    simp [hnil] at hmem
  have hseq' : s'.seqNo = n + 1 := by
    rw [hack.seqNo]
    change s.seqNo + 1 = n + 1
    rw [hs.seqNo]
  refine ⟨s',hrecv,hack.inStep,hack.tidy (htidy.touch hsent hbusy 0),?_,hseq',?_⟩
  · rw [← hseq',← hack.inStep.order_nil,List.eq_nil_iff_forall_not_mem]
    intro i hi
    obtain ⟨hi,hne⟩ := (hack.outstanding i).mp ((hack.inStep.mem_order i).mp hi)
    rcases (hout i).mp hi with hi | rfl
    · have hle := hi.1
      have hlt := hi.2.1
      rw [hs.base] at hle
      rw [hs.seqNo] at hlt
      omega
    · exact hne hs.seqNo
  · exact hJ.ack (s := ⟨s.recordSent (filePacket order file s.seqNo) t,feederAt file 0,.head⟩) trivial
      (hJ.send _ t hs.own hopen) hrecv

theorem steady (order : ByteOrder) (hJ : (ops h).Keeps (fun _ _ => True) J)
    (hopens : ∀ {n} {s : RepeatServer γ}, s.Clear order file J n → n.toNat ≤ numSegments file →
      n < n + h.window s.ctl)
    (hdone : ∀ {n} {s : RepeatServer γ}, s.Clear order file J n → h.pending s = false) :
    (ops h).Steady order file fun n s => s.Clear order file J n where
  quiet := ops_quiet h fun _ ⟨_,hs⟩ => hs.inStep
  seqNo hs := hs.seqNo
  opens := by
    intro n s hs hn
    change decide (s.baseSeqNo + h.window s.ctl > s.seqNo) = true
    rw [hs.base,hs.seqNo]
    exact decide_eq_true (hopens hs hn)
  acked t hs hn := ⟨t,hs.acked hJ (hopens hs hn) t⟩
  done hs _ := hdone hs

end RepeatServer

theorem SelectiveRepeat.steady (order : ByteOrder) {window : UInt32} (hwindow : 0 < window.toNat)
    (hfits : numSegments file + window.toNat < 2^32) :
    (RepeatServer.ops hooks).Steady order file fun n s => s.Clear order file (Spanned window) n :=
  RepeatServer.steady order (keeps_spanned window _)
    (by
      intro n s hs hn
      change n < n + s.ctl
      rw [hs.own.ctl]
      exact lt_add_of_fits hwindow (by omega))
    (by
      intro n s hs
      rw [hs.inStep.closes_iff hs.tidy,RepeatServer.allAcked_iff]
      intro i hi
      have hlo := hi.1
      have hhi := hi.2.1
      rw [hs.base] at hlo
      rw [hs.seqNo] at hhi
      omega)

theorem SelectiveRepeatCC.steady (order : ByteOrder) (hfits : 2 * numSegments file + 1 < 2^32) :
    (RepeatServer.ops hooks).Steady order file fun n s => s.Clear order file Sound n :=
  RepeatServer.steady order (keeps_sound _)
    (by
      intro n s hs hn
      have hpos := hs.own.healthy.window_pos
      have hearned := hs.own.earned
      rw [hs.seqNo,Congestion.weight] at hearned
      exact lt_add_of_fits hpos (by
        change n.toNat + s.ctl.window.toNat < 2^32
        omega))
    (by
      intro n s hs
      have hnil : s.sendOrder.values = List.nil :=
        hs.inStep.order_nil.mpr (hs.base.trans hs.seqNo.symm)
      simp [hooks,hnil])

end ReliableTransfer
