import ReliableTransfer.Workers.SelectiveRepeat.Containers

/-!
# The operations in any environment

What `receive_ack` and `updateTimers` do to the numbers and to the window when nothing is known
of the acknowledgements that arrive.
-/

namespace ReliableTransfer

namespace RepeatServer

variable {γ : Type} {h : RepeatHooks γ} {s s' : RepeatServer γ}

structure Retimed (h : RepeatHooks γ) (s s' : RepeatServer γ) : Prop where
  baseSeqNo : s'.baseSeqNo = s.baseSeqNo
  seqNo : s'.seqNo = s.seqNo
  acks : s'.acks = s.acks
  dataSent : s'.dataSent = s.dataSent
  ctl : ∃ n, s'.ctl = h.onTimeout^[n] s.ctl

theorem Retimed.refl : Retimed h s s := ⟨rfl,rfl,rfl,rfl,0,rfl⟩

theorem Retimed.step {s₁ : RepeatServer γ} (hr : Retimed h s₁ s') (hbase : s₁.baseSeqNo = s.baseSeqNo)
    (hseq : s₁.seqNo = s.seqNo) (hacks : s₁.acks = s.acks) (hdata : s₁.dataSent = s.dataSent)
    (hctl : s₁.ctl = h.onTimeout s.ctl) : Retimed h s s' := by
  obtain ⟨n,hn⟩ := hr.ctl
  refine ⟨hr.baseSeqNo.trans hbase,hr.seqNo.trans hseq,hr.acks.trans hacks,hr.dataSent.trans hdata,
    n + 1,?_⟩
  rw [hn,hctl,Function.iterate_succ_apply]

theorem Retimed.ctl_preserves (hr : Retimed h s s') {I : γ → Prop} (hs : I s.ctl)
    (htimeout : ∀ c, I c → I (h.onTimeout c)) : I s'.ctl := by
  obtain ⟨n,hn⟩ := hr.ctl
  rw [hn]
  exact Function.Iterate.rec I hs htimeout n

theorem timerLoop_retimed {ticks : Nat → Tick} {fuel i : Nat} {packId : Option Nat}
    {resent : List UInt32} {noErr : Bool} {out : List Packet}
    (hrun : timerLoop h ticks fuel i packId resent s = some (noErr,s',out)) : Retimed h s s' := by
  induction fuel generalizing i packId resent s noErr out with
  | zero =>
    cases packId with
    | none =>
      obtain ⟨-,rfl,-⟩ := hrun
      exact .refl
    | some packId => contradiction
  | succ fuel ih =>
    cases packId with
    | none =>
      obtain ⟨-,rfl,-⟩ := hrun
      exact .refl
    | some packId =>
      rw [timerLoop] at hrun
      obtain ⟨seqno,-,hrun⟩ := Option.bind_eq_some_iff.mp hrun
      split at hrun
      · obtain ⟨-,rfl,-⟩ := hrun
        exact .refl
      · obtain ⟨sentAt,-,hrun⟩ := Option.bind_eq_some_iff.mp hrun
        split at hrun
        · dsimp only at hrun
          have hfired : Retimed h s { s with ctl := h.onTimeout s.ctl } :=
            .step .refl rfl rfl rfl rfl rfl
          split at hrun
          · split at hrun
            · obtain ⟨-,rfl,-⟩ := hrun
              exact hfired
            · contradiction
          · split at hrun
            · obtain ⟨sendOrder,-,hrun⟩ := Option.bind_eq_some_iff.mp hrun
              obtain ⟨⟨noErr',s₁,more⟩,hloop,hrun⟩ := Option.bind_eq_some_iff.mp hrun
              obtain ⟨-,rfl,-⟩ := hrun
              exact (ih hloop).step rfl rfl rfl rfl rfl
            · obtain ⟨-,rfl,-⟩ := hrun
              exact hfired
        · obtain ⟨-,rfl,-⟩ := hrun
          exact .refl

theorem updateTimers_retimed {ticks : Nat → Tick} {noErr : Bool} {out : List Packet}
    (hrun : s.updateTimers h ticks = some (noErr,s',out)) : Retimed h s s' := timerLoop_retimed hrun

def Takes (h : RepeatHooks γ) (env : AckEnv) (s : RepeatServer γ) (a : AckPacket) : Prop :=
  env.answer (s.seqnumsSent.getD (s.front env.stray) ⟨0,0⟩) = .ok a ∧ verifyChecksumAck a = true ∧
    s.Acceptable h a ∧ a.ackno ∈ (s.touch env.stray).seqnumsSent

theorem Takes.receiveAck {env : AckEnv} {a : AckPacket} (htakes : s.Takes h env a) :
    s.receiveAck h env = ((s.touch env.stray).acknowledge h a.ackno).map fun s => (true,s) := by
  obtain ⟨hanswer,hsum,hacc,hmem⟩ := htakes
  have hacc' : (s.touch env.stray).Acceptable h a := hacc
  simp only [RepeatServer.receiveAck,hanswer]
  rw [if_pos ⟨hsum,hacc'⟩,if_pos hmem]

inductive Answered (h : RepeatHooks γ) (env : AckEnv) (s : RepeatServer γ) : RepeatServer γ → Prop
  | timedOut : Answered h env s { s.touch env.stray with ctl := h.onTimeout s.ctl }
  | ignored : Answered h env s (s.touch env.stray)
  | taken {a s'} : s.Takes h env a → (s.touch env.stray).acknowledge h a.ackno = some s' →
      Answered h env s s'

theorem receiveAck_answered {env : AckEnv} {noErr : Bool}
    (hrun : s.receiveAck h env = some (noErr,s')) : Answered h env s s' := by
  unfold receiveAck at hrun
  dsimp only at hrun
  split at hrun
  · obtain ⟨-,rfl⟩ := hrun
    exact .timedOut
  · obtain ⟨-,rfl⟩ := hrun
    exact .ignored
  · next a hanswer =>
    split at hrun
    · next htest =>
      split at hrun
      · next hmem =>
        obtain ⟨w,hack,heq⟩ := Option.map_eq_some_iff.mp hrun
        obtain ⟨-,rfl⟩ := heq
        exact .taken ⟨hanswer,htest.1,htest.2,hmem⟩ hack
      · obtain ⟨-,rfl⟩ := hrun
        exact .ignored
    · obtain ⟨-,rfl⟩ := hrun
      exact .ignored

structure Erased (h : RepeatHooks γ) (i : UInt32) (s s' : RepeatServer γ) : Prop where
  mem : i ∈ s.dataSent
  numbers : (s'.acks,s'.baseSeqNo) = slide (insert i s.acks).card (insert i s.acks) s.baseSeqNo
  seqNo : s'.seqNo = s.seqNo
  dataSent : s'.dataSent = s.dataSent.erase i
  ctl : s'.ctl = h.afterAck (h.onAck s.ctl)

theorem acknowledge_erased {i : UInt32} (hrun : s.acknowledge h i = some s') :
    Erased h i s s' := by
  unfold acknowledge at hrun
  dsimp only at hrun
  obtain ⟨packet,hpacket,hrun⟩ := Option.bind_eq_some_iff.mp hrun
  obtain ⟨it,-,hrun⟩ := Option.bind_eq_some_iff.mp hrun
  obtain ⟨sendOrder,-,hrun⟩ := Option.bind_eq_some_iff.mp hrun
  obtain rfl := Option.some.inj hrun
  exact ⟨(Std.ExtTreeMap.getElem?_eq_some_iff.mp hpacket).fst,rfl,rfl,rfl,rfl⟩

theorem Erased.size {i : UInt32} (hr : Erased h i s s') : s.dataSent.size = s'.dataSent.size + 1 := by
  have hpos : s.dataSent.size ≠ 0 := by
    intro hzero
    have hmem := hr.mem
    rw [Std.ExtTreeMap.eq_empty_iff_size_eq_zero.mpr hzero] at hmem
    exact Std.ExtTreeMap.not_mem_empty hmem
  rw [hr.dataSent,Std.ExtTreeMap.size_erase,if_pos (Std.ExtTreeMap.mem_iff_contains.mp hr.mem)]
  omega

/-- The base has not overtaken `seq_no`, and every number in use has been given out. -/
structure Numbered (s : RepeatServer γ) : Prop where
  base_le : s.baseSeqNo.toNat ≤ s.seqNo.toNat
  acks : ∀ i ∈ s.acks, s.baseSeqNo.toNat ≤ i.toNat ∧ i.toNat < s.seqNo.toNat
  base_notMem : s.baseSeqNo ∉ s.acks
  dataSent : ∀ i ∈ s.dataSent, i.toNat < s.seqNo.toNat

theorem fresh_numbered (ctl : γ) : (fresh ctl).Numbered :=
  ⟨le_refl _,by simp [fresh],by simp [fresh],by simp [fresh]⟩

theorem Numbered.outstanding_base (hs : s.Numbered) :
    s.Outstanding s.baseSeqNo ↔ s.baseSeqNo ≠ s.seqNo := by
  constructor
  · intro hout heq
    have hlt := hout.2.1
    rw [heq] at hlt
    exact lt_irrefl _ hlt
  · intro hne
    have hne' : s.baseSeqNo.toNat ≠ s.seqNo.toNat := fun h => hne (UInt32.toNat_inj.mp h)
    exact ⟨le_refl _,lt_of_le_of_ne hs.base_le hne',hs.base_notMem⟩

theorem windowOpen_succ (hopen : s.windowOpen h = true) :
    (s.seqNo + 1).toNat = s.seqNo.toNat + 1 :=
  toNat_add_one_of_lt (of_decide_eq_true hopen)

theorem Numbered.recordSent (hs : s.Numbered) (hopen : s.windowOpen h = true) (packet : Packet)
    (t : Timeval) : (s.recordSent packet t).Numbered := by
  have hsucc : (s.recordSent packet t).seqNo.toNat = s.seqNo.toNat + 1 := windowOpen_succ hopen
  constructor
  · exact hs.base_le.trans (Nat.le_of_succ_le (hsucc ▸ le_refl _))
  · intro i hi
    obtain ⟨hlo,hhi⟩ := hs.acks i hi
    exact ⟨hlo,hsucc ▸ Nat.lt_succ_of_lt hhi⟩
  · exact hs.base_notMem
  · intro i hi
    change i ∈ s.dataSent.insertIfNew s.seqNo packet at hi
    rw [Std.ExtTreeMap.mem_insertIfNew,Std.compare_eq_iff_eq] at hi
    rw [hsucc]
    rcases hi with rfl | hi
    · exact Nat.lt_succ_self _
    · exact Nat.lt_succ_of_lt (hs.dataSent i hi)

theorem Numbered.retimed (hs : s.Numbered) (hr : Retimed h s s') : s'.Numbered := by
  refine ⟨?_,?_,?_,?_⟩
  · rw [hr.baseSeqNo,hr.seqNo]
    exact hs.base_le
  · rw [hr.acks,hr.baseSeqNo,hr.seqNo]
    exact hs.acks
  · rw [hr.acks,hr.baseSeqNo]
    exact hs.base_notMem
  · rw [hr.dataSent,hr.seqNo]
    exact hs.dataSent

theorem Numbered.erased (hs : s.Numbered) {i : UInt32} (hr : Erased h i s s')
    (hle : s.baseSeqNo.toNat ≤ i.toNat) :
    s'.Numbered ∧ s.baseSeqNo.toNat ≤ s'.baseSeqNo.toNat := by
  have hacks : ∀ j ∈ insert i s.acks, s.baseSeqNo.toNat ≤ j.toNat ∧ j.toNat < s.seqNo.toNat := by
    intro j hj
    rcases Finset.mem_insert.mp hj with rfl | hj
    · exact ⟨hle,hs.dataSent _ hr.mem⟩
    · exact hs.acks j hj
  obtain ⟨hlo,hhi,hnot,hleft,-⟩ := slide_spec s.seqNo.toNat_lt _ (insert i s.acks) s.baseSeqNo
    (le_refl _) hacks hs.base_le
  rw [← hr.numbers] at hlo hhi hnot hleft
  refine ⟨⟨hr.seqNo ▸ hhi,fun j hj => ?_,hnot,fun j hj => ?_⟩,hlo⟩
  · obtain ⟨hj,hpast⟩ := (hleft j).mp hj
    rw [hr.seqNo]
    exact ⟨hpast,(hacks j hj).2⟩
  · rw [hr.dataSent] at hj
    rw [hr.seqNo]
    exact hs.dataSent j (Std.ExtTreeMap.mem_of_mem_erase hj)

theorem Numbered.answered (hs : s.Numbered) {env : AckEnv} (hr : Answered h env s s') :
    s'.Numbered ∧ s'.seqNo = s.seqNo ∧ s.baseSeqNo.toNat ≤ s'.baseSeqNo.toNat := by
  have htouch : (s.touch env.stray).Numbered :=
    ⟨hs.base_le,hs.acks,hs.base_notMem,hs.dataSent⟩
  cases hr with
  | timedOut => exact ⟨⟨hs.base_le,hs.acks,hs.base_notMem,hs.dataSent⟩,rfl,le_refl _⟩
  | ignored => exact ⟨htouch,rfl,le_refl _⟩
  | taken htakes hack =>
    have her := acknowledge_erased hack
    obtain ⟨hnum,hle⟩ := htouch.erased her (UInt32.le_iff_toNat_le.mp htakes.2.2.1.1)
    exact ⟨hnum,her.seqNo,hle⟩

end RepeatServer

end ReliableTransfer
