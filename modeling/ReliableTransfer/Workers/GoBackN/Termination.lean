import ReliableTransfer.Workers.GoBackN.Progress

/-!
# When a go-back-N sender can return to a finished client

Acknowledgements are cumulative, so the one of the last packet is enough, and it is the only one
that is.
-/

namespace ReliableTransfer

open Framework

namespace GoBackN

variable {order : ByteOrder} {file : List UInt8} {window : UInt32}
  {x y : LinkState (Sending GoBackServer) GoBackClient Packet AckPacket}

theorem Coupled.seqNo_of_ended {s : GoBackServer} {c : GoBackClient}
    (hs : Coupled order file window s c) (hended : c.ended = true)
    (hle : s.seqNo.toNat ≤ numSegments file + 1) : s.seqNo.toNat = numSegments file + 1 := by
  have hack := hs.consumed.ended.mp hended
  have hseq := hs.le_seqNo
  omega

/-- The client has returned while packets are kept, and either the acknowledgement of the last one
is not in flight or the window wraps around at the base and refuses every acknowledgement. -/
def stranded (window base last : UInt32) :
    Link.Claim (Sending GoBackServer) GoBackClient Packet AckPacket where
  parties s c := c.ended = true ∧ s.worker.seqNo = last ∧
    s.worker.baseSeqNo.toNat < last.toNat ∧
    (base < base + window ∨ s.worker.baseSeqNo = base)
  data _ _ _ := True
  ack _ _ a := ¬base < base + window ∨ a.ackno + 1 ≠ last

theorem stranded_serve {base last : UInt32} {s s' : Sending GoBackServer} {c : GoBackClient}
    {e : SenderEvent} {out : List Packet} (hs : (coupling order file window).parties s c)
    (hst : (stranded window base last).parties s c)
    (hreads : ∀ a, (link order window).reads e = some a →
      (coupling order file window).ack s c a ∧ (stranded window base last).ack s c a)
    (h : (link order window).serve s e = some (s',out)) :
    (stranded window base last).Kept s c s' c ∧
      ∀ d ∈ out, (stranded window base last).data s' c d := by
  obtain ⟨hended,hlast,hlt,hbase⟩ := hst
  have hgood : s.Good (GoBackServer.ops window) file (Coupled order file window · c) := hs
  have hcoupled := hgood.worker
  have hkept (w : GoBackServer) (loc : Loc) (hw : w.seqNo = s.worker.seqNo)
      (hb : w.baseSeqNo.toNat < last.toNat)
      (hb' : base < base + window ∨ w.baseSeqNo = base) :
      (stranded window base last).Kept s c { s with worker := w, loc := loc } c ∧
        ∀ d ∈ out, (stranded window base last).data { s with worker := w, loc := loc } c d :=
    ⟨⟨⟨hended,hw.trans hlast,hb,hb'⟩,fun _ hd => hd,fun _ ha => ha⟩,fun _ _ => trivial⟩
  cases Sending.step_stepped h with
  | moved => exact hkept s.worker _ rfl hlt hbase
  | sent hloc hnext =>
    have hle : s.worker.seqNo.toNat ≤ numSegments file :=
      (hgood.hasNext (by simp [hloc])).mp hnext
    have hseq := hcoupled.seqNo_of_ended hended hgood.seqNo_le
    omega
  | unsent hloc hnext =>
    have hle : s.worker.seqNo.toNat ≤ numSegments file :=
      (hgood.hasNext (by simp [hloc])).mp hnext
    have hseq := hcoupled.seqNo_of_ended hended hgood.seqNo_le
    omega
  | @received env noErr w site loc hloc hrecv =>
    have hlegit (a : AckPacket) (ha : env.recv = .ok a) : a.ackno.toNat < s.worker.seqNo.toNat := by
      obtain ⟨i,rfl,hi⟩ := (hreads a (Sending.reads_ack ha)).1
      exact hi.trans_le hcoupled.le_seqNo
    by_cases hwrap : base < base + window
    · rcases GoBackServer.receiveAck_cases hcoupled.bookkept hlegit hrecv with
        rfl | ⟨hbook,hseq,a,ha,hgrown⟩
      · exact hkept _ loc rfl hlt hbase
      · refine hkept w loc hseq (lt_of_le_of_ne ?_ fun heq => ?_) (Or.inl hwrap)
        · rw [← hlast,← hseq]
          exact hbook.base_le
        · have hmiss := (hreads a (Sending.reads_ack ha)).2.resolve_left (not_not.mpr hwrap)
          have hmax := s.worker.seqNo.toNat_lt
          have hsucc : (a.ackno + 1).toNat = a.ackno.toNat + 1 :=
            toNat_add_one (lt_of_le_of_lt (hlegit a ha) hmax)
          exact hmiss (UInt32.toNat_inj.mp (hsucc.trans (hgrown.symm.trans heq)))
    · have hsame : w = s.worker := by
        apply GoBackServer.receiveAck_refused _ hrecv
        intro a _ hacc
        rw [GoBackServer.Acceptable,hbase.resolve_left hwrap] at hacc
        have hlo := UInt32.le_iff_toNat_le.mp hacc.1
        have hhi := UInt32.lt_iff_toNat_lt.mp hacc.2
        exact hwrap (UInt32.lt_iff_toNat_lt.mpr (hlo.trans_lt hhi))
      rw [hsame]
      exact hkept s.worker loc rfl hlt hbase
  | @timed ticks noErr w _ site loc hloc htimers =>
    obtain ⟨-,hseq,hbase',-⟩ := GoBackServer.updateTimer_bookkept hcoupled.bookkept ticks
    rw [Option.some.inj htimers] at hseq hbase'
    exact hkept w loc hseq (by rwa [hbase']) (by rwa [hbase'])

theorem not_returned_of_stranded {base last : UInt32} (hx : (coupling order file window).Holds x)
    (hst : (stranded window base last).Holds x) (hrun : (link order window).Run x y) :
    y.server.loc ≠ .returned false := by
  intro hret
  have hy := ((coupling_inductive order file window).and (D := stranded window base last)
    (fun hs hst hreads h => stranded_serve hs hst hreads h)
    (fun {s c c' d out} _ hst _ _ h => by
      have hnone : (link order window).accept c d = none := c.accept_ended hst.1 d
      exact absurd (hnone.symm.trans h) (by simp))).run (hx.and hst) hrun
  have hgood : y.server.Good (GoBackServer.ops window) file (Coupled order file window · y.client) :=
    hy.parties.1
  have hdone := hgood.done hret
  obtain ⟨-,hlast,hlt,-⟩ := hy.parties.2
  rw [← Bool.not_eq_true,hgood.worker.bookkept.pending_iff,hlast] at hdone
  exact hdone hlt

theorem return_of_last {s : Sending GoBackServer} {c : GoBackClient} {D : Multiset Packet}
    {A : Multiset AckPacket} (hx : (coupling order file window).Holds ⟨s,c,D,A⟩)
    (hloc : ∀ failed, s.loc ≠ .returned failed)
    (hseq : s.worker.seqNo.toNat = numSegments file + 1) {a : AckPacket} (ha : a ∈ A)
    (hlast : a.ackno + 1 = s.worker.seqNo) (hacc : s.worker.Acceptable window a) :
    ∃ y, (link order window).CalmRun ⟨s,c,D,A⟩ y ∧ y.server.loc = .returned false := by
  have hgood : s.Good (GoBackServer.ops window) file (Coupled order file window · c) := hx.parties
  have hs := hgood.worker
  obtain ⟨i,rfl,hi⟩ := hx.ack a ha
  rw [createAckPacket_ackno] at hlast
  have hi' : i.toNat < s.worker.seqNo.toNat := hi.trans_le hs.le_seqNo
  have hsucc : i.toNat + 1 = s.worker.seqNo.toNat := by
    rw [← hlast,toNat_add_one (lt_of_le_of_lt hi' s.worker.seqNo.toNat_lt)]
  have hle := UInt32.le_iff_toNat_le.mp hacc.1
  rw [createAckPacket_ackno] at hle
  have hpend := hs.bookkept.pending_iff.mpr (hle.trans_lt hi')
  obtain ⟨site,s₁,D₁,hsite,hreach⟩ := Sending.reach_drain order (accept order) (c := c) (D := D)
    (A := A) (GoBackServer.quiet window _) hgood hloc (fun _ => hpend)
  obtain ⟨w,hw,-,hseq',hkept⟩ := GoBackServer.receiveAck_acceptable hs.bookkept hacc hi' ⟨0,0⟩
  rw [← hreach.same hseq] at hw
  obtain ⟨loc,hrun,-,hdrain⟩ := Sending.run_ack (GoBackServer.ops window) order (accept order)
    (c := c) (D := D₁) hsite ha hw
  obtain rfl := hdrain rfl
  have hread : (link order window).CalmRun ⟨s,c,D,A⟩
      ⟨⟨w,s₁.feeder,.drain site⟩,c,D₁,A.erase (createAckPacket i)⟩ := hreach.run.trans hrun
  have hgood₁ := ((coupling_inductive order file window).run hx hread.run).parties
  have hdone : (GoBackServer.ops window).pending w = false := by
    rw [hsucc,filePackets_self] at hkept
    simp [GoBackServer.ops,hkept]
  have hclosed := Sending.run_close order (accept order) (c := c) (D := D₁)
    (A := A.erase (createAckPacket i)) (GoBackServer.quiet window _) hgood₁ (by simp) (by
      change w.seqNo.toNat = _
      rw [hseq',hseq]) hdone
  exact ⟨_,hread.trans hclosed,rfl⟩

theorem returns_iff (hrun : (link order window).Run (start file) x)
    (hended : x.client.ended = true) (hne : x.server.loc ≠ .returned true) :
    (link order window).AttainableIff x (fun y => y.server.loc = .returned false)
      (x.server.worker.unackedPacket = List.nil ∨
        ∃ a ∈ x.acks, a.ackno + 1 = x.server.worker.seqNo ∧
          x.server.worker.Acceptable window a) := by
  have hx := safe_run hrun
  obtain ⟨s,c,D,A⟩ := x
  dsimp only at hended hne ⊢
  have hgood : s.Good (GoBackServer.ops window) file (Coupled order file window · c) := hx.parties
  have hs := hgood.worker
  have hseq := hs.seqNo_of_ended hended hgood.seqNo_le
  refine ⟨?_,fun y hy hret => ?_⟩
  · rintro (hnil | ⟨a,ha,hlast,hacc⟩)
    · have hpend : (GoBackServer.ops window).pending s.worker = false := by
        simp [GoBackServer.ops,hnil]
      exact ⟨_,Sending.run_close order (accept order) (GoBackServer.quiet window _) hgood hne hseq
        hpend,rfl⟩
    · by_cases hret : s.loc = .returned false
      · exact ⟨_,.refl,hret⟩
      · exact return_of_last hx (by rintro (_ | _) <;> assumption) hseq ha hlast hacc
  · by_contra hnot
    rw [not_or] at hnot
    have hlt : s.worker.baseSeqNo.toNat < s.worker.seqNo.toNat := by
      refine lt_of_le_of_ne hs.bookkept.base_le fun heq => hnot.1 ?_
      rw [hs.bookkept.unacked,heq,filePackets_self]
    have hst : (stranded window s.worker.baseSeqNo s.worker.seqNo).Holds ⟨s,c,D,A⟩ := by
      refine ⟨⟨hended,rfl,hlt,Or.inr rfl⟩,fun _ _ => trivial,fun a ha => ?_⟩
      by_cases hwrap : s.worker.baseSeqNo < s.worker.baseSeqNo + window
      · refine Or.inr fun hlast => hnot.2 ⟨a,ha,hlast,?_⟩
        obtain ⟨i,rfl,hi⟩ := hx.ack a ha
        have hi' : i.toNat < s.worker.seqNo.toNat := hi.trans_le hs.le_seqNo
        rw [createAckPacket_ackno] at hlast
        have hsucc := toNat_add_one (lt_of_le_of_lt hi' s.worker.seqNo.toNat_lt)
        rw [hlast] at hsucc
        have hspan := hs.bookkept.seqNo_le
        rw [GoBackServer.Acceptable,createAckPacket_ackno]
        refine ⟨UInt32.le_iff_toNat_le.mpr (by omega),?_⟩
        rw [UInt32.lt_iff_toNat_lt,toNat_window hwrap]
        omega
      · exact Or.inl hwrap
    exact not_returned_of_stranded hx hst hy hret

end GoBackN

end ReliableTransfer
