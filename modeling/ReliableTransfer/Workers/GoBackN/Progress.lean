import ReliableTransfer.Workers.GoBackN.Safety

/-!
# When go-back-N can move on

The client says nothing about a packet it has already consumed. Once every packet of a full
window has been consumed and the acknowledgements are lost, neither side moves again.
-/

namespace ReliableTransfer

open Framework

namespace GoBackServer

variable {order : ByteOrder} {file : List UInt8} {window : UInt32}

def Acceptable (window : UInt32) (s : GoBackServer) (a : AckPacket) : Prop :=
  a.ackno ≥ s.baseSeqNo ∧ a.ackno < s.baseSeqNo + window

theorem receiveAck_refused {s s' : GoBackServer} {env : AckEnv} {noErr : Bool}
    (hrefuse : ∀ a, env.recv = .ok a → ¬s.Acceptable window a)
    (h : s.receiveAck window env = some (noErr,s')) : s' = s := by
  unfold receiveAck at h
  split at h
  · simp only [Option.some.injEq,Prod.mk.injEq] at h
    exact h.2.symm
  · simp only [Option.some.injEq,Prod.mk.injEq] at h
    exact h.2.symm
  · next a hanswer =>
    rw [if_neg fun htest => hrefuse a (AckEnv.answer_ok hanswer) htest.2] at h
    simp only [Option.some.injEq,Prod.mk.injEq] at h
    exact h.2.symm

theorem receiveAck_acceptable {s : GoBackServer} (hs : s.Bookkept order file window) {i : UInt32}
    (hi : s.Acceptable window (createAckPacket i)) (hlt : i.toNat < s.seqNo.toNat) (t : Timeval) :
    ∃ s', s.receiveAck window (arrival t (createAckPacket i)) = some (true,s') ∧
      s'.baseSeqNo = i + 1 ∧ s'.seqNo = s.seqNo ∧
      s'.unackedPacket = filePackets order file (i.toNat + 1) s.seqNo.toNat := by
  have hle := UInt32.le_iff_toNat_le.mp hi.1
  rw [createAckPacket_ackno] at hle
  have htrim := trim_filePackets order file s.seqNo.toNat_lt hlt (hle.trans (Nat.le_succ _))
  have hrecv : s.receiveAck window (arrival t (createAckPacket i)) =
      some (true,{ s with
        baseSeqNo := i + 1
        unackedPacket := filePackets order file (i.toNat + 1) s.seqNo.toNat
        sendTime := if (filePackets order file (i.toNat + 1) s.seqNo.toNat).length ≠ 0 then t
          else s.sendTime }) := by
    simp only [receiveAck,answer_arrival]
    rw [if_pos ⟨verifyChecksumAck_createAckPacket i,hi⟩,hs.unacked,createAckPacket_ackno,htrim]
    rfl
  exact ⟨_,hrecv,rfl,rfl,rfl⟩

theorem resend_calm {ticks : Nat → Tick} (hcalm : ∀ i, (ticks i).Calm) (i : Nat)
    (unacked : List Packet) (sendTime : Timeval) :
    ∃ t, resend ticks i unacked sendTime = (true,t,unacked) := by
  induction unacked generalizing i sendTime with
  | nil => exact ⟨sendTime,rfl⟩
  | cons packet unacked ih =>
    obtain ⟨t,ht⟩ := ih (i + 1) (if i = 0 then (ticks i).sendTime else sendTime)
    exact ⟨t,by simp [resend,(hcalm i).transmit,ht]⟩

theorem updateTimer_fires (s : GoBackServer) :
    ∃ ticks t, (∀ i, (ticks i).Calm) ∧
      s.updateTimer ticks = (true,{ s with sendTime := t },s.unackedPacket) := by
  let now : Timeval := ⟨0,s.sendTime.micros + 1000⟩
  have hnow : expired s.sendTime (calmTick now).now = true := expired_late (le_refl _)
  obtain ⟨t,ht⟩ := resend_calm (fun _ => calmTick_calm now) 0 s.unackedPacket s.sendTime
  refine ⟨fun _ => calmTick now,t,fun _ => calmTick_calm now,?_⟩
  rw [updateTimer,if_pos hnow,ht]

theorem quiet (window : UInt32) (I : GoBackServer → Prop) : (ops window).Quiet I := by
  intro s _
  refine ⟨fun _ => calmTick s.sendTime,fun _ => calmTick_calm _,?_⟩
  have hpass : s.updateTimer (fun _ => calmTick s.sendTime) = (true,s,List.nil) :=
    if_neg (by simp [calmTick,not_expired_self])
  exact congrArg some hpass

end GoBackServer

namespace GoBackN

variable {order : ByteOrder} {file : List UInt8} {window : UInt32}
  {x y : LinkState (Sending GoBackServer) GoBackClient Packet AckPacket}

def Progress (x y : LinkState (Sending GoBackServer) GoBackClient Packet AckPacket) : Prop :=
  x.client.baseAckNo.toNat < y.client.baseAckNo.toNat ∨
    x.server.worker.baseSeqNo.toNat < y.server.worker.baseSeqNo.toNat

/-- The awaited packet is in flight; or the sender has not given up, and it still keeps the
awaited packet, or its window is open, or an acceptable acknowledgement is in flight. -/
def CanProgress (window : UInt32)
    (x : LinkState (Sending GoBackServer) GoBackClient Packet AckPacket) : Prop :=
  (∃ d ∈ x.data, d.seqno = x.client.baseAckNo) ∨
    (x.server.loc ≠ .returned true ∧
      (x.client.baseAckNo.toNat < x.server.worker.seqNo.toNat ∨
        x.server.worker.windowOpen window = true ∨
        ∃ a ∈ x.acks, x.server.worker.Acceptable window a))

theorem deliver_awaited (window : UInt32) {s : Sending GoBackServer} {c : GoBackClient}
    {D : Multiset Packet} {A : Multiset AckPacket} (hc : c.Consumed order file)
    (hended : c.ended = false)
    (hlt : c.baseAckNo.toNat + 1 < 2^32) (hd : filePacket order file c.baseAckNo ∈ D) :
    ∃ y, (link order window).CalmRun ⟨s,c,D,A⟩ y ∧
      y.client.baseAckNo.toNat = c.baseAckNo.toNat + 1 := by
  obtain ⟨c',hc',-,hsucc⟩ := hc.expected hlt hended
  obtain ⟨D',-,hrun⟩ := Link.CalmRun.accept (L := link order window) (s := s) (A := A) hd hc'
  exact ⟨_,hrun,hsucc⟩

theorem reached_worker {s s' : Sending GoBackServer} {c : GoBackClient} {D D' : Multiset Packet}
    {A : Multiset AckPacket} (hs : Coupled order file window s.worker c)
    (h : Sending.Reached (GoBackServer.ops window) order file (accept order) s c D A s' D') :
    s'.worker.baseSeqNo = s.worker.baseSeqNo ∧
      s.worker.seqNo.toNat ≤ s'.worker.seqNo.toNat := by
  rcases h.worker with heq | ⟨hopen,-,t,heq⟩
  · rw [heq]
    exact ⟨rfl,le_refl _⟩
  · have hsucc := (GoBackServer.recordSent_bookkept hs.bookkept hopen t).2
    rw [heq]
    exact ⟨rfl,(Nat.le_succ _).trans hsucc.ge⟩

theorem progress_of_kept (hx : (coupling order file window).Holds x)
    (hended : x.client.ended = false) (hloc : ∀ failed, x.server.loc ≠ .returned failed)
    (hkept : x.client.baseAckNo.toNat < x.server.worker.seqNo.toNat) :
    ∃ y, (link order window).CalmRun x y ∧ Progress x y := by
  obtain ⟨s,c,D,A⟩ := x
  dsimp only at hkept hended hloc
  have hgood : s.Good (GoBackServer.ops window) file (Coupled order file window · c) := hx.parties
  have hs := hgood.worker
  have hpend := hs.bookkept.pending_iff.mpr (hs.base_le.trans_lt hkept)
  obtain ⟨site,s₁,D₁,hsite,hreach⟩ := Sending.reach_timers order (accept order) (c := c) (D := D)
    (A := A) (GoBackServer.quiet window _) hgood hloc (fun _ => hpend)
  obtain ⟨hbase₁,hseq₁⟩ := reached_worker hs hreach
  have hx₁ := (coupling_inductive order file window).run hx hreach.run.run
  have hs₁ : Coupled order file window s₁.worker c := hx₁.parties.worker
  obtain ⟨ticks,t,hcalm,hfire⟩ := s₁.worker.updateTimer_fires
  obtain ⟨loc,hrun,-⟩ := Sending.run_timers (GoBackServer.ops window) order (accept order)
    (c := c) (D := D₁) (A := A) hsite hcalm (congrArg some hfire)
  have hmem : filePacket order file c.baseAckNo ∈ s₁.worker.unackedPacket := by
    rw [hs₁.bookkept.unacked,mem_filePackets]
    exact ⟨_,hs₁.base_le,hkept.trans_le hseq₁,by rw [UInt32.ofNat_toNat]⟩
  have hlt := s.worker.seqNo.toNat_lt
  obtain ⟨y,hy,hsucc⟩ := deliver_awaited window (A := A) hs.consumed hended
    (lt_of_le_of_lt (Nat.succ_le_of_lt hkept) hlt)
    (Multiset.mem_add.mpr (Or.inr (Multiset.mem_coe.mpr hmem)))
  exact ⟨y,(hreach.run.trans hrun).trans hy,Or.inl (by rw [hsucc]; exact Nat.lt_succ_self _)⟩

theorem progress_of_open (hx : (coupling order file window).Holds x)
    (hended : x.client.ended = false) (hloc : ∀ failed, x.server.loc ≠ .returned failed)
    (hnext : x.client.baseAckNo = x.server.worker.seqNo)
    (hopen : x.server.worker.windowOpen window = true) :
    ∃ y, (link order window).CalmRun x y ∧ Progress x y := by
  obtain ⟨s,c,D,A⟩ := x
  have hgood : s.Good (GoBackServer.ops window) file (Coupled order file window · c) := hx.parties
  have hs := hgood.worker
  have htest : s.worker.seqNo < s.worker.baseSeqNo + window := of_decide_eq_true hopen
  have hlt := UInt32.lt_iff_toNat_lt.mp htest
  have hmax := (s.worker.baseSeqNo + window).toNat_lt
  have hne : c.baseAckNo.toNat ≠ numSegments file + 1 := fun h => by
    simp [hs.consumed.ended.mpr h] at hended
  have hack : c.baseAckNo.toNat = s.worker.seqNo.toNat := congrArg UInt32.toNat hnext
  have hle : s.worker.seqNo.toNat ≤ numSegments file := by
    have := hs.consumed.ackNo_le
    omega
  have hrun := Sending.reach_send order (accept order) (c := c) (D := D) (A := A)
    (GoBackServer.quiet window _) hgood hloc hle hopen ⟨0,0⟩
  obtain ⟨y,hy,hsucc⟩ := deliver_awaited window (A := A) (D := _ ::ₘ D) hs.consumed
    hended (by omega) (by rw [hnext]; exact Multiset.mem_cons_self _ _)
  exact ⟨y,hrun.trans hy,Or.inl (by rw [hsucc]; exact Nat.lt_succ_self _)⟩

theorem progress_of_ack (hx : (coupling order file window).Holds x)
    (hloc : ∀ failed, x.server.loc ≠ .returned failed) {a : AckPacket} (ha : a ∈ x.acks)
    (hacc : x.server.worker.Acceptable window a) :
    ∃ y, (link order window).CalmRun x y ∧ Progress x y := by
  obtain ⟨s,c,D,A⟩ := x
  dsimp only at ha hacc hloc
  have hgood : s.Good (GoBackServer.ops window) file (Coupled order file window · c) := hx.parties
  have hs := hgood.worker
  obtain ⟨i,rfl,hi⟩ := hx.ack a ha
  have hle := UInt32.le_iff_toNat_le.mp hacc.1
  have hi' : i.toNat < c.baseAckNo.toNat := hi
  have hhi := hs.le_seqNo
  rw [createAckPacket_ackno] at hle
  have hpend := hs.bookkept.pending_iff.mpr (hle.trans_lt (hi'.trans_le hhi))
  obtain ⟨site,s₁,D₁,hsite,hreach⟩ := Sending.reach_drain order (accept order) (c := c) (D := D)
    (A := A) (GoBackServer.quiet window _) hgood hloc (fun _ => hpend)
  obtain ⟨hbase₁,hseq₁⟩ := reached_worker hs hreach
  have hx₁ := (coupling_inductive order file window).run hx hreach.run.run
  have hs₁ : Coupled order file window s₁.worker c := hx₁.parties.worker
  have hacc₁ : s₁.worker.Acceptable window (createAckPacket i) := by
    rw [GoBackServer.Acceptable,hbase₁]
    exact hacc
  obtain ⟨w,hw,hbase,-,-⟩ := GoBackServer.receiveAck_acceptable hs₁.bookkept hacc₁ (by omega) ⟨0,0⟩
  obtain ⟨loc,hrun,-,-⟩ := Sending.run_ack (GoBackServer.ops window) order (accept order)
    (c := c) (D := D₁) hsite ha hw
  refine ⟨_,hreach.run.trans hrun,Or.inr ?_⟩
  change s.worker.baseSeqNo.toNat < w.baseSeqNo.toNat
  have hmax := c.baseAckNo.toNat_lt
  rw [hbase,toNat_add_one (by omega)]
  omega

/-- Both bases stand still: nothing in flight is of use, and either the sender has given up or
its window is full of packets the client has consumed. -/
def frozen (window base ack : UInt32) :
    Link.Claim (Sending GoBackServer) GoBackClient Packet AckPacket where
  parties s c := s.worker.baseSeqNo = base ∧ c.baseAckNo = ack ∧ (s.loc = .returned true ∨
    (s.worker.seqNo = ack ∧ s.worker.windowOpen window = false))
  data _ _ d := d.seqno ≠ ack
  ack s _ a := s.loc = .returned true ∨ ¬(a.ackno ≥ base ∧ a.ackno < base + window)

theorem frozen_serve {base ack : UInt32} {s s' : Sending GoBackServer} {c : GoBackClient}
    {e : SenderEvent} {out : List Packet} (hs : (coupling order file window).parties s c)
    (hf : (frozen window base ack).parties s c)
    (hreads : ∀ a, (link order window).reads e = some a → (frozen window base ack).ack s c a)
    (h : (link order window).serve s e = some (s',out)) :
    (frozen window base ack).Kept s c s' c ∧
      ∀ d ∈ out, (frozen window base ack).data s' c d := by
  obtain ⟨hbase,hack,hf⟩ := hf
  have hfull (hne : s.loc ≠ .returned true) := hf.resolve_left hne
  have hkept (w : GoBackServer) (loc : Loc) (hne : s.loc ≠ .returned true)
      (hw : w.baseSeqNo = s.worker.baseSeqNo ∧ w.seqNo = s.worker.seqNo) :
      (frozen window base ack).Kept s c { s with worker := w, loc := loc } c := by
    obtain ⟨hseq,hshut⟩ := hfull hne
    refine ⟨⟨hw.1.trans hbase,hack,Or.inr ⟨hw.2.trans hseq,?_⟩⟩,fun _ hd => hd,?_⟩
    · rw [← hshut,GoBackServer.windowOpen,GoBackServer.windowOpen,hw.1,hw.2]
    · exact fun a ha => Or.inr (ha.resolve_left hne)
  cases Sending.step_stepped h with
  | moved hne => exact ⟨hkept s.worker _ hne ⟨rfl,rfl⟩,by simp⟩
  | sent hloc _ hopen =>
    have hshut := (hfull (by simp [hloc])).2
    exact absurd (hopen.symm.trans hshut) (by simp)
  | unsent hloc _ hopen =>
    have hshut := (hfull (by simp [hloc])).2
    exact absurd (hopen.symm.trans hshut) (by simp)
  | @received env noErr w site loc hloc hrecv =>
    have hne : s.loc ≠ .returned true := by simp [hloc]
    have hsame : w = s.worker := by
      apply GoBackServer.receiveAck_refused _ hrecv
      intro a ha hacc
      have hrefuse := (hreads a (Sending.reads_ack ha)).resolve_left hne
      rw [GoBackServer.Acceptable,hbase] at hacc
      exact hrefuse hacc
    exact ⟨hkept w loc hne ⟨by rw [hsame],by rw [hsame]⟩,by simp⟩
  | @timed ticks noErr w _ site loc hloc htimers =>
    have hne : s.loc ≠ .returned true := by simp [hloc]
    have hbook : s.worker.Bookkept order file window := hs.worker.bookkept
    obtain ⟨-,hseq,hbase',hout⟩ := GoBackServer.updateTimer_bookkept hbook ticks
    rw [Option.some.inj htimers] at hseq hbase' hout
    refine ⟨hkept w loc hne ⟨hbase',hseq⟩,fun d hd heq => ?_⟩
    have hmem := hout d hd
    rw [hbook.unacked] at hmem
    obtain ⟨i,-,hi,rfl⟩ := mem_filePackets.mp hmem
    have hnum := congrArg UInt32.toNat heq
    rw [filePacket_seqno,← (hfull hne).1,
      UInt32.toNat_ofNat_of_lt' (hi.trans s.worker.seqNo.toNat_lt)] at hnum
    omega

theorem frozen_accept {base ack : UInt32} {s : Sending GoBackServer} {c c' : GoBackClient}
    {d : Packet} {out : List AckPacket} (hf : (frozen window base ack).parties s c)
    (hd : (coupling order file window).data s c d) (hne : (frozen window base ack).data s c d)
    (h : (link order window).accept c d = some (c',out)) :
    (frozen window base ack).Kept s c s c' ∧
      ∀ a ∈ out, (frozen window base ack).ack s c' a := by
  obtain ⟨i,rfl,-⟩ := hd
  have hother : i ≠ c.baseAckNo := fun heq => hne (heq.trans hf.2.1)
  cases hended : c.ended
  · have hacc : (link order window).accept c (filePacket order file i) = some (c,List.nil) :=
      c.accept_other hother hended
    obtain ⟨rfl,rfl⟩ := Prod.mk.inj (Option.some.inj (hacc.symm.trans h))
    exact ⟨.refl hf,by simp⟩
  · have hacc : (link order window).accept c (filePacket order file i) = none :=
      c.accept_ended hended _
    rw [hacc] at h
    contradiction

/-- Without one of the conditions no run whatever moves a base. -/
theorem not_progress (hx : (coupling order file window).Holds x) (hcan : ¬CanProgress window x)
    (hrun : (link order window).Run x y) : ¬Progress x y := by
  have hinv := (coupling_inductive order file window).and
    (D := frozen window x.server.worker.baseSeqNo x.client.baseAckNo)
    (fun hs hf hreads h => frozen_serve hs hf (fun a ha => (hreads a ha).2) h)
    (fun _ hf hd hne h => frozen_accept hf hd hne h)
  have hs : Coupled order file window x.server.worker x.client := hx.parties.worker
  have hnotin : ¬∃ d ∈ x.data, d.seqno = x.client.baseAckNo := fun h => hcan (Or.inl h)
  have hstuck (hne : x.server.loc ≠ .returned true) : ¬(_ ∨ _ ∨ _) := fun h => hcan (Or.inr ⟨hne,h⟩)
  have hfrozen : (frozen window x.server.worker.baseSeqNo x.client.baseAckNo).Holds x := by
    refine ⟨⟨rfl,rfl,?_⟩,fun d hd heq => hnotin ⟨d,hd,heq⟩,fun a ha => ?_⟩
    · by_cases hne : x.server.loc = .returned true
      · exact Or.inl hne
      · have h := hstuck hne
        push Not at h
        refine Or.inr ⟨UInt32.toNat_inj.mp (le_antisymm h.1 hs.le_seqNo),?_⟩
        simpa using h.2.1
    · by_cases hne : x.server.loc = .returned true
      · exact Or.inl hne
      · exact Or.inr fun hacc => hstuck hne (Or.inr (Or.inr ⟨a,ha,hacc⟩))
  obtain ⟨-,hbase,hack,-⟩ := (hinv.run (hx.and hfrozen) hrun).parties
  rintro (hlt | hlt)
  · rw [hack] at hlt
    exact lt_irrefl _ hlt
  · rw [hbase] at hlt
    exact lt_irrefl _ hlt

/-- In a reachable state in which `recv_message` has not returned, a continuation without further
losses moves one of the two bases exactly when `CanProgress` holds. -/
theorem goBackN_progress_iff (order : ByteOrder) (file : List UInt8) (window : UInt32)
    (hrun : (link order window).Run (start file) x) (hended : x.client.ended = false) :
    (∃ y, (link order window).CalmRun x y ∧ Progress x y) ↔ CanProgress window x := by
  have hx := safe_run hrun
  have hs : Coupled order file window x.server.worker x.client := hx.parties.worker
  constructor
  · rintro ⟨y,hy,hprogress⟩
    by_contra hcan
    exact not_progress hx hcan hy.run hprogress
  · rintro (⟨d,hd,hseq⟩ | ⟨hne,hcan⟩)
    · obtain ⟨i,rfl,hi⟩ := hx.data d hd
      rw [filePacket_seqno] at hseq
      subst hseq
      have hmax := ((GoBackServer.ops window).seqNo x.server.worker).toNat_lt
      obtain ⟨y,hy,hsucc⟩ := deliver_awaited window (A := x.acks) (s := x.server)
        hs.consumed hended (by omega) hd
      exact ⟨y,hy,Or.inl (by rw [hsucc]; exact Nat.lt_succ_self _)⟩
    · have hloc : ∀ failed, x.server.loc ≠ .returned failed := by
        rintro (_ | _) hret
        · exact absurd (ended_of_returned hx hret).2 (by simp [hended])
        · exact hne hret
      by_cases hkept : x.client.baseAckNo.toNat < x.server.worker.seqNo.toNat
      · exact progress_of_kept hx hended hloc hkept
      · rcases hcan.resolve_left hkept with hopen | ⟨a,ha,hacc⟩
        · have hnext : x.client.baseAckNo = x.server.worker.seqNo :=
            UInt32.toNat_inj.mp (le_antisymm hs.le_seqNo (not_lt.mp hkept))
          exact progress_of_open hx hended hloc hnext hopen
        · exact progress_of_ack hx hloc ha hacc

theorem goBackN_progress_lost : ∃ x y, (link .little 1).Run (start [7]) x ∧ x.data = 0 ∧
    x.server.worker.seqNo = 1 ∧ (link .little 1).CalmRun x y ∧ Progress x y := by
  have hlost := (first_sent .little [7]).loseData
  obtain ⟨y,hy⟩ := (goBackN_progress_iff .little [7] 1 hlost rfl).mpr
    (Or.inr ⟨by simp,Or.inl (by decide)⟩)
  exact ⟨_,y,hlost,rfl,rfl,hy⟩

/-- Window 1 and a file of one byte: its packet is consumed and the acknowledgement is lost. -/
theorem lost_ack (order : ByteOrder) :
    ∃ x, (link order 1).Run (start [0]) x ∧ x.client.ended = false ∧ ¬CanProgress 1 x := by
  obtain ⟨c,hacked,hconsumed,hack⟩ := first_consumed order [0]
  have hone : c.baseAckNo = 1 := UInt32.toNat_inj.mp hack
  have hnum : numSegments [0] = 1 := rfl
  refine ⟨_,hacked.loseAck,?_,?_⟩
  · rw [← Bool.not_eq_true,hconsumed.ended,hack,hnum]
    decide
  · rintro (⟨d,hd,-⟩ | ⟨-,hlt | hopen | ⟨a,ha,-⟩⟩)
    · exact Multiset.notMem_zero d hd
    · rw [hone] at hlt
      exact lt_irrefl _ hlt
    · exact absurd hopen (show ¬decide ((0 : UInt32) + 1 > 1) = true by decide)
    · exact Multiset.notMem_zero a ha

/-- Go-back-N can deadlock while the client is still receiving. -/
theorem goBackN_deadlock :
    ¬∀ (order : ByteOrder) (file : List UInt8) (window : UInt32)
      (x : LinkState (Sending GoBackServer) GoBackClient Packet AckPacket), 1 ≤ window →
      (link order window).Run (start file) x → x.client.ended = false →
      ∃ y, (link order window).CalmRun x y ∧ Progress x y := by
  intro h
  obtain ⟨x,hrun,hended,hcan⟩ := lost_ack .little
  obtain ⟨y,hy,hprogress⟩ := h .little [0] 1 x (by decide) hrun hended
  exact not_progress (safe_run hrun) hcan hy.run hprogress

end GoBackN

end ReliableTransfer
