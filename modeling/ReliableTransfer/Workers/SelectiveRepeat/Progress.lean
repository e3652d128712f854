import ReliableTransfer.Workers.SelectiveRepeat.Safety

/-!
# When the base of a selective-repeat sender can move

A pass over expired timers resends the base packet, so the base moves if the client still answers
it. The client falls silent about a number once its own base is more than its window ahead.
-/

namespace ReliableTransfer

open Framework

namespace RepeatServer

variable {γ : Type} {order : ByteOrder} {file : List UInt8} {window : UInt32}
  {h : RepeatHooks γ} {room : RepeatClient → Bool} {x y : RepeatLink γ}

def Progress (x y : RepeatLink γ) : Prop :=
  x.server.worker.baseSeqNo.toNat < y.server.worker.baseSeqNo.toNat

/-- The client will never answer this number: it is more than a window below the client's base,
or the receiving window wraps around at it. -/
def Deaf (window base : UInt32) (c : RepeatClient) : Prop :=
  base.toNat + window.toNat < c.baseAckNo.toNat ∨
    (c.baseAckNo = base ∧ ¬base < base + window)

/-- The client is not deaf to the base packet, or has answered it and the answer is in flight. -/
def BaseAnswered (window : UInt32) (x : RepeatLink γ) : Prop :=
  ¬Deaf window x.server.worker.baseSeqNo x.client ∨
    ∃ a ∈ x.acks, a.ackno = x.server.worker.baseSeqNo

theorem reached_keeps {s s' : Sending (RepeatServer γ)} {c : RepeatClient} {D D' : Multiset Packet}
    {A : Multiset AckPacket} (hs : s.worker.InStep order file)
    (hreach : Sending.Reached (ops h) order file (RepeatClient.accept order window room) s c D A
      s' D') :
    s'.worker.baseSeqNo = s.worker.baseSeqNo ∧ s'.worker.ctl = s.worker.ctl ∧
      ∀ i, s.worker.Outstanding i → s'.worker.Outstanding i := by
  rcases hreach.worker with heq | ⟨hopen,-,t,heq⟩
  · rw [heq]
    exact ⟨rfl,rfl,fun _ => id⟩
  · have hout := (hs.recordSent hopen t).2.2
    rw [heq]
    exact ⟨rfl,rfl,fun i hi => (hout i).mpr (Or.inl hi)⟩

theorem pending_of_outstanding (hclose : Closes order file h) {s : RepeatServer γ}
    (hs : s.InStep order file) {i : UInt32} (hi : s.Outstanding i) : h.pending s = true := by
  cases hpend : h.pending s
  · exact absurd hi (hclose s hs hpend i)
  · rfl

theorem not_returned (hclose : Closes order file h) (hx : (coupling order file window h).Holds x)
    (hclient : x.client.returned = false) (hne : x.server.loc ≠ .returned true) (failed : Bool) :
    x.server.loc ≠ .returned failed := by
  intro hloc
  cases failed
  · have hdone := (exact_of_holds hclose hx).finished hloc
    simp [hclient] at hdone
  · exact hne hloc

theorem read_ack (hclose : Closes order file h) (hroom : Roomy order file window room)
    {s : Sending (RepeatServer γ)} {c : RepeatClient} {D : Multiset Packet}
    {A : Multiset AckPacket} (hx : (coupling order file window h).Holds ⟨s,c,D,A⟩)
    (hloc : ∀ failed, s.loc ≠ .returned failed) {i : UInt32} (hi : s.worker.Outstanding i)
    (hwin : i < s.worker.baseSeqNo + h.window s.worker.ctl) (ha : createAckPacket i ∈ A) :
    ∃ site s₁ D₁ w, Sending.Reached (ops h) order file (RepeatClient.accept order window room)
        s c D A s₁ D₁ ∧
      Acknowledged order file h i (s₁.worker.touch 0) w ∧
      (link h order window room).CalmRun ⟨s,c,D,A⟩
        ⟨⟨w,s₁.feeder,.drain site⟩,c,D₁,A.erase (createAckPacket i)⟩ := by
  have hgood : s.Good (ops h) file (Coupled order file window · c) := hx.parties
  have hin := hgood.worker.inStep
  obtain ⟨site,s₁,D₁,hsite,hreach⟩ := Sending.reach_drain order
    (RepeatClient.accept order window room) (c := c) (D := D) (A := A)
    (coupled_quiet order file window h c) hgood hloc fun _ => pending_of_outstanding hclose hin hi
  obtain ⟨hbase₁,hctl₁,hout₁⟩ := reached_keeps hin hreach
  have hx₁ := (coupling_inductive h hroom).run hx hreach.run.run
  have hin₁ : s₁.worker.InStep order file := hx₁.parties.worker.inStep
  have hacc : s₁.worker.Acceptable h (createAckPacket i) := by
    rw [Acceptable,createAckPacket_ackno,hbase₁,hctl₁]
    exact ⟨UInt32.le_iff_toNat_le.mpr hi.1,hwin⟩
  obtain ⟨w,hw,hack⟩ := hin₁.receiveAck_taken h hacc (hout₁ i hi) ⟨0,0⟩
  obtain ⟨loc,hrun,-,hdrain⟩ := Sending.run_ack (ops h) order
    (RepeatClient.accept order window room) (c := c) (D := D₁) hsite ha hw
  obtain rfl := hdrain rfl
  exact ⟨site,s₁,D₁,w,hreach,hack,hreach.run.trans hrun⟩

theorem fire_timers (hclose : Closes order file h) (hroom : Roomy order file window room)
    {s : Sending (RepeatServer γ)} {c : RepeatClient} {D : Multiset Packet}
    {A : Multiset AckPacket} (hx : (coupling order file window h).Holds ⟨s,c,D,A⟩)
    (hloc : ∀ failed, s.loc ≠ .returned failed) {i : UInt32} (hi : s.worker.Outstanding i) :
    ∃ site s₁ D₁ w n, Sending.Reached (ops h) order file (RepeatClient.accept order window room)
        s c D A s₁ D₁ ∧
      Requeued order file h s₁.worker w ∧ w.ctl = h.onTimeout^[n + 1] s.worker.ctl ∧
      ∃ D₂, filePacket order file i ∈ D₂ ∧
        (link h order window room).CalmRun ⟨s,c,D,A⟩
          ⟨⟨w,s₁.feeder,Site.next site⟩,c,D₂,A⟩ := by
  have hgood : s.Good (ops h) file (Coupled order file window · c) := hx.parties
  have hin := hgood.worker.inStep
  obtain ⟨site,s₁,D₁,hsite,hreach⟩ := Sending.reach_timers order
    (RepeatClient.accept order window room) (c := c) (D := D) (A := A)
    (coupled_quiet order file window h c) hgood hloc fun _ => pending_of_outstanding hclose hin hi
  obtain ⟨-,hctl₁,hout₁⟩ := reached_keeps hin hreach
  have hx₁ := (coupling_inductive h hroom).run hx hreach.run.run
  have hin₁ : s₁.worker.InStep order file := hx₁.parties.worker.inStep
  have hmem := (hin₁.mem_order i).mpr (hout₁ i hi)
  obtain ⟨ticks,w,hcalm,hfire,hreq,hctl⟩ := hin₁.updateTimers_fires h
  obtain ⟨n,hn⟩ := Nat.exists_eq_add_one.mpr (List.length_pos_of_mem hmem)
  obtain ⟨loc,hrun,hnext⟩ := Sending.run_timers (ops h) order
    (RepeatClient.accept order window room) (c := c) (D := D₁) (A := A) hsite hcalm hfire
  obtain rfl := hnext rfl
  refine ⟨site,s₁,D₁,w,n,hreach,hreq,by rw [hctl,hn,hctl₁],_,?_,hreach.run.trans hrun⟩
  exact Multiset.mem_add.mpr (Or.inr (Multiset.mem_coe.mpr (List.mem_map_of_mem hmem)))

theorem deaf_iff {base : UInt32} {c : RepeatClient} (hle : base.toNat ≤ c.baseAckNo.toNat) :
    Deaf window base c ↔ ¬c.Answers window base := by
  rcases hle.lt_or_eq with hlt | heq
  · have hold : base < c.baseAckNo := UInt32.lt_iff_toNat_lt.mpr hlt
    have hne : c.baseAckNo ≠ base := fun h => absurd hold (h ▸ UInt32.lt_irrefl _)
    have hans : c.Answers window base ↔ c.minPack window ≤ base := by
      simp [RepeatClient.Answers,RepeatClient.Old,RepeatClient.InWindow,hold]
    rw [hans,Deaf,RepeatClient.minPack,UInt32.le_iff_toNat_le,or_iff_left fun h => hne h.1]
    split
    · next hgt =>
      have hgt' := UInt32.lt_iff_toNat_lt.mp hgt
      rw [UInt32.toNat_sub_of_le _ _ (UInt32.le_iff_toNat_le.mpr hgt'.le)]
      omega
    · next hgt =>
      have hgt' := UInt32.le_iff_toNat_le.mp (UInt32.not_lt.mp hgt)
      rw [UInt32.toNat_zero]
      omega
  · obtain rfl := UInt32.toNat_inj.mp heq
    have hans : c.Answers window c.baseAckNo ↔ c.baseAckNo < c.baseAckNo + window := by
      simp [RepeatClient.Answers,RepeatClient.Old,RepeatClient.InWindow,UInt32.lt_irrefl]
    rw [hans,Deaf,or_iff_right (by omega)]
    exact and_iff_right rfl

theorem Coupled.base_le_ackNo {s : RepeatServer γ} {c : RepeatClient}
    (hs : Coupled order file window s c) (hclient : c.returned = false) :
    s.baseSeqNo.toNat ≤ c.baseAckNo.toNat := by
  by_contra hlt
  have hbase := hs.inStep.base_le
  rcases hs.acked_got c.baseAckNo (by omega) (fun hout => hlt hout.1) with
    (hlt' | hmem) | ⟨-,hended,hlast⟩
  · exact lt_irrefl _ hlt'
  · exact hs.holding.base_notMem hmem
  · simp [RepeatClient.returned,hended,hlast] at hclient

theorem progress_of_outstanding (hclose : Closes order file h)
    (hroom : Roomy order file window room) (hx : (coupling order file window h).Holds x)
    (hclient : x.client.returned = false) (hne : x.server.loc ≠ .returned true)
    (hlt : x.server.worker.baseSeqNo.toNat < x.server.worker.seqNo.toNat)
    (hwin : ∀ n, x.server.worker.baseSeqNo <
      x.server.worker.baseSeqNo + h.window (h.onTimeout^[n + 1] x.server.worker.ctl))
    (hans : BaseAnswered window x) :
    ∃ y, (link h order window room).CalmRun x y ∧ Progress x y := by
  obtain ⟨s,c,D,A⟩ := x
  dsimp only [BaseAnswered] at hclient hne hlt hwin hans
  have hs : Coupled order file window s.worker c := hx.parties.worker
  have hbase := hs.inStep.base_outstanding hlt
  obtain ⟨site,s₁,D₁,w,n,hreach,hreq,hctl,D₂,hmem,hfired⟩ := fire_timers hclose hroom hx
    (not_returned hclose hx hclient hne) hbase
  have hw : w.baseSeqNo = s.worker.baseSeqNo :=
    hreq.baseSeqNo.trans (reached_keeps hs.inStep hreach).1
  have hout : w.Outstanding s.worker.baseSeqNo :=
    (hreq.outstanding _).mpr ((reached_keeps hs.inStep hreach).2.2 _ hbase)
  have hopen : s.worker.baseSeqNo < w.baseSeqNo + h.window w.ctl := by
    rw [hw,hctl]
    exact hwin n
  have hloc : ∀ failed, site.next ≠ .returned failed := by cases site <;> simp [Site.next]
  have hfinish {c' : RepeatClient} {D' : Multiset Packet} {A' : Multiset AckPacket}
      (hrun : (link h order window room).CalmRun ⟨s,c,D,A⟩ ⟨⟨w,s₁.feeder,site.next⟩,c',D',A'⟩)
      (ha : createAckPacket s.worker.baseSeqNo ∈ A') :
      ∃ y, (link h order window room).CalmRun ⟨s,c,D,A⟩ y ∧ Progress ⟨s,c,D,A⟩ y := by
    have hx' := (coupling_inductive h hroom).run hx hrun.run
    obtain ⟨site',s₃,D₃,w₃,hreach₃,hack,hrun₃⟩ := read_ack hclose hroom hx' hloc hout hopen ha
    have hbase₃ := (reached_keeps hreq.inStep hreach₃).1.trans hw
    refine ⟨_,hrun.trans hrun₃,?_⟩
    have hgrown : s₃.worker.baseSeqNo.toNat < w₃.baseSeqNo.toNat := hack.base_lt hbase₃.symm
    rwa [hbase₃] at hgrown
  rcases hans with hdeaf | ⟨a,ha,haeq⟩
  · have hans : c.Answers window s.worker.baseSeqNo :=
      not_not.mp (mt (deaf_iff (hs.base_le_ackNo hclient)).mpr hdeaf)
    obtain ⟨c',hc',-⟩ := hs.accept hroom hclient hlt
    rw [if_pos hans] at hc'
    obtain ⟨D',-,hrun⟩ := Link.CalmRun.accept (L := link h order window room)
      (s := ⟨w,s₁.feeder,site.next⟩) (A := A) hmem hc'
    exact hfinish (hfired.trans hrun) (by simp)
  · obtain ⟨i,rfl,-⟩ := hx.ack a ha
    rw [createAckPacket_ackno] at haeq
    exact hfinish hfired (haeq ▸ ha)

theorem progress_of_idle (hclose : Closes order file h)
    (hroom : Roomy order file window room) (hx : (coupling order file window h).Holds x)
    (hclient : x.client.returned = false) (hne : x.server.loc ≠ .returned true)
    (heq : x.server.worker.baseSeqNo = x.server.worker.seqNo)
    (hopen : x.server.worker.windowOpen h = true)
    (hwin : ∀ n, x.server.worker.baseSeqNo <
      x.server.worker.baseSeqNo + h.window (h.onTimeout^[n + 1] x.server.worker.ctl))
    (hans : BaseAnswered window x) :
    ∃ y, (link h order window room).CalmRun x y ∧ Progress x y := by
  obtain ⟨s,c,D,A⟩ := x
  dsimp only [BaseAnswered] at hclient hne heq hopen hwin hans
  have hgood : s.Good (ops h) file (Coupled order file window · c) := hx.parties
  have hs := hgood.worker
  have hle : s.worker.seqNo.toNat ≤ numSegments file :=
    heq ▸ (hs.base_le_ackNo hclient).trans hs.holding.base_le
  have hsent := Sending.reach_send order (RepeatClient.accept order window room) (c := c) (D := D)
    (A := A) (coupled_quiet order file window h c) hgood
    (not_returned hclose hx hclient hne) hle hopen ⟨0,0⟩
  have hseq := (hs.inStep.recordSent hopen ⟨0,0⟩).2.1
  have hx' := (coupling_inductive h hroom).run hx hsent.run
  obtain ⟨y,hy,hprogress⟩ := progress_of_outstanding hclose hroom hx' hclient (by simp)
    (hseq.ge.trans_lt' (Nat.lt_succ_of_le hs.inStep.base_le)) hwin hans
  exact ⟨y,hsent.trans hy,hprogress⟩

theorem run_unacked (hclose : Closes order file h) (hroom : Roomy order file window room)
    {s : Sending (RepeatServer γ)} {c : RepeatClient} {D : Multiset Packet}
    {A : Multiset AckPacket} (hx : (coupling order file window h).Holds ⟨s,c,D,A⟩)
    (hne : s.loc ≠ .returned true) (hack : c.baseAckNo = s.worker.seqNo)
    (hseg : s.worker.seqNo.toNat < numSegments file) (hopen : s.worker.windowOpen h = true)
    (hwin : s.worker.seqNo < s.worker.seqNo + window) :
    ∃ c', (link h order window room).Run ⟨s,c,D,A⟩
        ⟨⟨s.worker.recordSent (filePacket order file s.worker.seqNo) ⟨0,0⟩,
          feederAt file (s.worker.seqNo.toNat + 1),.drain .afterSend⟩,c',D,A⟩ ∧
      c'.baseAckNo = s.worker.seqNo + 1 := by
  have hgood : s.Good (ops h) file (Coupled order file window · c) := hx.parties
  have hs := hgood.worker
  have hret : c.returned = false := hs.holding.not_returned (hack ▸ hseg)
  have hsent := Sending.reach_send order (RepeatClient.accept order window room) (c := c) (D := D)
    (A := A) (coupled_quiet order file window h c) hgood
    (not_returned hclose hx hret hne) hseg.le hopen ⟨0,0⟩
  obtain ⟨-,hseq,-⟩ := hs.inStep.recordSent hopen ⟨0,0⟩
  have hs₁ := ((coupling_inductive h hroom).run hx hsent.run).parties.worker
  have hin : c.InWindow window s.worker.seqNo := by
    rw [RepeatClient.InWindow,hack]
    exact ⟨UInt32.lt_irrefl _,UInt32.not_le.mpr hwin⟩
  obtain ⟨c',hc',haccepted⟩ := Coupled.accept hs₁ hroom hret (hseq.ge.trans_lt' (Nat.lt_succ_self _))
  have hans : c.Answers window s.worker.seqNo := Or.inr hin
  rw [if_pos hans] at hc'
  have hacked := hsent.run.accept hc'
  rw [Multiset.coe_singleton,add_comm A,Multiset.singleton_add] at hacked
  have hlost := hacked.loseAck
  refine ⟨c',hlost,?_⟩
  have hs' := ((coupling_inductive h hroom).run hx hlost).parties.worker
  have hhi : c'.baseAckNo.toNat ≤ s.worker.seqNo.toNat + 1 := hs'.ackNo_le.trans_eq hseq
  have hlo := haccepted.base_lt hin hack hseg
  exact UInt32.toNat_inj.mp ((le_antisymm hhi hlo).trans hseq.symm)

/-- The base stands still: the client is deaf to it and no acknowledgement of it is in flight. -/
def silence (window base : UInt32) :
    Link.Claim (Sending (RepeatServer γ)) RepeatClient Packet AckPacket where
  parties s c := s.worker.baseSeqNo = base ∧ Deaf window base c
  data _ _ _ := True
  ack _ _ a := a.ackno ≠ base

theorem base_preserves (order : ByteOrder) (file : List UInt8) (h : RepeatHooks γ)
    (base : UInt32) :
    Preserves order file h
      (fun _ e => ∀ env a, e = .ack env → env.recv = .ok a → a.ackno ≠ base)
      fun s => s.baseSeqNo = base where
  send _ _ _ hbase := hbase
  ack hP hs hbase hr := (hr.base_eq hs fun a ha => hbase ▸ hP _ a rfl ha).trans hbase
  timers _ hbase hreq := hreq.baseSeqNo.trans hbase

theorem silence_serve {base : UInt32} {s s' : Sending (RepeatServer γ)} {c : RepeatClient}
    {e : SenderEvent} {out : List Packet} (hs : (coupling order file window h).parties s c)
    (hsilent : (silence window base).parties s c)
    (hreads : ∀ a, (link h order window room).reads e = some a →
      (coupling order file window h).ack s c a ∧ (silence window base).ack s c a)
    (hstep : s.step (ops h) order e = some (s',out)) :
    (silence window base).Kept s c s' c ∧ ∀ d ∈ out, (silence window base).data s' c d := by
  have hbase : s'.worker.baseSeqNo = base :=
    (base_preserves order file h base).step
      (fun env a he ha => (hreads a (by rw [he]; exact Sending.reads_ack ha)).2) hs
      (fun a ha => (hreads a ha).1) hsilent.1 hstep
  exact ⟨⟨⟨hbase,hsilent.2⟩,fun _ hd => hd,fun _ ha => ha⟩,fun _ _ => trivial⟩

theorem silence_accept (hroom : Roomy order file window room) {base : UInt32}
    {s : Sending (RepeatServer γ)} {c c' : RepeatClient} {d : Packet} {out : List AckPacket}
    (hs : (coupling order file window h).parties s c) (hsilent : (silence window base).parties s c)
    (hd : (coupling order file window h).data s c d)
    (hacc : RepeatClient.accept order window room c d = some (c',out)) :
    (silence window base).Kept s c s c' ∧ ∀ a ∈ out, (silence window base).ack s c' a := by
  obtain ⟨i,rfl,hi⟩ := hd
  obtain ⟨hbase,hdeaf⟩ := hsilent
  have hcoupled : Coupled order file window s.worker c := hs.worker
  cases hret : c.returned
  · obtain ⟨c₁,hc₁,haccepted⟩ := hcoupled.accept hroom hret hi
    obtain ⟨rfl,rfl⟩ := Prod.mk.inj (Option.some.inj (hc₁.symm.trans hacc))
    have hback : base.toNat ≤ c.baseAckNo.toNat := hbase ▸ hcoupled.base_le_ackNo hret
    refine ⟨⟨⟨hbase,?_⟩,fun _ hd => hd,fun _ ha => ha⟩,fun a ha heq => ?_⟩
    · rcases hdeaf with hfar | ⟨hack,hwrap⟩
      · exact Or.inl (hfar.trans_le haccepted.base_le)
      · have hshut : ¬c.InWindow window i := fun hwin => by
          have hlo := UInt32.le_iff_toNat_le.mp (UInt32.not_lt.mp hwin.1)
          have hhi := UInt32.lt_iff_toNat_lt.mp (UInt32.not_le.mp hwin.2)
          rw [hack] at hlo hhi
          exact hwrap (UInt32.lt_iff_toNat_lt.mpr (hlo.trans_lt hhi))
        rw [haccepted.other hshut]
        exact Or.inr ⟨hack,hwrap⟩
    · split at ha
      · next hans =>
        rw [List.mem_singleton] at ha
        rw [ha,createAckPacket_ackno] at heq
        exact (deaf_iff hback).mp hdeaf (heq ▸ hans)
      · simp at ha
  · simp [RepeatClient.accept,hret] at hacc

/-- A deaf client and no acknowledgement in flight: the base never moves again. -/
theorem not_progress_of_deaf (hroom : Roomy order file window room)
    (hx : (coupling order file window h).Holds x)
    (hdeaf : Deaf window x.server.worker.baseSeqNo x.client)
    (hacks : ∀ a ∈ x.acks, a.ackno ≠ x.server.worker.baseSeqNo)
    (hrun : (link h order window room).Run x y) :
    ¬Progress x y := by
  have hsilent : (silence (γ := γ) window x.server.worker.baseSeqNo).Holds x :=
    ⟨⟨rfl,hdeaf⟩,fun _ _ => trivial,hacks⟩
  have hy := ((coupling_inductive h hroom).and
    (fun hs hsilent hreads hstep => silence_serve hs hsilent hreads hstep)
    (fun hs hsilent hd _ hacc => silence_accept hroom hs hsilent hd hacc)).run (hx.and hsilent) hrun
  have hbase : y.server.worker.baseSeqNo = x.server.worker.baseSeqNo := hy.parties.2.1
  rw [Progress,hbase]
  exact lt_irrefl _

theorem not_progress_of_shut (hroom : Roomy order file window room)
    (hx : (coupling order file window h).Holds x)
    (heq : x.server.worker.baseSeqNo = x.server.worker.seqNo)
    (hshut : x.server.worker.windowOpen h = false)
    (hrun : (link h order window room).CalmRun x y) :
    ¬Progress x y := by
  let still (s : RepeatServer γ) : Prop := s.baseSeqNo = x.server.worker.baseSeqNo ∧
    s.seqNo = x.server.worker.seqNo ∧ s.ctl = x.server.worker.ctl
  have hidle (s : RepeatServer γ) (hs : still s) (i : UInt32) : ¬s.Outstanding i := by
    rintro ⟨hlo,hhi,-⟩
    rw [hs.1,heq] at hlo
    rw [hs.2.1] at hhi
    omega
  have hstill : Preserves order file h
      (fun _ e => (link h order window room).calm e) still := by
    refine ⟨fun t _ hopen hs => ?_,fun hcalm _ hs hr => ?_,fun _ hs hreq => ?_⟩
    · rw [windowOpen,hs.1,hs.2.1,hs.2.2] at hopen
      exact absurd (hopen.symm.trans hshut) (by simp)
    · cases hr with
      | kept ctl hctl =>
        exact ⟨hs.1,hs.2.1,(hctl.resolve_right fun hlate => hlate.1 hcalm).trans hs.2.2⟩
      | taken _ _ hout _ => exact absurd hout (hidle _ hs _)
    · obtain ⟨n,hn,hout⟩ := hreq.ctl
      have hzero : n = 0 := by
        by_contra hne
        obtain ⟨i,hi⟩ := hout hne
        exact hidle _ hs i hi
      rw [hzero] at hn
      exact ⟨hreq.baseSeqNo.trans hs.1,hreq.seqNo.trans hs.2.1,hn.trans hs.2.2⟩
  have hy := (hstill.run hroom hx ⟨rfl,rfl,rfl⟩ hrun.runWhere).2
  rw [Progress,hy.1]
  exact lt_irrefl _

/-- When the base can move without a loss, as long as a pass over the timers leaves a window that
admits it. -/
theorem progress_iff (hclose : Closes order file h) (hroom : Roomy order file window room)
    (hx : (coupling order file window h).Holds x) (hclient : x.client.returned = false)
    (hwin : x.server.worker.windowOpen h = true ∨
        x.server.worker.baseSeqNo.toNat < x.server.worker.seqNo.toNat →
      ∀ n, x.server.worker.baseSeqNo <
        x.server.worker.baseSeqNo + h.window (h.onTimeout^[n + 1] x.server.worker.ctl)) :
    (∃ y, (link h order window room).CalmRun x y ∧ Progress x y) ↔
    x.server.loc ≠ .returned true ∧
      (x.server.worker.baseSeqNo = x.server.worker.seqNo → x.server.worker.windowOpen h = true) ∧
      BaseAnswered window x := by
  have hs : Coupled order file window x.server.worker x.client := hx.parties.worker
  constructor
  · rintro ⟨y,hrun,hprogress⟩
    refine ⟨fun hret => ?_,fun heq => ?_,?_⟩
    · rw [Progress,Sending.run_returned hret hrun.run] at hprogress
      exact lt_irrefl _ hprogress
    · by_contra hshut
      exact not_progress_of_shut hroom hx heq (Bool.not_eq_true _ ▸ hshut) hrun hprogress
    · by_contra hnone
      rw [BaseAnswered,not_or,not_not,not_exists] at hnone
      exact not_progress_of_deaf hroom hx hnone.1 (fun a ha heq => hnone.2 a ⟨ha,heq⟩) hrun.run
        hprogress
  · rintro ⟨hne,hopen,hans⟩
    by_cases heq : x.server.worker.baseSeqNo = x.server.worker.seqNo
    · exact progress_of_idle hclose hroom hx hclient hne heq (hopen heq)
        (hwin (Or.inl (hopen heq))) hans
    · have hlt : x.server.worker.baseSeqNo.toNat < x.server.worker.seqNo.toNat :=
        lt_of_le_of_ne hs.inStep.base_le fun h => heq (UInt32.toNat_inj.mp h)
      exact progress_of_outstanding hclose hroom hx hclient hne hlt (hwin (Or.inr hlt)) hans

end RepeatServer

end ReliableTransfer
