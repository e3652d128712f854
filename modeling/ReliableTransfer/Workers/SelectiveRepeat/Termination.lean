import ReliableTransfer.Workers.SelectiveRepeat.Liveness

/-!
# When a selective-repeat sender can return to a finished client

A client that has returned answers nothing more, so the sender lives on the acknowledgements in
flight.
-/

namespace ReliableTransfer

open Framework

namespace RepeatServer

variable {γ : Type} {order : ByteOrder} {file : List UInt8} {window : UInt32}
  {h : RepeatHooks γ} {room : RepeatClient → Bool} {x y : RepeatLink γ}

def AckInFlight (x : RepeatLink γ) (i : UInt32) : Prop := ∃ a ∈ x.acks, a.ackno = i

theorem mem_of_ackInFlight (hx : (coupling order file window h).Holds x) {i : UInt32}
    (hi : AckInFlight x i) : createAckPacket i ∈ x.acks := by
  obtain ⟨a,ha,rfl⟩ := hi
  obtain ⟨j,rfl,-⟩ := hx.ack a ha
  rwa [createAckPacket_ackno]

theorem outstanding_preserves (order : ByteOrder) (file : List UInt8) (h : RepeatHooks γ)
    (i : UInt32) :
    Preserves order file h (fun _ e => ∀ env a, e = .ack env → env.recv = .ok a → a.ackno ≠ i)
      fun s => s.Outstanding i where
  send t hin hopen hi := ((hin.recordSent hopen t).2.2 i).mpr (Or.inl hi)
  ack hP _ hi hr := ((hr.outstanding i).2 hi).resolve_right fun ⟨a,ha,heq⟩ => hP _ a rfl ha heq
  timers _ hi hreq := (hreq.outstanding i).mpr hi

/-- The client has returned with `i` outstanding and no acknowledgement of it in flight. -/
def abandoned (i : UInt32) : Link.Claim (Sending (RepeatServer γ)) RepeatClient Packet AckPacket where
  parties s c := s.worker.Outstanding i ∧ c.returned = true
  data _ _ _ := True
  ack _ _ a := a.ackno ≠ i

theorem outstanding_of_abandoned (hroom : Roomy order file window room)
    (hx : (coupling order file window h).Holds x) (hclient : x.client.returned = true)
    {i : UInt32} (hi : x.server.worker.Outstanding i) (hlost : ¬AckInFlight x i)
    (hrun : (link h order window room).Run x y) :
    y.server.worker.Outstanding i := by
  have hlost' : (abandoned (γ := γ) i).Holds x :=
    ⟨⟨hi,hclient⟩,fun _ _ => trivial,fun a ha heq => hlost ⟨a,ha,heq⟩⟩
  have hy := ((coupling_inductive h hroom).and (D := abandoned i) ?_ ?_).run (hx.and hlost') hrun
  · exact hy.parties.2.1
  · intro s s' c e out hs hkept hreads hstep
    have hi' : s'.worker.Outstanding i := (outstanding_preserves order file h i).step
      (fun env a he ha => (hreads a (by rw [he]; exact Sending.reads_ack ha)).2) hs
      (fun a ha => (hreads a ha).1) hkept.1 hstep
    exact ⟨⟨⟨hi',hkept.2⟩,fun _ hd => hd,fun _ ha => ha⟩,fun _ _ => trivial⟩
  · intro s c c' d out _ hkept _ _ hacc
    have hnone : RepeatClient.accept order window room c d = none := by
      simp [RepeatClient.accept,hkept.2]
    exact absurd (hnone.symm.trans hacc) (by simp)

theorem not_returned_of_outstanding (hclose : Closes order file h)
    (hy : (coupling order file window h).Holds y) {i : UInt32}
    (hi : y.server.worker.Outstanding i) : y.server.loc ≠ .returned false := by
  intro hret
  have hgood : y.server.Good (ops h) file (Coupled order file window · y.client) := hy.parties
  exact hclose _ hgood.worker.inStep (hgood.done hret) i hi

/-- To return, the sender needs an acknowledgement in flight for every outstanding packet. -/
theorem ackInFlight_of_return (hclose : Closes order file h) (hroom : Roomy order file window room)
    (hx : (coupling order file window h).Holds x) (hclient : x.client.returned = true)
    (hrun : (link h order window room).Run x y)
    (hret : y.server.loc = .returned false) {i : UInt32} (hi : x.server.worker.Outstanding i) :
    AckInFlight x i := by
  by_contra hlost
  exact not_returned_of_outstanding hclose ((coupling_inductive h hroom).run hx hrun)
    (outstanding_of_abandoned hroom hx hclient hi hlost hrun) hret

/-- A way to take the outstanding packets off one after the other, a pass over the timers before
each: `K` names the states in which it goes on, and the packet that comes next is accepted. -/
def Drainable (order : ByteOrder) (file : List UInt8) (h : RepeatHooks γ)
    (K : RepeatServer γ → Prop) : Prop :=
  ∀ s : RepeatServer γ, s.InStep order file → K s → (∃ j, s.Outstanding j) →
    ∃ i, s.Outstanding i ∧
      (∀ n, i < s.baseSeqNo + h.window (h.onTimeout^[n + 1] s.ctl)) ∧
      ∀ s₁ s₂, Requeued order file h s s₁ → Acknowledged order file h i (s₁.touch 0) s₂ → K s₂

theorem drain_acks (hclose : Closes order file h) (hroom : Roomy order file window room)
    {K : RepeatServer γ → Prop} (hdrain : Drainable order file h K) {n : ℕ}
    {s : Sending (RepeatServer γ)} {c : RepeatClient} {D : Multiset Packet}
    {A : Multiset AckPacket} (hcard : A.card = n)
    (hx : (coupling order file window h).Holds ⟨s,c,D,A⟩)
    (hloc : ∀ failed, s.loc ≠ .returned failed)
    (hseq : s.worker.seqNo.toNat = numSegments file + 1) (hK : K s.worker)
    (hacks : ∀ i, s.worker.Outstanding i → createAckPacket i ∈ A) :
    ∃ s' D' A', (link h order window room).CalmRun ⟨s,c,D,A⟩ ⟨s',c,D',A'⟩ ∧
      s'.loc ≠ .returned true ∧ K s'.worker ∧ s'.worker.seqNo.toNat = numSegments file + 1 ∧
      ∀ i, ¬s'.worker.Outstanding i := by
  induction n using Nat.strong_induction_on generalizing s D A with
  | _ n ih =>
    by_cases hout : ∃ j, s.worker.Outstanding j
    · have hin : s.worker.InStep order file := hx.parties.worker.inStep
      obtain ⟨i,hi,hwin,hkeep⟩ := hdrain s.worker hin hK hout
      obtain ⟨site,s₁,D₁,w,m,hreach,hreq,hctl,D₂,-,hfired⟩ := fire_timers hclose hroom hx hloc hi
      rw [hreach.same hseq] at hreq
      have hx₁ := (coupling_inductive h hroom).run hx hfired.run
      have hloc₁ : ∀ failed, site.next ≠ .returned failed := by cases site <;> simp [Site.next]
      have hi₁ := (hreq.outstanding i).mpr hi
      have hwin₁ : i < w.baseSeqNo + h.window w.ctl := by
        rw [hreq.baseSeqNo,hctl]
        exact hwin m
      obtain ⟨site₁,s₂,D₃,w₁,hreach₁,hack,hread⟩ := read_ack hclose hroom hx₁ hloc₁ hi₁ hwin₁
        (hacks i hi)
      have hseq₁ : w.seqNo.toNat = numSegments file + 1 := by rw [hreq.seqNo,hseq]
      rw [hreach₁.same hseq₁] at hack
      have hx₂ := (coupling_inductive h hroom).run hx₁ hread.run
      have hless : (A.erase (createAckPacket i)).card < n := by
        rw [← hcard]
        exact Multiset.card_erase_lt_of_mem (hacks i hi)
      obtain ⟨s',D',A',hrun,hrest⟩ := ih _ hless rfl hx₂ (by simp) (by
        change w₁.seqNo.toNat = _
        rw [hack.seqNo]
        exact hseq₁) (hkeep w w₁ hreq hack) fun j hj => by
          obtain ⟨hj₁,hne⟩ := (hack.outstanding j).mp hj
          have hne' : createAckPacket j ≠ createAckPacket i := fun heq => hne (by
            simpa using congrArg AckPacket.ackno heq)
          exact (Multiset.mem_erase_of_ne hne').mpr (hacks j ((hreq.outstanding j).mp hj₁))
      exact ⟨s',D',A',(hfired.trans hread).trans hrun,hrest⟩
    · exact ⟨s,D,A,.refl,hloc true,hK,hseq,not_exists.mp hout⟩

theorem can_return (hclose : Closes order file h) (hroom : Roomy order file window room)
    {K : RepeatServer γ → Prop} (hdrain : Drainable order file h K)
    (hpend : ∀ s : RepeatServer γ, s.InStep order file → K s → (∀ i, ¬s.Outstanding i) →
      h.pending s = false)
    (hx : (coupling order file window h).Holds x) (hne : x.server.loc ≠ .returned true)
    (hseq : x.server.worker.seqNo.toNat = numSegments file + 1) (hK : K x.server.worker)
    (hacks : ∀ i, x.server.worker.Outstanding i → AckInFlight x i) :
    ∃ y, (link h order window room).CalmRun x y ∧ y.server.loc = .returned false := by
  by_cases hret : x.server.loc = .returned false
  · exact ⟨x,.refl,hret⟩
  · obtain ⟨s,c,D,A⟩ := x
    have hloc (failed : Bool) : s.loc ≠ .returned failed := by
      cases failed
      · exact hret
      · exact hne
    obtain ⟨s',D',A',hrun,hne',hK',hseq',hnone⟩ := drain_acks hclose hroom hdrain rfl hx hloc hseq
      hK fun i hi => mem_of_ackInFlight hx (hacks i hi)
    have hx' := (coupling_inductive h hroom).run hx hrun.run
    have hgood : s'.Good (ops h) file (Coupled order file window · c) := hx'.parties
    have hclosed := Sending.run_close order (RepeatClient.accept order window room) (c := c)
      (D := D') (A := A') (coupled_quiet order file window h c) hgood hne' hseq'
      (hpend _ hgood.worker.inStep hK' hnone)
    exact ⟨_,hrun.trans hclosed,rfl⟩

theorem Coupled.seqNo_of_returned {s : RepeatServer γ} {c : RepeatClient}
    (hs : Coupled order file window s c) (hclient : c.returned = true) :
    s.seqNo.toNat = numSegments file + 1 := by
  rw [RepeatClient.returned,Bool.and_eq_true] at hclient
  have hlast := hs.holding.last hclient.1
  have hlt := hs.got_lt c.lastAckNo (Or.inr ⟨hlast,hclient.1,rfl⟩)
  have hle := hs.seqNo_le
  omega

theorem marker_delivered (order : ByteOrder) (h : RepeatHooks γ) (ctl : γ)
    (hroom : Roomy order List.nil 1 room) (hopen : (fresh ctl).windowOpen h = true) :
    ∃ s c, (link h order 1 room).Run ⟨.start (fresh ctl) List.nil,.fresh,0,0⟩
        ⟨s,c,0,createAckPacket 0 ::ₘ 0⟩ ∧
      c.returned = true ∧ s.loc ≠ .returned true ∧ s.worker.Tidy ∧ s.worker.ctl = ctl ∧
      s.worker.baseSeqNo = 0 ∧ ∀ i, s.worker.Outstanding i ↔ i = 0 := by
  obtain ⟨c,hrun,hacc⟩ := first_delivered order List.nil h ctl hroom hopen
    (P := fun _ _ => True) fun _ _ => trivial
  have hfresh : (fresh ctl).Tidy := fun i hi => absurd hi Std.ExtTreeMap.not_mem_empty
  have hin := fresh_inStep order List.nil ctl
  obtain ⟨-,-,hout⟩ := hin.recordSent hopen ⟨0,0⟩
  refine ⟨_,c,hrun,?_,by simp,hfresh.recordSent hin hopen ⟨0,0⟩,rfl,rfl,
    fun i => (hout i).trans (or_iff_right ?_)⟩
  · have hgot : c.Got List.nil 0 := (hacc.got 0).mpr (Or.inr ⟨by decide,rfl⟩)
    obtain ⟨hended,hlast⟩ := hacc.holding.recorded rfl hgot
    have hbase : c.baseAckNo = 0 := UInt32.toNat_inj.mp (Nat.le_zero.mp hacc.holding.base_le)
    rw [RepeatClient.returned,hended,hlast,hbase]
    rfl
  · intro hi
    exact absurd hi.2.1 (Nat.not_lt_zero _)

end RepeatServer

namespace SelectiveRepeat

variable {order : ByteOrder} {file : List UInt8} {window clientWindow : UInt32}
  {x : RepeatLink UInt32}

theorem onTimeout_iterate (n : ℕ) (window : UInt32) : hooks.onTimeout^[n] window = window :=
  congrFun (Function.iterate_id n) window

/-- Everything outstanding passes the window test, and `seqnums_sent` holds nothing else. -/
structure Readable (window : UInt32) (s : SelectiveRepeatServer) : Prop where
  tidy : s.Tidy
  ctl : s.ctl = window
  admitted : ∀ i, s.Outstanding i → i < s.baseSeqNo + window

/-- The base is acknowledged last, so that the window stays where it is. -/
theorem readable_drainable (order : ByteOrder) (file : List UInt8) (window : UInt32) :
    RepeatServer.Drainable order file hooks (Readable window) := by
  intro s hin hs ⟨j,hj⟩
  have hnext (i : UInt32) (hi : s.Outstanding i)
      (hlast : i = s.baseSeqNo → ∀ k, s.Outstanding k → k = i) :
      ∃ i, s.Outstanding i ∧
        (∀ n, i < s.baseSeqNo + hooks.window (hooks.onTimeout^[n + 1] s.ctl)) ∧
        ∀ s₁ s₂, RepeatServer.Requeued order file hooks s s₁ →
          RepeatServer.Acknowledged order file hooks i (s₁.touch 0) s₂ → Readable window s₂ := by
    refine ⟨i,hi,fun n => ?_,fun s₁ s₂ hreq hack => ?_⟩
    · rw [onTimeout_iterate,hs.ctl]
      exact hs.admitted i hi
    · have hi₁ := (hreq.outstanding i).mpr hi
      have hne : s₁.sendOrder.values ≠ List.nil :=
        List.ne_nil_of_mem ((hreq.inStep.mem_order i).mpr hi₁)
      refine ⟨hack.tidy ((hreq.tidy hs.tidy).touch hreq.inStep hne 0),?_,fun k hk => ?_⟩
      · obtain ⟨n,hn,-⟩ := hreq.ctl
        rw [onTimeout_iterate] at hn
        exact hack.ctl.trans (hn.trans hs.ctl)
      · obtain ⟨hk₁,hki⟩ := (hack.outstanding k).mp hk
        have hk' := (hreq.outstanding k).mp hk₁
        by_cases hbase : i = s.baseSeqNo
        · exact absurd (hlast hbase k hk') hki
        · have heq : s₂.baseSeqNo = s₁.baseSeqNo := hack.base_eq (hreq.inStep.touch 0) hi₁
            (by
              change i ≠ s₁.baseSeqNo
              rwa [hreq.baseSeqNo])
          rw [heq,hreq.baseSeqNo]
          exact hs.admitted k hk'
  by_cases hother : ∃ i, s.Outstanding i ∧ i ≠ s.baseSeqNo
  · obtain ⟨i,hi,hne⟩ := hother
    exact hnext i hi fun hbase => absurd hbase hne
  · push Not at hother
    exact hnext s.baseSeqNo (hin.base_outstanding (lt_of_le_of_lt hj.1 hj.2.1))
      fun _ k hk => hother k hk

theorem wrapped_preserves (order : ByteOrder) (file : List UInt8) {window base : UInt32}
    (hwrap : ¬base < base + window) (i : UInt32) :
    RepeatServer.Preserves order file hooks (fun _ _ => True) fun s =>
      s.baseSeqNo = base ∧ s.ctl = window ∧ s.Outstanding i where
  send t hin hopen hs := ⟨hs.1,hs.2.1,((hin.recordSent hopen t).2.2 i).mpr (Or.inl hs.2.2)⟩
  ack := by
    intro s env w _ _ hs hr
    cases hr with
    | kept ctl hctl => exact ⟨hs.1,(hctl.elim id And.right).trans hs.2.1,hs.2.2⟩
    | taken _ hacc _ _ =>
      have hlo := UInt32.le_iff_toNat_le.mp hacc.1
      have hhi := UInt32.lt_iff_toNat_lt.mp hacc.2
      rw [hs.1] at hlo hhi
      rw [hs.2.1] at hhi
      exact absurd (UInt32.lt_iff_toNat_lt.mpr (hlo.trans_lt hhi)) hwrap
  timers := by
    intro s s' _ hs hreq
    obtain ⟨n,hn,-⟩ := hreq.ctl
    rw [onTimeout_iterate] at hn
    exact ⟨hreq.baseSeqNo.trans hs.1,hn.trans hs.2.1,(hreq.outstanding i).mpr hs.2.2⟩

theorem wraps_of_refused {base i : UInt32} (hspan : i.toNat < base.toNat + window.toNat)
    (hrefused : ¬i < base + window) : ¬base < base + window := by
  intro hwrap
  have hlt := UInt32.lt_iff_toNat_lt.mp hwrap
  have hge := UInt32.le_iff_toNat_le.mp (UInt32.not_lt.mp hrefused)
  rw [UInt32.toNat_add] at hlt hge
  have hmax := window.toNat_lt
  have hi := i.toNat_lt
  omega

theorem returns_iff (hrun : (link order clientWindow).Run (start window file) x)
    (hclient : x.client.returned = true) (hne : x.server.loc ≠ .returned true)
    (htidy : x.server.worker.Tidy) :
    (link order clientWindow).AttainableIff x (fun y => y.server.loc = .returned false)
      (∀ i, x.server.worker.Outstanding i →
        ∃ a ∈ x.acks, a.ackno = i ∧ x.server.worker.Acceptable hooks a) := by
  have hroom := roomy order file clientWindow
  have hclose := closes order file
  obtain ⟨hx,hctl,hspan⟩ := window_run hrun
  have hs : RepeatServer.Coupled order file clientWindow x.server.worker x.client :=
    hx.parties.worker
  refine ⟨fun hacks => ?_,fun y hy hret i hi => ?_⟩
  · have hreadable : Readable window x.server.worker := by
      refine ⟨htidy,hctl,fun i hi => ?_⟩
      obtain ⟨a,-,rfl,hacc⟩ := hacks i hi
      have hlt := hacc.2
      rwa [hctl] at hlt
    refine RepeatServer.can_return hclose hroom (readable_drainable order file window)
      (fun s hin hs' hnone => ?_) hx hne (hs.seqNo_of_returned hclient) hreadable fun i hi => ?_
    · have hempty : s.seqnumsSent = ∅ := Std.ExtTreeMap.eq_empty_iff_forall_not_mem.mpr
        fun i hi => hnone i (hs'.tidy i hi)
      simp [hooks,hempty]
    · obtain ⟨a,ha,heq,-⟩ := hacks i hi
      exact ⟨a,ha,heq⟩
  · obtain ⟨a,ha,heq⟩ := RepeatServer.ackInFlight_of_return hclose hroom hx hclient hy hret hi
    refine ⟨a,ha,heq,?_⟩
    by_contra hrefused
    rw [RepeatServer.Acceptable,heq,hctl,not_and] at hrefused
    have hwrap := wraps_of_refused (hi.2.1.trans_le hspan)
      (hrefused (UInt32.le_iff_toNat_le.mpr hi.1))
    obtain ⟨hy',-,-,hout⟩ := (wrapped_preserves order file hwrap i).run hroom hx ⟨rfl,hctl,hi⟩ hy
    exact RepeatServer.not_returned_of_outstanding hclose hy' hout hret

end SelectiveRepeat

end ReliableTransfer
