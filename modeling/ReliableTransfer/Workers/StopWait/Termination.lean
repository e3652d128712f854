import ReliableTransfer.Workers.StopWait.Safety

/-!
# When a stop-and-wait sender can return to a finished client

The marker is the last packet the server sends, whatever the numbers have done before it, so the
server of a client that has returned waits for the acknowledgement of the marker or has got it.
-/

namespace ReliableTransfer

open Framework

namespace StopWaitServer

variable {order : ByteOrder} {file : List UInt8}

/-- A step keeps and sends what was kept before, or the packet of the next segment. -/
inductive Sends (order : ByteOrder) (s s' : StopWaitServer) (out : List Packet) : Prop
  | again : s'.feeder = s.feeder → (∀ p, s'.kept = some p ∨ p ∈ out → s.kept = some p) →
      Sends order s s' out
  | next : s.feeder.hasNext = true → s'.feeder = s.feeder.getNextDataSegment.2 →
      (∀ p, s'.kept = some p ∨ p ∈ out →
        p = createDataPacketCore order s.feeder.getNextDataSegment.1 s.seqNo) →
      Sends order s s' out

theorem step_sends {s s' : StopWaitServer} {e : StopWaitEvent} {out : List Packet}
    (h : s.step order e = some (s',out)) : Sends order s s' out := by
  cases step_stepped h with
  | returned =>
    refine .again rfl fun p hp => ?_
    simp [kept] at hp
  | next hloc hnext hpacket hkeep hout =>
    refine .next hnext rfl fun p hp => hpacket ▸ ?_
    rcases hp with hp | hp
    · rcases hkeep with hkept | rfl
      · exact Option.some.inj (hp.symm.trans hkept)
      · contradiction
    · exact hout p hp
  | again hkept hkeep hout =>
    refine .again rfl fun p hp => ?_
    rcases hp with hp | hp
    · rcases hkeep with hkept' | rfl
      · rw [hkept,← hkept',hp]
      · contradiction
    · rw [hkept,hout p hp]
  | acked =>
    refine .again rfl fun p hp => ?_
    simp [kept] at hp

/-- The feeder stands somewhere in the file, at its end if the kept packet is the marker. -/
structure Feeding (file : List UInt8) (s : StopWaitServer) : Prop where
  feeder : ∃ i, s.feeder = feederAt file i
  marker : ∀ packet, s.kept = some packet → packet.len = 8 → s.feeder.hasNext = false

structure Fed (file : List UInt8) (s s' : StopWaitServer) (out : List Packet) : Prop where
  feeding : s'.Feeding file
  hasNext : s.feeder.hasNext = false → s'.feeder.hasNext = false
  out : ∀ d ∈ out, d.len = 8 → s'.feeder.hasNext = false

theorem step_fed {s s' : StopWaitServer} {e : StopWaitEvent} {out : List Packet}
    (hs : s.Feeding file) (h : s.step order e = some (s',out)) : Fed file s s' out := by
  obtain ⟨i,hi⟩ := hs.feeder
  cases step_sends h with
  | again hfeeder hall =>
    refine ⟨⟨⟨i,hfeeder.trans hi⟩,?_⟩,?_,?_⟩ <;> rw [hfeeder]
    · exact fun p hp => hs.marker p (hall p (Or.inl hp))
    · exact id
    · exact fun p hp => hs.marker p (hall p (Or.inr hp))
  | next hnext hfeeder hall =>
    rw [hi,hasNext_feederAt] at hnext
    rw [hi,getNextDataSegment_feederAt file hnext] at hfeeder hall
    have hmarker (p : Packet) (hp : s'.kept = some p ∨ p ∈ out) (hlen : p.len = 8) :
        s'.feeder.hasNext = false := by
      rw [hall p hp,createDataPacketCore_len_eq_header,segment_size_eq_zero] at hlen
      rw [hfeeder,← Bool.not_eq_true,hasNext_feederAt]
      omega
    refine ⟨⟨⟨i + 1,hfeeder⟩,fun p hp => hmarker p (Or.inl hp)⟩,fun hdone => ?_,
      fun p hp => hmarker p (Or.inr hp)⟩
    rw [hi,← Bool.not_eq_true,hasNext_feederAt] at hdone
    exact absurd hnext hdone

/-- Neither at the loop head nor returned without a failure. -/
def Pending (s : StopWaitServer) : Prop := s.kept ≠ none ∨ s.loc = .returned true

theorem step_pending {s s' : StopWaitServer} {e : StopWaitEvent} {out : List Packet}
    (hs : s.Pending) (h : s.step order e = some (s',out)) :
    (s'.Pending ∧ s'.seqNo = s.seqNo) ∨ ∃ now a, e = .receive now (.ok a) ∧ a.ackno = s.seqNo := by
  have hhead : s.loc ≠ .head := fun hloc => by simp [Pending,kept,hloc] at hs
  cases step_stepped h with
  | returned hloc => exact absurd hloc hhead
  | next hloc => exact absurd hloc hhead
  | again hkept hkeep =>
    refine Or.inl ⟨?_,rfl⟩
    rcases hkeep with hkept' | rfl
    · exact Or.inl (by simp [hkept'])
    · exact Or.inr rfl
  | @acked packet now a hkept he hack => exact Or.inr ⟨now,a,he,hack⟩

end StopWaitServer

/-- What a client that has one answers with is an acknowledgement. -/
def StopWaitClient.Answering (c : StopWaitClient) : Prop :=
  c.sentOne = true → ∃ i, c.lastPack = createAckPacket i

theorem StopWaitClient.recvMessage_answering {order : ByteOrder} {c c' : StopWaitClient}
    {packet : Packet} {out : List AckPacket} (hc : c.Answering)
    (h : c.recvMessage order (.ok packet) = some (c',out)) :
    c'.Answering ∧ (c'.ended = true → c.ended = true ∨ packet.len = 8) ∧
      ∀ a ∈ out, ∃ i, a = createAckPacket i := by
  simp only [recvMessage] at h
  split at h
  · split at h
    · obtain ⟨data,-,hnext⟩ := Option.bind_eq_some_iff.mp h
      simp only [Option.some.injEq,Prod.mk.injEq] at hnext
      obtain ⟨rfl,rfl⟩ := hnext
      exact ⟨fun _ => ⟨_,rfl⟩,Or.inl,fun a ha => ⟨_,List.mem_singleton.mp ha⟩⟩
    · next hlen =>
      simp only [Option.some.injEq,Prod.mk.injEq] at h
      obtain ⟨rfl,rfl⟩ := h
      exact ⟨fun _ => ⟨_,rfl⟩,fun _ => Or.inr (not_not.mp hlen),
        fun a ha => ⟨_,List.mem_singleton.mp ha⟩⟩
  · simp only [Option.some.injEq,Prod.mk.injEq] at h
    obtain ⟨rfl,rfl⟩ := h
    refine ⟨hc,Or.inl,fun a ha => ?_⟩
    split at ha
    · next hone =>
      obtain ⟨i,hi⟩ := hc hone
      exact ⟨i,(List.mem_singleton.mp ha).trans hi⟩
    · simp at ha

namespace StopWait

variable {order : ByteOrder} {file : List UInt8}
  {x y : LinkState StopWaitServer StopWaitClient Packet AckPacket}

/-- The marker is nowhere before the feeder has come to the end of the file. -/
def marked (file : List UInt8) : Link.Claim StopWaitServer StopWaitClient Packet AckPacket where
  parties s c := s.Feeding file ∧ c.Answering ∧ (c.ended = true → s.feeder.hasNext = false)
  data s _ d := d.len = 8 → s.feeder.hasNext = false
  ack _ _ a := ∃ i, a = createAckPacket i

theorem marked_inductive (order : ByteOrder) (file : List UInt8) :
    (link order).Inductive (marked file) where
  serve := by
    intro s s' c e out hp _ hs
    obtain ⟨hfeeding,hc,hended⟩ := hp
    have hfed := StopWaitServer.step_fed hfeeding hs
    exact ⟨⟨⟨hfed.feeding,hc,fun h => hfed.hasNext (hended h)⟩,
      fun _ hd hlen => hfed.hasNext (hd hlen),fun _ ha => ha⟩,hfed.out⟩
  accept := by
    intro s c c' d out hp hd h
    obtain ⟨hfeeding,hc,hended⟩ := hp
    simp only [link] at h
    split at h
    · contradiction
    · obtain ⟨hc',hended',hout⟩ := StopWaitClient.recvMessage_answering hc h
      exact ⟨⟨⟨hfeeding,hc',fun he => (hended' he).elim hended hd⟩,fun _ hd => hd,fun _ ha => ha⟩,
        hout⟩

theorem marked_run (hrun : (link order).Run (start file) x) : (marked file).Holds x := by
  refine (marked_inductive order file).run ⟨⟨⟨⟨0,rfl⟩,?_⟩,?_,?_⟩,?_,?_⟩ hrun
  · simp [start,StopWaitServer.kept]
  · simp [start,StopWaitClient.Answering]
  all_goals simp [start]

/-- The client has returned, the server waits, and the awaited acknowledgement is not in flight. -/
def stranded (last : UInt32) : Link.Claim StopWaitServer StopWaitClient Packet AckPacket where
  parties s c := c.ended = true ∧ s.Pending ∧ s.seqNo = last
  data _ _ _ := True
  ack _ _ a := a.ackno ≠ last

theorem stranded_inductive (order : ByteOrder) (last : UInt32) :
    (link order).Inductive (stranded last) where
  serve := by
    intro s s' c e out hp hreads hs
    obtain ⟨hended,hpending,rfl⟩ := hp
    rcases StopWaitServer.step_pending hpending hs with ⟨hpending',hseq⟩ | ⟨now,a,rfl,hack⟩
    · exact ⟨⟨⟨hended,hpending',hseq⟩,fun _ hd => hd,fun _ ha => ha⟩,fun _ _ => trivial⟩
    · exact absurd hack (hreads a rfl)
  accept := by
    intro s c c' d out hp _ h
    simp [link,hp.1] at h

variable (order) in
theorem run_rewait {s : StopWaitServer} {c : StopWaitClient} {D : Multiset Packet}
    {A : Multiset AckPacket} {packet : Packet} (hkept : s.kept = some packet) :
    ∃ D', (link order).CalmRun ⟨s,c,D,A⟩
      ⟨{ s with loc := .rewait packet fullTimeout ⟨0,0⟩ },c,D',A⟩ := by
  have hresend : (link order).CalmRun ⟨{ s with loc := .resend packet },c,D,A⟩
      ⟨{ s with loc := .rewait packet fullTimeout ⟨0,0⟩ },c,D + ([packet] : List Packet),A⟩ :=
    Link.CalmRun.serve (L := link order) (e := .send (calmTick ⟨0,0⟩)) (calmTick_calm _) rfl rfl
  have hexpire (tv sendTime : Timeval)
      (hstep : ∀ now, (updateRemainingTimeout tv sendTime now).1 = true →
        s.step order (.expire now) = some ({ s with loc := .resend packet },List.nil)) :
      (link order).CalmRun ⟨s,c,D,A⟩ ⟨{ s with loc := .resend packet },c,D,A⟩ := by
    let now : Timeval := ⟨0,sendTime.micros + tv.micros⟩
    have hnow : (updateRemainingTimeout tv sendTime now).1 = true := by
      simp [updateRemainingTimeout,updateRemainingTimeoutNc,now,Timeval.micros]
    have hrun : (link order).CalmRun ⟨s,c,D,A⟩ _ :=
      Link.CalmRun.serve (L := link order) (e := .expire now) trivial rfl (hstep now hnow)
    rwa [Multiset.coe_nil,add_zero] at hrun
  obtain ⟨seqNo,feeder,loc⟩ := s
  cases loc with
  | head => simp [StopWaitServer.kept] at hkept
  | wait p tv sendTime =>
    obtain rfl : p = packet := by simpa [StopWaitServer.kept] using hkept
    exact ⟨_,(hexpire tv sendTime fun now hnow => by
      simp [StopWaitServer.step,StopWaitServer.badPack,hnow]).trans hresend⟩
  | resend p =>
    obtain rfl : p = packet := by simpa [StopWaitServer.kept] using hkept
    exact ⟨_,hresend⟩
  | rewait p tv sendTime =>
    obtain rfl : p = packet := by simpa [StopWaitServer.kept] using hkept
    exact ⟨_,(hexpire tv sendTime fun now hnow => by
      simp [StopWaitServer.step,StopWaitServer.badPack,hnow]).trans hresend⟩
  | returned failed => simp [StopWaitServer.kept] at hkept

/-- When `StopWaitServer` can return to a client that has: nothing is kept, or the acknowledgement
of the kept packet is in flight. -/
theorem returns_iff (hrun : (link order).Run (start file) x) (hended : x.client.ended = true)
    (hne : x.server.loc ≠ .returned true) :
    (link order).AttainableIff x (fun y => y.server.loc = .returned false)
      (x.server.kept = none ∨ ∃ a ∈ x.acks, a.ackno = x.server.seqNo) := by
  have hx := marked_run hrun
  obtain ⟨s,c,D,A⟩ := x
  have hnext : s.feeder.hasNext = false := hx.parties.2.2 hended
  dsimp only at hended hne ⊢
  refine ⟨?_,fun y hy hret => ?_⟩
  · have hstop (seqNo : UInt32) (D : Multiset Packet) (A : Multiset AckPacket) :
        (link order).CalmRun ⟨⟨seqNo,s.feeder,.head⟩,c,D,A⟩
          ⟨⟨seqNo,s.feeder,.returned false⟩,c,D + (List.nil : List Packet),A⟩ :=
      Link.CalmRun.serve (L := link order) (e := .stop) trivial rfl (by
        simp [link,StopWaitServer.step,hnext])
    cases hkept : s.kept with
    | none =>
      intro _
      obtain ⟨seqNo,feeder,loc⟩ := s
      cases loc with
      | head => exact ⟨_,hstop seqNo D A,rfl⟩
      | returned failed =>
        cases failed
        · exact ⟨_,.refl,rfl⟩
        · exact absurd rfl hne
      | wait p tv t => simp [StopWaitServer.kept] at hkept
      | resend p => simp [StopWaitServer.kept] at hkept
      | rewait p tv t => simp [StopWaitServer.kept] at hkept
    | some packet =>
      rintro (hnone | ⟨a,ha,hack⟩)
      · contradiction
      · obtain ⟨i,rfl⟩ := hx.ack a ha
        rw [createAckPacket_ackno] at hack
        obtain ⟨D',hwait⟩ := run_rewait order (c := c) (D := D) (A := A) hkept
        have hstep : (link order).serve { s with loc := .rewait packet fullTimeout ⟨0,0⟩ }
            (.receive ⟨0,0⟩ (.ok (createAckPacket i))) =
              some (⟨s.seqNo + 1,s.feeder,.head⟩,List.nil) := by
          simp [link,StopWaitServer.step,StopWaitServer.badPack,updateRemainingTimeout,
            updateRemainingTimeoutNc,fullTimeout,Timeval.micros,hack]
        obtain ⟨A',-,hread⟩ := Link.CalmRun.read (L := link order) (k := c) (D := D')
          (e := .receive ⟨0,0⟩ (.ok (createAckPacket i))) ha trivial rfl hstep
        exact ⟨_,(hwait.trans hread).trans (hstop _ _ _),rfl⟩
  · by_contra hnot
    rw [not_or,not_exists] at hnot
    have hst : (stranded s.seqNo).Holds ⟨s,c,D,A⟩ :=
      ⟨⟨hended,Or.inl hnot.1,rfl⟩,fun _ _ => trivial,fun a ha hack => hnot.2 a ⟨ha,hack⟩⟩
    have hpending := ((stranded_inductive order s.seqNo).run hst hy).parties.2.1
    rw [StopWaitServer.Pending,StopWaitServer.kept,hret] at hpending
    simp at hpending

end StopWait

end ReliableTransfer
