import ReliableTransfer.Workers.StopWait.Safety

/-!
# Stop-and-wait moves on

As long as `recv_message` runs, the packet the server waits for is answered with the
acknowledgement the server waits for, whether the client takes the packet or has taken it before.
The numbers come round after 2^32 packets, and then an old packet passes for a new one.
-/

namespace ReliableTransfer

open Framework

namespace StopWaitServer

def run (order : ByteOrder) (s : StopWaitServer) :
    List StopWaitEvent → Option (StopWaitServer × List Packet)
  | [] => some (s,List.nil)
  | e :: es => do
    let (s,out) ← s.step order e
    let (s,more) ← run order s es
    some (s,out ++ more)

/-- The server is at one of the two labels `bad_pack`. -/
def Waits (s : StopWaitServer) (packet : Packet) (tv sendTime : Timeval) : Prop :=
  s.loc = .wait packet tv sendTime ∨ s.loc = .rewait packet tv sendTime

/-- The event ends the wait: the remaining time is over, or the socket reports that it is. -/
def TimesOut (tv sendTime : Timeval) : StopWaitEvent → Prop
  | .expire now => (updateRemainingTimeout tv sendTime now).1 = true
  | .receive now .timeOut => (updateRemainingTimeout tv sendTime now).1 = false
  | _ => False

/-- Time remains at each of the clock readings in turn. -/
def Timely (tv sendTime : Timeval) : List Timeval → Prop
  | [] => True
  | now :: readings =>
    let (miniTimeout,tv,sendTime) := updateRemainingTimeout tv sendTime now
    miniTimeout = false ∧ Timely tv sendTime readings

def Acks (n : UInt32) (a : AckPacket) : Prop := verifyChecksumAck a = true ∧ a.ackno = n

variable {order : ByteOrder} {s : StopWaitServer} {packet : Packet} {tv sendTime : Timeval}

theorem run_cons {s' s'' : StopWaitServer} {e : StopWaitEvent} {es : List StopWaitEvent}
    {out more : List Packet} (h : s.step order e = some (s',out))
    (hrest : s'.run order es = some (s'',more)) :
    s.run order (e :: es) = some (s'',out ++ more) := by
  simp [run,h,hrest]

theorem step_timesOut {e : StopWaitEvent} (hloc : s.Waits packet tv sendTime)
    (he : TimesOut tv sendTime e) :
    s.step order e = some ({ s with loc := .resend packet },List.nil) := by
  cases e with
  | stop => exact he.elim
  | send tick => exact he.elim
  | expire now =>
    have hover : (updateRemainingTimeout tv sendTime now).1 = true := he
    rcases hloc with hloc | hloc <;> simp [step,hloc,badPack,hover]
  | receive now recv =>
    cases recv with
    | timeOut =>
      have hover : (updateRemainingTimeout tv sendTime now).1 = false := he
      rcases hloc with hloc | hloc <;> simp [step,hloc,badPack,hover]
    | error => exact he.elim
    | ok a => exact he.elim

theorem step_resend {tick : Tick} (hloc : s.loc = .resend packet) (htick : tick.Calm) :
    s.step order (.send tick) =
      some ({ s with loc := .rewait packet fullTimeout tick.sendTime },[packet]) := by
  simp [step,hloc,htick.transmit]

variable (order) in
theorem step_stale {now : Timeval} {a : AckPacket} (hloc : s.Waits packet tv sendTime)
    (hnow : (updateRemainingTimeout tv sendTime now).1 = false) (ha : ¬Acks s.seqNo a) :
    ∃ s', s.step order (.receive now (.ok a)) = some (s',List.nil) ∧
      s'.Waits packet (updateRemainingTimeout tv sendTime now).2.1
        (updateRemainingTimeout tv sendTime now).2.2 ∧
      s'.seqNo = s.seqNo ∧ s'.feeder = s.feeder := by
  have htest : ¬(verifyChecksumAck a && a.ackno == s.seqNo) = true := by
    rw [Bool.and_eq_true,beq_iff_eq]
    exact ha
  rcases hloc with hloc | hloc
  · refine ⟨{ s with loc := .wait packet _ _ },?_,Or.inl rfl,rfl,rfl⟩
    simp only [step,hloc,badPack,hnow,Bool.false_eq_true,if_false,if_neg htest,Option.map_some]
  · refine ⟨{ s with loc := .rewait packet _ _ },?_,Or.inr rfl,rfl,rfl⟩
    simp only [step,hloc,badPack,hnow,Bool.false_eq_true,if_false,if_neg htest,Option.map_some]

theorem step_acked {now : Timeval} {a : AckPacket} (hloc : s.Waits packet tv sendTime)
    (hnow : (updateRemainingTimeout tv sendTime now).1 = false) (ha : Acks s.seqNo a) :
    s.step order (.receive now (.ok a)) =
      some ({ s with seqNo := s.seqNo + 1, loc := .head },List.nil) := by
  have htest : (verifyChecksumAck a && a.ackno == s.seqNo) = true := by
    rw [Bool.and_eq_true,beq_iff_eq]
    exact ha
  rcases hloc with hloc | hloc <;>
    simp only [step,hloc,badPack,hnow,Bool.false_eq_true,if_false,if_pos htest,Option.map_some]

theorem run_acked {stale : List (Timeval × AckPacket)} {now : Timeval} {a : AckPacket}
    (hloc : s.Waits packet tv sendTime) (hstale : ∀ r ∈ stale, ¬Acks s.seqNo r.2)
    (ha : Acks s.seqNo a) (htimely : Timely tv sendTime (stale.map Prod.fst ++ [now])) :
    s.run order (stale.map (fun r => .receive r.1 (.ok r.2)) ++ [.receive now (.ok a)]) =
      some (⟨s.seqNo + 1,s.feeder,.head⟩,List.nil) := by
  induction stale generalizing s tv sendTime with
  | nil => exact run_cons (step_acked hloc htimely.1 ha) rfl
  | cons r stale ih =>
    obtain ⟨s',hstep,hloc',hseq,hfeeder⟩ :=
      step_stale order hloc htimely.1 (hstale r List.mem_cons_self)
    have hrest := ih hloc' (fun r' hr => by
      rw [hseq]
      exact hstale r' (List.mem_cons_of_mem _ hr)) (by rwa [hseq]) htimely.2
    rw [hseq,hfeeder] at hrest
    exact run_cons hstep hrest

theorem run_timedOut {timeout : StopWaitEvent} {tick : Tick} {stale : List (Timeval × AckPacket)}
    {now : Timeval} {a : AckPacket} (hloc : s.Waits packet tv sendTime)
    (htimeout : TimesOut tv sendTime timeout) (htick : tick.Calm)
    (hstale : ∀ r ∈ stale, ¬Acks s.seqNo r.2) (ha : Acks s.seqNo a)
    (htimely : Timely fullTimeout tick.sendTime (stale.map Prod.fst ++ [now])) :
    s.run order (timeout :: .send tick ::
        (stale.map (fun r => .receive r.1 (.ok r.2)) ++ [.receive now (.ok a)])) =
      some (⟨s.seqNo + 1,s.feeder,.head⟩,[packet]) :=
  run_cons (step_timesOut hloc htimeout) (run_cons (step_resend rfl htick)
    (run_acked (Or.inr rfl) hstale ha htimely))

end StopWaitServer

namespace StopWait

variable {order : ByteOrder} {file : List UInt8}
  {x y : LinkState StopWaitServer StopWaitClient Packet AckPacket}

/-- What holds while `recv_message` runs, and what it has written when it returns. The numbers
may come round with the marker, which is the last packet. -/
def running (order : ByteOrder) (file : List UInt8) :
    Link.Claim StopWaitServer StopWaitClient Packet AckPacket where
  parties s c := (c.ended = false → (safe order file).parties s c) ∧
    (c.ended = true → c.sink.Fed order file (numSegments file))
  data s c d := c.ended = false → (safe order file).data s c d
  ack s c a := c.ended = false → (safe order file).ack s c a

theorem running_of_kept {s : StopWaitServer} {c c' : StopWaitClient}
    (hended : c.ended = false) (h : (safe order file).Kept s c s c') :
    (running order file).Kept s c s c' where
  parties := by
    refine ⟨fun _ => h.parties,fun hdone => ?_⟩
    have hc := h.parties.2.1
    have hsink := hc.sink
    rwa [hc.ended.mp hdone,Nat.min_eq_right (Nat.le_succ _)] at hsink
  data d hd := fun _ => h.data d (hd hended)
  ack a ha := fun _ => h.ack a (ha hended)

theorem running_accept (hsize : numSegments file < 2^32) {s : StopWaitServer}
    {c c' : StopWaitClient} {d : Packet} {out : List AckPacket}
    (hp : (running order file).parties s c) (hd : (running order file).data s c d)
    (h : (link order).accept c d = some (c',out)) :
    (running order file).Kept s c s c' ∧ ∀ a ∈ out, (running order file).ack s c' a := by
  cases hended : c.ended
  · have hsafe := hp.1 hended
    obtain ⟨i,rfl,hi⟩ := hd hended
    have hle := hsafe.2.1.ackNo_le_segments hended
    by_cases hlast : i = c.ackNo ∧ numSegments file ≤ c.ackNo.toNat
    · -- The marker ends the loop; nothing is asked of the numbers any more.
      obtain ⟨rfl,hmarker⟩ := hlast
      rw [link_accept order hended,StopWaitClient.recvMessage_marker order hmarker] at h
      obtain ⟨rfl,-⟩ := Prod.mk.inj (Option.some.inj h)
      have hsink := hsafe.2.1.sink
      rw [Nat.min_eq_right hmarker] at hsink
      exact ⟨⟨⟨Bool.noConfusion,fun _ => hsink⟩,fun _ _ => Bool.noConfusion,
        fun _ _ => Bool.noConfusion⟩,fun _ _ => Bool.noConfusion⟩
    · by_cases hnext : i = c.ackNo
      · obtain ⟨hkept,hout⟩ := safe_accept (fun _ => by
          have hsegment := not_le.mp fun hmarker => hlast ⟨hnext,hmarker⟩
          omega) hsafe ⟨i,rfl,hi⟩ h
        exact ⟨running_of_kept hended hkept,fun a ha _ => hout a ha⟩
      · rw [link_accept order hended] at h
        obtain ⟨rfl,hout⟩ := safe_other hsafe hnext h
        exact ⟨.refl hp,fun a ha _ => hout a ha⟩
  · simp [link,hended] at h

theorem running_inductive (hsize : numSegments file < 2^32) :
    (link order).Inductive (running order file) where
  serve := by
    intro s s' c e out hp hack hs
    cases hended : c.ended
    · obtain ⟨hkept,hout⟩ := safe_serve (hp.1 hended) (fun a ha => hack a ha hended) hs
      exact ⟨⟨⟨fun _ => hkept.parties,fun h => by simp [hended] at h⟩,
        fun d hd _ => hkept.data d (hd hended),fun a ha _ => hkept.ack a (ha hended)⟩,
        fun d hd _ => hout d hd⟩
    · have hover (h : c.ended = false) : False := by simp [hended] at h
      exact ⟨⟨⟨fun h => (hover h).elim,hp.2⟩,fun _ _ h => (hover h).elim,
        fun _ _ h => (hover h).elim⟩,fun _ _ h => (hover h).elim⟩
  accept := running_accept hsize

theorem running_run (hsize : numSegments file < 2^32) (hrun : (link order).Run (start file) x) :
    (running order file).Holds x := by
  have hstart := safe_start order file
  exact (running_inductive hsize).run ⟨⟨fun _ => hstart.parties,fun h => by simp [start] at h⟩,
    fun d hd _ => hstart.data d hd,fun a ha _ => hstart.ack a ha⟩ hrun

/-- The client answers the packet the server waits for with the acknowledgement the server waits
for: it takes the packet, or it repeats the last acknowledgement. -/
theorem safe_reply {s : StopWaitServer} {c : StopWaitClient}
    (hp : (safe order file).parties s c) (hended : c.ended = false) :
    ∃ c', (link order).accept c (filePacket order file s.seqNo) =
      some (c',[createAckPacket s.seqNo]) := by
  obtain ⟨-,hc,hlo,hhi⟩ := hp
  rw [link_accept order hended]
  by_cases hnext : s.seqNo = c.ackNo
  · rw [hnext]
    by_cases hmarker : numSegments file ≤ c.ackNo.toNat
    · exact ⟨_,StopWaitClient.recvMessage_marker order hmarker⟩
    · exact ⟨_,StopWaitClient.recvMessage_segment order (not_le.mp hmarker)⟩
  · have hne : s.seqNo.toNat ≠ c.ackNo.toNat := fun h => hnext (UInt32.toNat_inj.mp h)
    have hnum : s.numbered ≤ s.seqNo.toNat + 1 := by
      unfold StopWaitServer.numbered
      split <;> omega
    have hpos : 0 < c.ackNo.toNat := by omega
    have hahead : c.ackNo - 1 = s.seqNo := by
      have hle : (1 : UInt32) ≤ c.ackNo := UInt32.le_iff_toNat_le.mpr hpos
      apply UInt32.toNat_inj.mp
      rw [UInt32.toNat_sub_of_le _ _ hle]
      change c.ackNo.toNat - 1 = s.seqNo.toNat
      omega
    have hone : c.sentOne = true := hc.sentOne.mpr hpos
    refine ⟨c,?_⟩
    rw [c.recvMessage_other hnext,if_pos hone,hc.lastPack hpos,hahead]

/-- While the client runs, a server that waits for packet `n` gets past it: a timeout in either
loop makes it send packet `n` again, in every later state the client's reply to it is the
acknowledgement of `n`, and that is accepted, however many other datagrams are read before it. -/
theorem stopWait_progress (order : ByteOrder) (file : List UInt8) (hsize : numSegments file < 2^32)
    (hrun : (link order).Run (start file) x) (hended : x.client.ended = false) {packet : Packet}
    {tv sendTime : Timeval} (hloc : x.server.Waits packet tv sendTime) :
    let n := x.server.seqNo
    (∀ y, (link order).Run x y → y.server.seqNo = n → y.client.ended = false →
      ∃ c', (link order).accept y.client (filePacket order file n) =
        some (c',[createAckPacket n])) ∧
    ∀ (timeout : StopWaitEvent) (tick : Tick) (stale : List (Timeval × AckPacket)) (now : Timeval),
      StopWaitServer.TimesOut tv sendTime timeout → tick.Calm →
      (∀ r ∈ stale, ¬StopWaitServer.Acks n r.2) →
      StopWaitServer.Timely fullTimeout tick.sendTime (stale.map Prod.fst ++ [now]) →
      x.server.run order (timeout :: .send tick ::
          (stale.map (fun r => .receive r.1 (.ok r.2)) ++ [.receive now (.ok (createAckPacket n))])) =
        some (⟨n + 1,x.server.feeder,.head⟩,[filePacket order file n]) := by
  intro n
  refine ⟨fun y hy hn hopen => ?_,fun timeout tick stale now htimeout htick hstale htimely => ?_⟩
  · obtain ⟨c',hc'⟩ := safe_reply
      ((running_run hsize (hrun.trans hy)).parties.1 hopen) hopen
    rw [hn] at hc'
    exact ⟨c',hc'⟩
  · have hgood := ((running_run hsize hrun).parties.1 hended).1
    have hkept : x.server.kept = some packet := by
      rcases hloc with hloc | hloc <;> rw [StopWaitServer.kept,hloc]
    rw [← ((StopWaitServer.good_of_kept hkept).mp hgood).2.2]
    exact StopWaitServer.run_timedOut hloc htimeout htick hstale
      ⟨verifyChecksumAck_createAckPacket n,createAckPacket_ackno n⟩ htimely

/-- The marker of an empty file is on its way, nothing has been answered, and another
acknowledgement is read first. -/
theorem stopWait_progress_marker :
    let p := filePacket .little List.nil 0
    let x : LinkState StopWaitServer StopWaitClient Packet AckPacket :=
      ⟨⟨0,feederAt List.nil 1,.wait p fullTimeout ⟨0,0⟩⟩,(start List.nil).client,p ::ₘ 0,0⟩
    (∃ c', (link .little).accept x.client p = some (c',[createAckPacket 0])) ∧
      x.server.run .little [.expire ⟨0,1000⟩,.send (calmTick ⟨0,1000⟩),
          .receive ⟨0,1000⟩ (.ok (createAckPacket 5)),.receive ⟨0,1000⟩ (.ok (createAckPacket 0))] =
        some (⟨1,feederAt List.nil 1,.head⟩,[p]) := by
  intro p x
  have hx : (link .little).Run (start List.nil) x :=
    Link.RunWhere.serve .refl (.send (calmTick ⟨0,0⟩)) trivial rfl rfl
  obtain ⟨hreply,hrun⟩ := stopWait_progress .little List.nil (by decide) hx rfl (Or.inl rfl)
  refine ⟨hreply x .refl rfl rfl,?_⟩
  refine hrun (.expire ⟨0,1000⟩) (calmTick ⟨0,1000⟩) [(⟨0,1000⟩,createAckPacket 5)] ⟨0,1000⟩
    (show (updateRemainingTimeout fullTimeout ⟨0,0⟩ ⟨0,1000⟩).1 = true by decide)
    (calmTick_calm _) ?_ ?_
  · intro r hr hacks
    obtain rfl := List.mem_singleton.mp hr
    exact absurd hacks.2 (by decide)
  · exact ⟨by decide,by decide,trivial⟩

theorem accept_segment (order : ByteOrder) {c : StopWaitClient} {i : UInt32}
    (hlt : i.toNat < numSegments file) (hack : c.ackNo = i) (hended : c.ended = false) :
    ∃ c', (link order).accept c (filePacket order file i) = some (c',[createAckPacket i]) ∧
      c'.ackNo = i + 1 ∧ c'.ended = false ∧ c'.sentOne = true ∧
      c'.lastPack = createAckPacket i ∧
      c'.sink = c.sink.feedNextData order (segment file i.toNat) i := by
  subst hack
  rw [link_accept order hended,StopWaitClient.recvMessage_segment order hlt]
  exact ⟨_,rfl,rfl,hended,rfl,rfl,rfl⟩

theorem run_segment {k : Nat} (hk : k < numSegments file) (hmax : k < 2^32) {c : StopWaitClient}
    {E : Multiset Packet}
    (hrun : (link order).Run (start file) ⟨⟨UInt32.ofNat k,feederAt file k,.head⟩,c,E,0⟩)
    (hack : c.ackNo = UInt32.ofNat k) (hended : c.ended = false) :
    ∃ c', (link order).Run (start file) ⟨⟨UInt32.ofNat (k + 1),feederAt file (k + 1),.head⟩,c',
        filePacket order file (UInt32.ofNat k) ::ₘ E,0⟩ ∧
      c'.ackNo = UInt32.ofNat (k + 1) ∧ c'.ended = false := by
  have hnum : (UInt32.ofNat k).toNat = k := UInt32.toNat_ofNat_of_lt' hmax
  have hsucc : UInt32.ofNat (k + 1) = UInt32.ofNat k + 1 := UInt32.ofNat_add k 1
  have hpacket : createDataPacketCore order (segment file k) (UInt32.ofNat k) =
      filePacket order file (UInt32.ofNat k) := by rw [filePacket,hnum]
  have hsent := hrun.serve (.send (calmTick ⟨0,0⟩)) trivial rfl
    (step_send order file hk.le (UInt32.ofNat k) ⟨0,0⟩)
  rw [hpacket,Multiset.coe_singleton,add_comm E,Multiset.singleton_add] at hsent
  obtain ⟨c',haccept,hack',hended',-⟩ :=
    accept_segment order (hnum.trans_lt hk) hack hended
  have hacked : (link order).Run (start file) ⟨_,c',filePacket order file (UInt32.ofNat k) ::ₘ E,
      createAckPacket (UInt32.ofNat k) ::ₘ 0⟩ := hsent.dupData.accept haccept
  have hstep : StopWaitServer.step order ⟨UInt32.ofNat k,feederAt file (k + 1),
      .wait (filePacket order file (UInt32.ofNat k)) fullTimeout ⟨0,0⟩⟩
      (.receive ⟨0,0⟩ (.ok (createAckPacket (UInt32.ofNat k)))) =
        some (⟨UInt32.ofNat k + 1,feederAt file (k + 1),.head⟩,List.nil) :=
    StopWaitServer.step_acked (Or.inl rfl) (not_expired_self ⟨0,0⟩)
      ⟨verifyChecksumAck_createAckPacket _,createAckPacket_ackno _⟩
  have hread := hacked.read (.receive ⟨0,0⟩ (.ok (createAckPacket (UInt32.ofNat k)))) trivial rfl
    hstep
  rw [Multiset.coe_nil,add_zero,← hsucc] at hread
  exact ⟨c',hread,hack'.trans hsucc.symm,hended'⟩

theorem run_segments (order : ByteOrder) (file : List UInt8) {k : Nat} (hlo : 2 ≤ k)
    (hk : k ≤ numSegments file) (hmax : k ≤ 2^32) :
    ∃ c, (link order).Run (start file) ⟨⟨UInt32.ofNat k,feederAt file k,.head⟩,c,
        filePacket order file 1 ::ₘ filePacket order file 0 ::ₘ 0,0⟩ ∧
      c.ackNo = UInt32.ofNat k ∧ c.ended = false := by
  induction k,hlo using Nat.le_induction with
  | base =>
    have hstart : (link order).Run (start file)
        ⟨⟨UInt32.ofNat 0,feederAt file 0,.head⟩,(start file).client,0,0⟩ := .refl
    obtain ⟨c,hrun,hack,hended⟩ := run_segment (by omega) (by omega) hstart rfl rfl
    exact run_segment (by omega) (by omega) hrun hack hended
  | succ k hlo ih =>
    obtain ⟨c,hrun,hack,hended⟩ := ih (by omega) (by omega)
    obtain ⟨c',hrun',hack',hended'⟩ := run_segment (by omega) (by omega) hrun hack hended
    exact ⟨c',hrun'.loseData,hack',hended'⟩

/-- Where the marker is numbered 0 again, old copies of packets 0 and 1 pass for new ones, and the
client answers the retransmitted marker with another acknowledgement. -/
theorem run_overtaken (order : ByteOrder) (hround : UInt32.ofNat (numSegments file) = 0)
    (hlo : 2 ≤ numSegments file) (hmax : numSegments file ≤ 2^32) :
    ∃ x packet, (link order).Run (start file) x ∧ x.client.ended = false ∧
      x.server.Waits packet fullTimeout ⟨0,0⟩ ∧ x.server.seqNo = 0 ∧
      (link order).accept x.client packet = some (x.client,[createAckPacket 1]) := by
  obtain ⟨c,hrun,hack,hended⟩ := run_segments order file hlo (le_refl _) hmax
  rw [hround] at hrun hack
  have hsent := hrun.serve (.send (calmTick ⟨0,0⟩)) trivial rfl
    (step_send order file (le_refl _) 0 ⟨0,0⟩)
  rw [Multiset.coe_singleton,Multiset.cons_add,Multiset.cons_add,Multiset.cons_swap] at hsent
  obtain ⟨c₁,h₁,hack₁,hended₁,-⟩ := accept_segment order (i := 0)
    (show 0 < numSegments file by omega) hack hended
  obtain ⟨c₂,h₂,hack₂,hended₂,hone,hlast,-⟩ := accept_segment order (i := 1)
    (show 1 < numSegments file by omega) hack₁ hended₁
  have hfirst : (link order).Run (start file) ⟨_,c₁,_,createAckPacket 0 ::ₘ 0⟩ := hsent.accept h₁
  refine ⟨_,_,hfirst.loseAck.accept h₂,hended₂,Or.inl rfl,rfl,?_⟩
  rw [link_accept order hended₂]
  simp [StopWaitClient.recvMessage,hack₂,hone,hlast]

/-- A file of 2^32 segments: the reply to the retransmitted packet 0 acknowledges packet 1. -/
theorem stopWait_overtaken :
    let file := List.replicate (512 * 2^32) (0 : UInt8)
    ∃ x packet, (link .little).Run (start file) x ∧ x.client.ended = false ∧
      x.server.Waits packet fullTimeout ⟨0,0⟩ ∧ x.server.seqNo = 0 ∧
      (link .little).accept x.client packet = some (x.client,[createAckPacket 1]) := by
  intro file
  have hsize : numSegments file = 2^32 := by
    rw [numSegments,List.length_replicate]
    norm_num
  exact run_overtaken .little (by rw [hsize]; rfl) (by rw [hsize]; decide) hsize.le

end StopWait

end ReliableTransfer
