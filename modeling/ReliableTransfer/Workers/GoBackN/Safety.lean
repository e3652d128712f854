import ReliableTransfer.Workers.GoBackN.Protocol
import ReliableTransfer.Workers.SenderProgress

/-!
# Go-back-N delivers the file

The client stands somewhere in the sender's window, and the sender keeps exactly the packets of
its window.
-/

namespace ReliableTransfer

open Framework

namespace GoBackServer

variable {order : ByteOrder} {file : List UInt8} {window : UInt32}

/-- The vector holds exactly the packets from `base_seq_no` to `seq_no - 1`. -/
structure Bookkept (order : ByteOrder) (file : List UInt8) (window : UInt32) (s : GoBackServer) :
    Prop where
  base_le : s.baseSeqNo.toNat ≤ s.seqNo.toNat
  seqNo_le : s.seqNo.toNat ≤ s.baseSeqNo.toNat + window.toNat
  unacked : s.unackedPacket = filePackets order file s.baseSeqNo.toNat s.seqNo.toNat

theorem Bookkept.pending_iff {s : GoBackServer} (hs : s.Bookkept order file window) :
    (ops window).pending s = true ↔ s.baseSeqNo.toNat < s.seqNo.toNat := by
  change decide (s.unackedPacket.length ≠ 0) = true ↔ _
  rw [decide_eq_true_iff,hs.unacked,filePackets_length]
  omega

theorem recordSent_bookkept {s : GoBackServer} (hs : s.Bookkept order file window)
    (hopen : windowOpen window s = true) (t : Timeval) :
    (s.recordSent (filePacket order file s.seqNo) t).Bookkept order file window ∧
      (s.recordSent (filePacket order file s.seqNo) t).seqNo.toNat = s.seqNo.toNat + 1 := by
  have htest : s.seqNo < s.baseSeqNo + window := of_decide_eq_true hopen
  have hlt := toNat_lt_window htest
  have hsucc : (s.seqNo + 1).toNat = s.seqNo.toNat + 1 := toNat_add_one_of_lt htest
  have hbase := hs.base_le
  refine ⟨⟨?_,?_,?_⟩,hsucc⟩
  · change s.baseSeqNo.toNat ≤ (s.seqNo + 1).toNat
    omega
  · change (s.seqNo + 1).toNat ≤ s.baseSeqNo.toNat + window.toNat
    omega
  · change s.unackedPacket ++ [filePacket order file s.seqNo] =
      filePackets order file s.baseSeqNo.toNat (s.seqNo + 1).toNat
    rw [hsucc,filePackets_snoc _ _ hbase,hs.unacked,UInt32.ofNat_toNat]

theorem trim_filePackets (order : ByteOrder) (file : List UInt8) {base ackno : UInt32} {hi : Nat}
    (hhi : hi < 2^32) (hlt : ackno.toNat < hi) (hle : base.toNat ≤ ackno.toNat + 1) :
    trim ackno (filePackets order file base.toNat hi) base =
      some (filePackets order file (ackno.toNat + 1) hi,ackno + 1) := by
  have hsucc : (ackno + 1).toNat = ackno.toNat + 1 := toNat_add_one (by omega)
  by_cases hdone : base.toNat = ackno.toNat + 1
  · have hbase : base = ackno + 1 := UInt32.toNat_inj.mp (hdone.trans hsucc.symm)
    have hstop : ¬base ≤ ackno := by
      rw [UInt32.le_iff_toNat_le]
      omega
    rw [← hdone,← hbase]
    cases filePackets order file base.toNat hi <;> simp [trim,hstop]
  · have hgo : base ≤ ackno := UInt32.le_iff_toNat_le.mpr (by omega)
    have hnext : (base + 1).toNat = base.toNat + 1 := toNat_add_one (by omega)
    rw [filePackets_cons _ _ (by omega : base.toNat < hi),trim,if_pos hgo,← hnext]
    exact trim_filePackets order file hhi hlt (by omega)
  termination_by ackno.toNat + 1 - base.toNat

/-- What `receive_ack` does on any frame: nothing to the vector, or a trim that an accepted
acknowledgement of a kept packet asks for. -/
theorem receiveAck_cases {s s' : GoBackServer} {env : AckEnv} {noErr : Bool}
    (hs : s.Bookkept order file window)
    (hlegit : ∀ a, env.recv = .ok a → a.ackno.toNat < s.seqNo.toNat)
    (h : s.receiveAck window env = some (noErr,s')) :
    s' = s ∨ (s'.Bookkept order file window ∧ s'.seqNo = s.seqNo ∧
      ∃ a, env.recv = .ok a ∧ s'.baseSeqNo.toNat = a.ackno.toNat + 1) := by
  unfold receiveAck at h
  split at h
  · simp only [Option.some.injEq,Prod.mk.injEq] at h
    exact Or.inl h.2.symm
  · simp only [Option.some.injEq,Prod.mk.injEq] at h
    exact Or.inl h.2.symm
  · next a hanswer =>
    split at h
    · next htest =>
      right
      have hrecv := AckEnv.answer_ok hanswer
      have hlt := hlegit a hrecv
      have hle := UInt32.le_iff_toNat_le.mp htest.2.1
      have hhi := s.seqNo.toNat_lt
      have hsucc : (a.ackno + 1).toNat = a.ackno.toNat + 1 := toNat_add_one (by omega)
      have hbook := hs.seqNo_le
      rw [hs.unacked,trim_filePackets order file hhi hlt (by omega)] at h
      simp only [Option.map_some,Option.some.injEq,Prod.mk.injEq] at h
      obtain ⟨-,rfl⟩ := h
      refine ⟨⟨?_,?_,?_⟩,rfl,a,hrecv,hsucc⟩
      · change (a.ackno + 1).toNat ≤ s.seqNo.toNat
        omega
      · change s.seqNo.toNat ≤ (a.ackno + 1).toNat + window.toNat
        omega
      · change _ = filePackets order file (a.ackno + 1).toNat s.seqNo.toNat
        rw [hsucc]
    · simp only [Option.some.injEq,Prod.mk.injEq] at h
      exact Or.inl h.2.symm

theorem mem_resend {ticks : Nat → Tick} {i : Nat} {unacked : List Packet} {sendTime : Timeval}
    {d : Packet} (h : d ∈ (resend ticks i unacked sendTime).2.2) : d ∈ unacked := by
  induction unacked generalizing i sendTime with
  | nil => simp [resend] at h
  | cons packet unacked ih =>
    rw [resend] at h
    dsimp only at h
    split at h
    · rcases List.mem_append.mp h with h | h
      · rw [Tick.mem_transmit h]
        exact List.mem_cons_self
      · exact List.mem_cons_of_mem _ (ih h)
    · next hsent =>
      rw [Tick.transmit_failed hsent] at h
      simp at h

theorem updateTimer_bookkept {s : GoBackServer} (hs : s.Bookkept order file window)
    (ticks : Nat → Tick) :
    (s.updateTimer ticks).2.1.Bookkept order file window ∧
      (s.updateTimer ticks).2.1.seqNo = s.seqNo ∧
      (s.updateTimer ticks).2.1.baseSeqNo = s.baseSeqNo ∧
      ∀ d ∈ (s.updateTimer ticks).2.2, d ∈ s.unackedPacket := by
  unfold updateTimer
  split
  · exact ⟨⟨hs.base_le,hs.seqNo_le,hs.unacked⟩,rfl,rfl,fun d hd => mem_resend hd⟩
  · exact ⟨hs,rfl,rfl,by simp⟩

theorem Bookkept.timed {s s' : GoBackServer} (hs : s.Bookkept order file window)
    {ticks : Nat → Tick} {noErr : Bool} {out : List Packet}
    (h : (ops window).updateTimers ticks s = some (noErr,s',out)) :
    s'.Bookkept order file window ∧ s'.seqNo = s.seqNo ∧ s'.baseSeqNo = s.baseSeqNo ∧
      ∀ d ∈ out, ∃ i, d = filePacket order file i ∧ i.toNat < s.seqNo.toNat := by
  obtain ⟨hbook,hseq,hbase,hout⟩ := updateTimer_bookkept hs ticks
  rw [Option.some.inj h] at hbook hseq hbase hout
  refine ⟨hbook,hseq,hbase,fun d hd => ?_⟩
  have hmem := hout d hd
  rw [hs.unacked] at hmem
  obtain ⟨i,-,hi,rfl⟩ := mem_filePackets.mp hmem
  refine ⟨UInt32.ofNat i,rfl,?_⟩
  rwa [UInt32.toNat_ofNat_of_lt' (hi.trans s.seqNo.toNat_lt)]

end GoBackServer

namespace GoBackClient

variable {order : ByteOrder} {file : List UInt8} {c : GoBackClient}

/-- The client has consumed exactly the packets numbered below `base_ack_no`. -/
structure Consumed (order : ByteOrder) (file : List UInt8) (c : GoBackClient) : Prop where
  ackNo_le : c.baseAckNo.toNat ≤ numSegments file + 1
  ended : c.ended = true ↔ c.baseAckNo.toNat = numSegments file + 1
  sink : c.sink.Fed order file (min c.baseAckNo.toNat (numSegments file))

theorem Consumed.expected (hc : c.Consumed order file) (hlt : c.baseAckNo.toNat + 1 < 2^32)
    (hended : c.ended = false) :
    ∃ c', GoBackN.accept order c (filePacket order file c.baseAckNo) =
        some (c',[createAckPacket c.baseAckNo]) ∧
      c'.Consumed order file ∧ c'.baseAckNo.toNat = c.baseAckNo.toNat + 1 := by
  have hne : c.baseAckNo.toNat ≠ numSegments file + 1 := fun h => by simp [hc.ended.mpr h] at hended
  have hle := hc.ackNo_le
  have hsucc : (c.baseAckNo + 1).toNat = c.baseAckNo.toNat + 1 := toNat_add_one hlt
  have hlen := filePacket_len order file c.baseAckNo
  by_cases hend : numSegments file ≤ c.baseAckNo.toNat
  · refine ⟨_,by simp [GoBackN.accept,hended,recvMessage,hlen.mpr hend]; rfl,⟨?_,?_,?_⟩,hsucc⟩
    · change (c.baseAckNo + 1).toNat ≤ _
      omega
    · change true = true ↔ (c.baseAckNo + 1).toNat = _
      simp only [true_iff]
      omega
    · change c.sink.Fed order file (min (c.baseAckNo + 1).toNat (numSegments file))
      rw [hsucc]
      exact hc.sink.marker_next hend
  · have hdata : (filePacket order file c.baseAckNo).len ≠ 8 := fun h => hend (hlen.mp h)
    refine ⟨_,by simp [GoBackN.accept,hended,recvMessage,hdata,extractPureData_filePacket]; rfl,
      ⟨?_,?_,?_⟩,hsucc⟩
    · change (c.baseAckNo + 1).toNat ≤ _
      omega
    · change false = true ↔ (c.baseAckNo + 1).toNat = _
      simp only [Bool.false_eq_true,false_iff]
      omega
    · change (c.sink.feedNextData order (segment file c.baseAckNo.toNat) c.baseAckNo).Fed order file
        (min (c.baseAckNo + 1).toNat (numSegments file))
      rw [hsucc]
      exact hc.sink.segment_next c.baseAckNo rfl (not_le.mp hend)

theorem accept_other (c : GoBackClient) {i : UInt32} (hi : i ≠ c.baseAckNo)
    (hended : c.ended = false) :
    GoBackN.accept order c (filePacket order file i) = some (c,List.nil) := by
  simp [GoBackN.accept,hended,recvMessage,hi]

theorem accept_ended (c : GoBackClient) (hended : c.ended = true) (packet : Packet) :
    GoBackN.accept order c packet = none := by
  simp [GoBackN.accept,hended]

end GoBackClient

namespace GoBackN

variable {order : ByteOrder} {file : List UInt8} {window : UInt32}

/-- The client stands in the sender's window. -/
structure Coupled (order : ByteOrder) (file : List UInt8) (window : UInt32) (s : GoBackServer)
    (c : GoBackClient) : Prop where
  bookkept : s.Bookkept order file window
  consumed : c.Consumed order file
  base_le : s.baseSeqNo.toNat ≤ c.baseAckNo.toNat
  le_seqNo : c.baseAckNo.toNat ≤ s.seqNo.toNat

def got (c : GoBackClient) (i : UInt32) : Prop := i.toNat < c.baseAckNo.toNat

theorem sound (order : ByteOrder) (file : List UInt8) (window : UInt32) (c : GoBackClient) :
    (GoBackServer.ops window).Sound order file (Coupled order file window · c)
      fun a => ∃ i, a = createAckPacket i ∧ got c i where
  send := by
    intro s t hs hopen _
    obtain ⟨hbook,hseq⟩ := GoBackServer.recordSent_bookkept hs.bookkept hopen t
    exact ⟨⟨hbook,hs.consumed,hs.base_le,hs.le_seqNo.trans ((Nat.le_succ _).trans hseq.ge)⟩,hseq⟩
  ack := by
    intro s env noErr s' hs hlegit h
    have hgot : ∀ a, env.recv = .ok a → a.ackno.toNat < c.baseAckNo.toNat := by
      intro a ha
      obtain ⟨i,rfl,hi⟩ := hlegit a ha
      exact hi
    have hle := hs.le_seqNo
    rcases GoBackServer.receiveAck_cases hs.bookkept (fun a ha => (hgot a ha).trans_le hle) h with
      rfl | ⟨hbook,hseq,a,ha,hbase⟩
    · exact ⟨hs,rfl⟩
    · refine ⟨⟨hbook,hs.consumed,?_,?_⟩,hseq⟩
      · rw [hbase]
        exact hgot a ha
      · rw [hseq]
        exact hle
  timers := by
    intro s ticks noErr s' out hs h
    obtain ⟨hbook,hseq,hbase,hout⟩ := hs.bookkept.timed h
    refine ⟨⟨hbook,hs.consumed,?_,?_⟩,hseq,hout⟩
    · rw [hbase]
      exact hs.base_le
    · rw [hseq]
      exact hs.le_seqNo

theorem safe (order : ByteOrder) (file : List UInt8) (window : UInt32) :
    (GoBackServer.ops window).Safe order file (accept order) (Coupled order file window) got where
  sound := sound order file window
  accept := by
    intro s c c' i out hs hi h
    cases hended : c.ended
    · by_cases hack : i = c.baseAckNo
      · subst hack
        have hlt := (GoBackServer.ops window).seqNo s |>.toNat_lt
        obtain ⟨c₁,h₁,hc₁,hsucc⟩ := hs.consumed.expected (by omega) hended
        obtain ⟨rfl,rfl⟩ := Prod.mk.inj (Option.some.inj (h₁.symm.trans h))
        have hbase := hs.base_le
        refine ⟨⟨hs.bookkept,hc₁,by omega,hsucc.le.trans hi⟩,fun j hj => ?_,?_⟩
        · exact hj.trans (hsucc ▸ Nat.lt_succ_self _)
        · intro a ha
          refine ⟨c.baseAckNo,List.mem_singleton.mp ha,?_⟩
          exact (Nat.lt_succ_self _).trans_le hsucc.ge
      · rw [c.accept_other hack hended] at h
        obtain ⟨rfl,rfl⟩ := Prod.mk.inj (Option.some.inj h)
        exact ⟨hs,fun _ hj => hj,by simp⟩
    · rw [c.accept_ended hended] at h
      contradiction

abbrev coupling (order : ByteOrder) (file : List UInt8) (window : UInt32) :
    Link.Claim (Sending GoBackServer) GoBackClient Packet AckPacket :=
  Sending.safe (GoBackServer.ops window) order file (Coupled order file window) got

theorem coupling_inductive (order : ByteOrder) (file : List UInt8) (window : UInt32) :
    (link order window).Inductive (coupling order file window) :=
  Sending.safe_inductive (safe order file window)

theorem start_coupled (order : ByteOrder) (file : List UInt8) (window : UInt32) :
    Coupled order file window (start file).server.worker (start file).client where
  bookkept := ⟨le_refl _,Nat.zero_le _,(filePackets_self order file 0).symm⟩
  consumed := ⟨Nat.zero_le _,by simp [start],DataSink.fed_fresh order file⟩
  base_le := le_refl _
  le_seqNo := le_refl _

theorem safe_run {x : LinkState (Sending GoBackServer) GoBackClient Packet AckPacket}
    (hrun : (link order window).Run (start file) x) :
    (coupling order file window).Holds x :=
  Sending.safe_run (safe order file window) (start_coupled order file window) rfl hrun

/-- Once everything is numbered and acknowledged, the client has consumed everything. -/
theorem Coupled.all_consumed {s : GoBackServer} {c : GoBackClient}
    (h : Coupled order file window s c) (hseq : s.seqNo.toNat = numSegments file + 1)
    (hdone : (GoBackServer.ops window).pending s = false) :
    c.baseAckNo.toNat = numSegments file + 1 := by
  rw [← Bool.not_eq_true,h.bookkept.pending_iff] at hdone
  have hlo := h.base_le
  have hhi := h.le_seqNo
  omega

theorem ended_of_returned {x : LinkState (Sending GoBackServer) GoBackClient Packet AckPacket}
    (hx : (coupling order file window).Holds x) (hret : x.server.loc = .returned false) :
    x.client.baseAckNo.toNat = numSegments file + 1 ∧ x.client.ended = true := by
  have hgood : x.server.Good (GoBackServer.ops window) file (Coupled order file window · x.client) :=
    hx.parties
  have hs : Coupled order file window x.server.worker x.client := hgood.worker
  have hpend := hgood.done hret
  have hseq := hgood.closing (by rw [hret]; trivial)
  have hall := hs.all_consumed hseq hpend
  exact ⟨hall,hs.consumed.ended.mpr hall⟩

/-- Go-back-N is safe. -/
theorem goBackN_delivers (order : ByteOrder) (file : List UInt8) (window : UInt32)
    {x : LinkState (Sending GoBackServer) GoBackClient Packet AckPacket}
    (hrun : (link order window).Run (start file) x) :
    let s := x.server.worker
    let c := x.client
    s.baseSeqNo.toNat ≤ c.baseAckNo.toNat ∧ c.baseAckNo.toNat ≤ s.seqNo.toNat ∧
      s.seqNo.toNat ≤ s.baseSeqNo.toNat + window.toNat ∧
      s.unackedPacket = filePackets order file s.baseSeqNo.toNat s.seqNo.toNat ∧
      c.sink.Fed order file (min c.baseAckNo.toNat (numSegments file)) ∧
      (c.ended = true → c.sink.writer.written = file) ∧
      (x.server.loc = .returned false →
        c.baseAckNo.toNat = numSegments file + 1 ∧ c.ended = true) := by
  have hx := safe_run hrun
  have h : Coupled order file window x.server.worker x.client := hx.parties.worker
  refine ⟨h.base_le,h.le_seqNo,h.bookkept.seqNo_le,h.bookkept.unacked,h.consumed.sink,?_,
    ended_of_returned hx⟩
  intro hended
  have hsink := h.consumed.sink
  rw [h.consumed.ended.mp hended,Nat.min_eq_right (Nat.le_succ _)] at hsink
  exact hsink.complete

theorem first_sent (order : ByteOrder) (file : List UInt8) :
    (link order 1).Run (start file)
      ⟨⟨⟨0,1,[filePacket order file 0],⟨0,0⟩⟩,feederAt file 1,.drain .afterSend⟩,(start file).client,
        filePacket order file 0 ::ₘ 0,0⟩ := by
  have hgood : (start file).server.Good (GoBackServer.ops 1) file
      (Coupled order file 1 · (start file).client) := (safe_run .refl).parties
  exact Link.RunWhere.serve .refl (.send (calmTick ⟨0,0⟩)) trivial rfl
    (hgood.step_send order rfl (Nat.zero_le _) rfl ⟨0,0⟩)

theorem first_consumed (order : ByteOrder) (file : List UInt8) :
    ∃ c, (link order 1).Run (start file)
        ⟨⟨⟨0,1,[filePacket order file 0],⟨0,0⟩⟩,feederAt file 1,.drain .afterSend⟩,c,0,
          createAckPacket 0 ::ₘ 0⟩ ∧
      c.Consumed order file ∧ c.baseAckNo.toNat = 1 := by
  obtain ⟨c,hc,hconsumed,hack⟩ := (start_coupled order file 1).consumed.expected
    (show 0 + 1 < 2^32 by decide) rfl
  exact ⟨c,(first_sent order file).accept hc,hconsumed,hack⟩

/-- The transfer of one byte: its packet, the marker, and both sides return. -/
theorem goBackN_delivers_byte :
    ∃ order x, (link order 1).Run (start [7]) x ∧ x.server.loc = .returned false ∧
      x.client.sink.writer.written = [7] := by
  obtain ⟨order⟩ : Nonempty ByteOrder := ⟨.little⟩
  let zero : Timeval := ⟨0,0⟩
  let acked (n : UInt32) : GoBackServer := ⟨n,n,List.nil,zero⟩
  obtain ⟨c₁,hconsumed₁,hc₁,hone⟩ := first_consumed order [7]
  have hnext : c₁.baseAckNo = 1 := UInt32.toNat_inj.mp hone
  have hended : c₁.ended = false := by
    rw [← Bool.not_eq_true,hc₁.ended,hone]
    decide
  have hacked₁ : (link order 1).Run (start [7])
      ⟨⟨acked 1,feederAt [7] 1,.drain .afterSend⟩,c₁,0,0⟩ :=
    hconsumed₁.read (.ack (arrival zero (createAckPacket 0))) trivial rfl rfl
  have hhead₁ : (link order 1).Run (start [7]) ⟨⟨acked 1,feederAt [7] 1,.head⟩,c₁,0,0⟩ :=
    (hacked₁.serve .idle trivial rfl rfl).serve (.timers fun _ => calmTick zero) trivial rfl rfl
  have hgood : Sending.Good (GoBackServer.ops 1) [7] (Coupled order [7] 1 · c₁)
      ⟨acked 1,feederAt [7] 1,.head⟩ := (safe_run hhead₁).parties
  have hmarker : (link order 1).Run (start [7]) ⟨_,c₁,filePacket order [7] 1 ::ₘ 0,0⟩ :=
    hhead₁.serve (.send (calmTick zero)) trivial rfl
      (hgood.step_send order rfl (by decide) rfl zero)
  obtain ⟨c₂,hc₂,-,-⟩ := hc₁.expected (by rw [hone]; decide) hended
  rw [hnext] at hc₂
  have hconsumed₂ : (link order 1).Run (start [7]) ⟨_,c₂,0,createAckPacket 1 ::ₘ 0⟩ :=
    hmarker.accept hc₂
  have hacked₂ : (link order 1).Run (start [7])
      ⟨⟨acked 2,feederAt [7] 2,.drain .afterSend⟩,c₂,0,0⟩ :=
    hconsumed₂.read (.ack (arrival zero (createAckPacket 1))) trivial rfl rfl
  have hhead₂ : (link order 1).Run (start [7]) ⟨⟨acked 2,feederAt [7] 2,.head⟩,c₂,0,0⟩ :=
    (hacked₂.serve .idle trivial rfl rfl).serve (.timers fun _ => calmTick zero) trivial rfl rfl
  have hdone : (link order 1).Run (start [7])
      ⟨⟨acked 2,feederAt [7] 2,.returned false⟩,c₂,0,0⟩ :=
    (hhead₂.serve .loop trivial rfl rfl).serve .loop trivial rfl rfl
  have hd := goBackN_delivers order [7] 1 hdone
  exact ⟨order,_,hdone,rfl,hd.2.2.2.2.2.1 (hd.2.2.2.2.2.2 rfl).2⟩

end GoBackN

end ReliableTransfer
