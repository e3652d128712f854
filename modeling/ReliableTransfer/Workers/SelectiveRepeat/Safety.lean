import ReliableTransfer.Workers.SelectiveRepeat.Timers
import ReliableTransfer.Workers.SelectiveRepeat.Buffer
import ReliableTransfer.Workers.SelectiveRepeat.Protocol

/-!
# Selective repeat loses nothing

Whatever a sender of this family has taken off its containers its client has got, and what the
client has got the sender has numbered. How the window moves plays no part in it.
-/

namespace ReliableTransfer

open Framework

namespace RepeatServer

variable {γ : Type} {order : ByteOrder} {file : List UInt8} {window : UInt32}
  {h : RepeatHooks γ} {room : RepeatClient → Bool}

structure Coupled (order : ByteOrder) (file : List UInt8) (window : UInt32) (s : RepeatServer γ)
    (c : RepeatClient) : Prop where
  inStep : s.InStep order file
  holding : c.Holding order file window
  seqNo_le : s.seqNo.toNat ≤ numSegments file + 1
  got_lt : ∀ i, c.Got file i → i.toNat < s.seqNo.toNat
  acked_got : ∀ i : UInt32, i.toNat < s.seqNo.toNat → ¬s.Outstanding i → c.Got file i

theorem Coupled.ackNo_le {s : RepeatServer γ} {c : RepeatClient}
    (hs : Coupled order file window s c) : c.baseAckNo.toNat ≤ s.seqNo.toNat := by
  by_contra hlt
  exact lt_irrefl _ (hs.got_lt s.seqNo (Or.inl (Or.inl (not_le.mp hlt))))

/-- A client whose room test never refuses a segment of the window. -/
def Roomy (order : ByteOrder) (file : List UInt8) (window : UInt32) (room : RepeatClient → Bool) :
    Prop :=
  ∀ c : RepeatClient, c.Holding order file window → 0 < window.toNat → room c = true

theorem Coupled.accept {s : RepeatServer γ} {c : RepeatClient} (hs : Coupled order file window s c)
    (hroom : Roomy order file window room) (hret : c.returned = false) {i : UInt32}
    (hi : i.toNat < s.seqNo.toNat) :
    ∃ c', RepeatClient.accept order window room c (filePacket order file i) =
        some (c',if c.Answers window i then [createAckPacket i] else List.nil) ∧
      RepeatClient.Accepted order file window i c c' := by
  have hmax := s.seqNo.toNat_lt
  have hle := hs.seqNo_le
  exact hs.holding.accept hret (fun hc hpos => hroom c hc hpos) (by omega) (by omega)

theorem coupled_quiet (order : ByteOrder) (file : List UInt8) (window : UInt32)
    (h : RepeatHooks γ) (c : RepeatClient) : (ops h).Quiet (Coupled order file window · c) :=
  ops_quiet h fun _ hs => hs.inStep

/-- A closing loop that ends only when nothing is outstanding. -/
def Closes (order : ByteOrder) (file : List UInt8) (h : RepeatHooks γ) : Prop :=
  ∀ s : RepeatServer γ, s.InStep order file → h.pending s = false → ∀ i, ¬s.Outstanding i

theorem sound (order : ByteOrder) (file : List UInt8) (window : UInt32) (h : RepeatHooks γ)
    (c : RepeatClient) :
    (ops h).Sound order file (Coupled order file window · c)
      fun a => ∃ i, a = createAckPacket i ∧ c.Got file i where
  send := by
    intro s t hs hopen hle
    obtain ⟨hstep,hseq,hout⟩ := hs.inStep.recordSent hopen t
    refine ⟨⟨hstep,hs.holding,hseq.le.trans (Nat.succ_le_succ hle),fun i hi => ?_,fun i hi hnot => ?_⟩,
      hseq⟩
    · exact ((hs.got_lt i hi).trans (Nat.lt_succ_self _)).trans_le hseq.ge
    · have hnot := not_or.mp fun ho => hnot ((hout i).mpr ho)
      have hne : i.toNat ≠ s.seqNo.toNat := fun heq => hnot.2 (UInt32.toNat_inj.mp heq)
      have hi' : i.toNat < s.seqNo.toNat + 1 := hi.trans_eq hseq
      exact hs.acked_got i (by omega) hnot.1
  ack := by
    intro s env noErr s' hs hlegit hrun
    have hgot : ∀ a, env.recv = .ok a → c.Got file a.ackno := by
      intro a ha
      obtain ⟨i,rfl,hi⟩ := hlegit a ha
      exact hi
    obtain ⟨noErr',s₁,hrun',hr⟩ := hs.inStep.receiveAck h env fun a ha _ => hs.got_lt _ (hgot a ha)
    obtain ⟨rfl,rfl⟩ := Prod.mk.inj (Option.some.inj (hrun'.symm.trans hrun))
    have hseq := hr.seqNo
    refine ⟨⟨hr.inStep hs.inStep,hs.holding,hseq ▸ hs.seqNo_le,fun i hi => hseq ▸ hs.got_lt i hi,
      fun i hi hnot => ?_⟩,hseq⟩
    by_cases hout : s.Outstanding i
    · rcases (hr.outstanding i).2 hout with hout' | ⟨a,ha,rfl⟩
      · exact absurd hout' hnot
      · exact hgot a ha
    · exact hs.acked_got i (hseq ▸ hi) hout
  timers := by
    intro s ticks noErr s' out hs hrun
    obtain ⟨noErr',s₁,out',hrun',hr,hout⟩ := hs.inStep.updateTimers h ticks
    have heq := Option.some.inj (hrun'.symm.trans hrun)
    simp only [Prod.mk.injEq] at heq
    obtain ⟨rfl,rfl,rfl⟩ := heq
    have hseq := hr.seqNo
    refine ⟨⟨hr.inStep,hs.holding,hseq ▸ hs.seqNo_le,fun i hi => hseq ▸ hs.got_lt i hi,
      fun i hi hnot => hs.acked_got i (hseq ▸ hi) fun h => hnot ((hr.outstanding i).mpr h)⟩,hseq,
      fun d hd => ?_⟩
    obtain ⟨i,hi,rfl⟩ := hout d hd
    exact ⟨i,rfl,hi.2.1⟩

theorem safe (h : RepeatHooks γ) (hroom : Roomy order file window room) :
    (ops h).Safe order file (RepeatClient.accept order window room) (Coupled order file window)
      (RepeatClient.Got file) where
  sound := sound order file window h
  accept := by
    intro s c c' i out hs hi hrun
    cases hret : c.returned
    · obtain ⟨c₁,hrun',hacc⟩ := hs.accept hroom hret hi
      obtain ⟨rfl,rfl⟩ := Prod.mk.inj (Option.some.inj (hrun'.symm.trans hrun))
      have hmono (j : UInt32) (hj : c.Got file j) : c₁.Got file j := (hacc.got j).mpr (Or.inl hj)
      refine ⟨⟨hs.inStep,hacc.holding,hs.seqNo_le,fun j hj => ?_,
        fun j hj hnot => hmono j (hs.acked_got j hj hnot)⟩,hmono,fun a ha => ?_⟩
      · rcases (hacc.got j).mp hj with hj | ⟨-,rfl⟩
        · exact hs.got_lt j hj
        · exact hi
      · by_cases hans : c.Answers window i
        · rw [if_pos hans,List.mem_singleton] at ha
          refine ⟨i,ha,?_⟩
          rcases hans with hold | hwin
          · exact hmono i (Or.inl (Or.inl (UInt32.lt_iff_toNat_lt.mp hold.1)))
          · exact (hacc.got i).mpr (Or.inr ⟨hwin,rfl⟩)
        · simp [hans] at ha
    · simp [RepeatClient.accept,hret] at hrun

theorem fresh_coupled (order : ByteOrder) (file : List UInt8) (window : UInt32) (ctl : γ) :
    Coupled order file window (fresh ctl) RepeatClient.fresh where
  inStep := fresh_inStep order file ctl
  holding := RepeatClient.fresh_holding order file window
  seqNo_le := Nat.zero_le _
  got_lt := by
    rintro i ((hi | hi) | ⟨-,hended,-⟩)
    · exact hi
    · exact absurd hi Std.ExtTreeMap.not_mem_empty
    · contradiction
  acked_got := fun i hi => absurd hi (Nat.not_lt_zero _)

abbrev coupling (order : ByteOrder) (file : List UInt8) (window : UInt32) (h : RepeatHooks γ) :
    Link.Claim (Sending (RepeatServer γ)) RepeatClient Packet AckPacket :=
  Sending.safe (ops h) order file (Coupled order file window) (RepeatClient.Got file)

theorem coupling_inductive (h : RepeatHooks γ) (hroom : Roomy order file window room) :
    (link h order window room).Inductive (coupling order file window h) :=
  Sending.safe_inductive (safe h hroom)

theorem safe_run (hroom : Roomy order file window room) {ctl : γ} {x : RepeatLink γ}
    (hrun : (link h order window room).Run ⟨.start (fresh ctl) file,.fresh,0,0⟩ x) :
    (coupling order file window h).Holds x :=
  Sending.safe_run (safe h hroom) (fresh_coupled order file window ctl) rfl hrun

/-- `J` is preserved by the operations of a worker, by `receive_ack` when `P` allows it. -/
structure Preserves (order : ByteOrder) (file : List UInt8) (h : RepeatHooks γ)
    (P : Sending (RepeatServer γ) → SenderEvent → Prop) (J : RepeatServer γ → Prop) : Prop where
  send : ∀ {s : RepeatServer γ} (t : Timeval), s.InStep order file → s.windowOpen h = true → J s →
    J (s.recordSent (filePacket order file s.seqNo) t)
  ack : ∀ {s : Sending (RepeatServer γ)} {env w}, P s (.ack env) → s.worker.InStep order file →
    J s.worker → Received order file h env s.worker w → J w
  timers : ∀ {s s' : RepeatServer γ}, s.InStep order file → J s → Requeued order file h s s' → J s'

theorem Preserves.step {P : Sending (RepeatServer γ) → SenderEvent → Prop}
    {J : RepeatServer γ → Prop} (hJ : Preserves order file h P J) {s s' : Sending (RepeatServer γ)}
    {c : RepeatClient} {e : SenderEvent} {out : List Packet} (hP : P s e)
    (hs : (coupling order file window h).parties s c)
    (hreads : ∀ a, (link h order window room).reads e = some a →
      (coupling order file window h).ack s c a)
    (hworker : J s.worker) (hstep : s.step (ops h) order e = some (s',out)) : J s'.worker := by
  have hgood : s.Good (ops h) file (Coupled order file window · c) := hs
  have hcoupled : Coupled order file window s.worker c := hgood.worker
  have hin := hcoupled.inStep
  cases Sending.step_stepped hstep with
  | moved => exact hworker
  | @sent tick hloc hnext hopen =>
    obtain ⟨-,hpacket,-⟩ := hgood.next order (by simp [hloc]) hnext
    rw [hpacket]
    exact hJ.send tick.sendTime hin hopen hworker
  | unsent => exact hworker
  | @received env noErr w site loc hloc hrecv =>
    obtain ⟨noErr',w',hrun,hr⟩ := hin.receiveAck h env fun a ha _ => by
      obtain ⟨i,rfl,hi⟩ := hreads a (Sending.reads_ack ha)
      exact hcoupled.got_lt i hi
    obtain ⟨-,rfl⟩ := Prod.mk.inj (Option.some.inj (hrun.symm.trans hrecv))
    exact hJ.ack hP hin hworker hr
  | @timed ticks noErr w _ site loc hloc htimers =>
    obtain ⟨noErr',w',out',hrun,hreq,-⟩ := hin.updateTimers h ticks
    have heq := Option.some.inj (hrun.symm.trans htimers)
    simp only [Prod.mk.injEq] at heq
    obtain ⟨-,rfl,-⟩ := heq
    exact hJ.timers hin hworker hreq

theorem Preserves.run {P : Sending (RepeatServer γ) → SenderEvent → Prop}
    {J : RepeatServer γ → Prop} (hJ : Preserves order file h P J)
    (hroom : Roomy order file window room) {x y : RepeatLink γ}
    (hx : (coupling order file window h).Holds x) (hworker : J x.server.worker)
    (hrun : (link h order window room).RunWhere P x y) :
    (coupling order file window h).Holds y ∧ J y.server.worker :=
  (coupling_inductive h hroom).runWhere (J := fun s => J s.worker)
    (fun hP hs hreads hworker hstep => hJ.step hP hs hreads hworker hstep)
    hx hworker hrun

theorem Coupled.finished {s : RepeatServer γ} {c : RepeatClient}
    (hs : Coupled order file window s c) (hseq : s.seqNo.toNat = numSegments file + 1)
    (hnone : ∀ i, ¬s.Outstanding i) :
    c.returned = true ∧ c.baseAckNo.toNat = numSegments file := by
  have hgot (i : UInt32) (hi : i.toNat < s.seqNo.toNat) : c.Got file i :=
    hs.acked_got i hi (hnone i)
  have hle := hs.holding.base_le
  have hpos : (1 : UInt32) ≤ s.seqNo := UInt32.le_iff_toNat_le.mpr (by
    change 1 ≤ s.seqNo.toNat
    omega)
  have hmarker : (s.seqNo - 1).toNat = numSegments file := by
    rw [UInt32.toNat_sub_of_le _ _ hpos]
    change s.seqNo.toNat - 1 = _
    omega
  have hended := hs.holding.recorded hmarker (hgot (s.seqNo - 1) (by omega))
  have hbase : c.baseAckNo.toNat = numSegments file := by
    by_contra hne
    rcases hgot c.baseAckNo (by omega) with (hlt | hmem) | ⟨hnum,-⟩
    · exact lt_irrefl _ hlt
    · exact hs.holding.base_notMem hmem
    · exact hne hnum
  refine ⟨?_,hbase⟩
  rw [RepeatClient.returned,hended.1,Bool.true_and,beq_iff_eq,hended.2]
  exact UInt32.toNat_inj.mp (hbase.trans hmarker.symm)

structure Exact (order : ByteOrder) (file : List UInt8) (x : RepeatLink γ) : Prop where
  /-- The sink was fed segments 0 to `base_ack_no - 1`. -/
  fed : x.client.sink.Fed order file x.client.baseAckNo.toNat
  /-- What was removed from `data_sent` has been written, is buffered, or is the recorded
  marker. -/
  removed : ∀ i : UInt32, i.toNat < x.server.worker.seqNo.toNat → i ∉ x.server.worker.dataSent →
    x.client.Got file i
  /-- `recv_message` returns with the whole file written. -/
  written : x.client.returned = true → x.client.sink.writer.written = file
  /-- `send_message` returns without a send failure when the client has everything. -/
  finished : x.server.loc = .returned false →
    x.client.returned = true ∧ x.client.baseAckNo.toNat = numSegments file

theorem exact_of_holds (hclose : Closes order file h) {x : RepeatLink γ}
    (hx : (coupling order file window h).Holds x) : Exact order file x := by
  have hgood : x.server.Good (ops h) file (Coupled order file window · x.client) := hx.parties
  have hs : Coupled order file window x.server.worker x.client := hgood.worker
  refine ⟨hs.holding.sink,fun i hi hnot => hs.acked_got i hi fun hout => hnot ?_,fun hret => ?_,
    fun hret => ?_⟩
  · exact (hs.inStep.mem_dataSent i).mpr hout
  · rw [RepeatClient.returned,Bool.and_eq_true,beq_iff_eq] at hret
    have hsink := hs.holding.sink
    rw [hret.2,hs.holding.last hret.1] at hsink
    exact hsink.complete
  · exact hs.finished (hgood.closing (by rw [hret]; trivial))
      (hclose _ hs.inStep (hgood.done hret))

theorem first_sent (order : ByteOrder) (file : List UInt8) (h : RepeatHooks γ) (ctl : γ)
    (hroom : Roomy order file 1 room) (hopen : (fresh ctl).windowOpen h = true)
    {P : Sending (RepeatServer γ) → SenderEvent → Prop} (hP : ∀ s tick, P s (.send tick)) :
    (link h order 1 room).RunWhere P ⟨.start (fresh ctl) file,.fresh,0,0⟩
      ⟨⟨(fresh ctl).recordSent (filePacket order file 0) ⟨0,0⟩,feederAt file 1,.drain .afterSend⟩,
        .fresh,filePacket order file 0 ::ₘ 0,0⟩ := by
  have hgood : (Sending.start (fresh ctl) file).Good (ops h) file (Coupled order file 1 · .fresh) :=
    (safe_run (h := h) hroom .refl).parties
  exact Link.RunWhere.serve .refl (.send (calmTick ⟨0,0⟩)) (hP _ _) rfl
    (hgood.step_send order rfl (Nat.zero_le _) hopen ⟨0,0⟩)

theorem first_delivered (order : ByteOrder) (file : List UInt8) (h : RepeatHooks γ) (ctl : γ)
    (hroom : Roomy order file 1 room) (hopen : (fresh ctl).windowOpen h = true)
    {P : Sending (RepeatServer γ) → SenderEvent → Prop} (hP : ∀ s tick, P s (.send tick)) :
    ∃ c, (link h order 1 room).RunWhere P ⟨.start (fresh ctl) file,.fresh,0,0⟩
        ⟨⟨(fresh ctl).recordSent (filePacket order file 0) ⟨0,0⟩,feederAt file 1,
          .drain .afterSend⟩,c,0,createAckPacket 0 ::ₘ 0⟩ ∧
      RepeatClient.Accepted order file 1 0 .fresh c := by
  have hsent := first_sent order file h ctl hroom hopen hP
  obtain ⟨c,hc,haccepted⟩ := (RepeatClient.fresh_holding order file 1).accept rfl (hroom _)
    (i := 0) (Nat.zero_le _) (by decide)
  exact ⟨c,hsent.accept hc,haccepted⟩

end RepeatServer

namespace SelectiveRepeat

theorem roomy (order : ByteOrder) (file : List UInt8) (window : UInt32) :
    RepeatServer.Roomy order file window room := fun _ _ _ => rfl

theorem closes (order : ByteOrder) (file : List UInt8) : RepeatServer.Closes order file hooks := by
  intro s hs hpend i hi
  have hempty : s.seqnumsSent.isEmpty = true := by simpa [hooks] using hpend
  have hmem := hs.mem_seqnumsSent hi
  rw [Std.ExtTreeMap.isEmpty_iff.mp hempty] at hmem
  exact Std.ExtTreeMap.not_mem_empty hmem

end SelectiveRepeat

end ReliableTransfer
