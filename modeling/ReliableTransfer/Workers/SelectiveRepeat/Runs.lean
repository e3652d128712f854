import ReliableTransfer.Workers.SelectiveRepeat.Frame
import ReliableTransfer.Workers.SelectiveRepeat.Protocol
import ReliableTransfer.Workers.SelectiveRepeat.Timers

/-!
# Runs in any environment

The containers stay in step whatever arrives: an acknowledgement of a number that is not
outstanding is refused, or the code leaves its containers and the run ends. A number that has been
acknowledged is never sent again.
-/

namespace ReliableTransfer

open Framework

namespace RepeatServer

variable {γ : Type} {order : ByteOrder} {file : List UInt8} {h : RepeatHooks γ}

theorem InStep.acknowledge_order {s s' : RepeatServer γ} (hs : s.InStep order file) {i : UInt32}
    (hrun : s.acknowledge h i = some s') :
    s'.seqnumsSent = s.seqnumsSent.erase i ∧
      s'.sendOrder.values = s.sendOrder.values.erase i := by
  unfold RepeatServer.acknowledge at hrun
  dsimp only at hrun
  obtain ⟨packet,-,hrun⟩ := Option.bind_eq_some_iff.mp hrun
  obtain ⟨it,hit,hrun⟩ := Option.bind_eq_some_iff.mp hrun
  obtain ⟨l,hl,hrun⟩ := Option.bind_eq_some_iff.mp hrun
  obtain rfl := Option.some.inj hrun
  obtain ⟨l',hl',-,hvalues,-⟩ := NodeList.erase_of_mem ((hs.iterators i it).mp hit) hs.nodup
  obtain rfl := Option.some.inj (hl'.symm.trans hl)
  exact ⟨rfl,hvalues⟩

theorem InStep.received {s s' : RepeatServer γ} (hs : s.InStep order file) {env : AckEnv}
    {noErr : Bool} (hrun : s.receiveAck h env = some (noErr,s')) :
    Received order file h env s s' := by
  unfold RepeatServer.receiveAck at hrun
  dsimp only at hrun
  split at hrun
  · next hanswer =>
    obtain ⟨-,rfl⟩ := hrun
    refine .kept _ (Or.inr ⟨fun hcalm => ?_,rfl⟩)
    obtain ⟨a,ha⟩ := hcalm.answer (s.seqnumsSent.getD (s.front env.stray) ⟨0,0⟩)
    rw [ha] at hanswer
    contradiction
  · obtain ⟨-,rfl⟩ := hrun
    exact .kept _ (Or.inl rfl)
  · next a hanswer =>
    split at hrun
    · next htest =>
      split at hrun
      · obtain ⟨w,hack,heq⟩ := Option.map_eq_some_iff.mp hrun
        obtain ⟨-,rfl⟩ := Prod.mk.inj heq
        have htouch := hs.touch env.stray
        have hout : s.Outstanding a.ackno :=
          (htouch.mem_dataSent _).mp (acknowledge_erased hack).mem
        obtain ⟨w',hw',hacked⟩ := htouch.acknowledge h (i := a.ackno) hout
        obtain rfl := Option.some.inj (hw'.symm.trans hack)
        exact .taken (AckEnv.answer_ok hanswer) htest.2 hout hacked
      · obtain ⟨-,rfl⟩ := hrun
        exact .kept _ (Or.inl rfl)
    · obtain ⟨-,rfl⟩ := hrun
      exact .kept _ (Or.inl rfl)

theorem InStep.requeued {s s' : RepeatServer γ} (hs : s.InStep order file) {ticks : Nat → Tick}
    {noErr : Bool} {out : List Packet} (hrun : s.updateTimers h ticks = some (noErr,s',out)) :
    Requeued order file h s s' ∧
      ∀ d ∈ out, ∃ v, s.Outstanding v ∧ d = filePacket order file v := by
  obtain ⟨noErr',s₁,out',hrun',hr,hout⟩ := hs.updateTimers h ticks
  have heq := Option.some.inj (hrun'.symm.trans hrun)
  simp only [Prod.mk.injEq] at heq
  obtain ⟨-,rfl,rfl⟩ := heq
  exact ⟨hr,hout⟩

theorem sound_inStep (order : ByteOrder) (file : List UInt8) (h : RepeatHooks γ) :
    (ops h).Sound order file (InStep order file) fun _ => True where
  send := by
    intro s t hs hopen _
    obtain ⟨hstep,hseq,-⟩ := hs.recordSent hopen t
    exact ⟨hstep,hseq⟩
  ack := by
    intro s env noErr s' hs _ hrun
    have hr := hs.received hrun
    exact ⟨hr.inStep hs,hr.seqNo⟩
  timers := by
    intro s ticks noErr s' out hs hrun
    obtain ⟨hr,hout⟩ := hs.requeued hrun
    refine ⟨hr.inStep,hr.seqNo,fun d hd => ?_⟩
    obtain ⟨i,hi,rfl⟩ := hout d hd
    exact ⟨i,rfl,hi.2.1⟩

abbrev Reaches (h : RepeatHooks γ) (order : ByteOrder) (file : List UInt8) (ctl : γ)
    (s : Sending (RepeatServer γ)) : Prop :=
  Sending.RunsTo (ops h) order (fun _ _ => True) (.start (fresh ctl) file) s

theorem good_of_runsTo {P : Sending (RepeatServer γ) → SenderEvent → Prop} {ctl : γ}
    {s : Sending (RepeatServer γ)} (hrun : Sending.RunsTo (ops h) order P
      (.start (fresh ctl) file) s) : s.Good (ops h) file (InStep order file) :=
  Sending.good_runsTo (sound_inStep order file h) (fun _ _ _ _ _ => trivial)
    (Sending.start_good (fresh_inStep order file ctl) rfl) hrun

def Retired (i : UInt32) (s : RepeatServer γ) : Prop :=
  i.toNat < s.seqNo.toNat ∧ ¬s.Outstanding i

theorem step_retired {s s' : Sending (RepeatServer γ)} {e : SenderEvent} {out : List Packet}
    (hs : s.Good (ops h) file (InStep order file)) {i : UInt32} (hi : s.worker.Retired i)
    (hstep : s.step (ops h) order e = some (s',out)) :
    s'.worker.Retired i ∧ ∀ d ∈ out, d.seqno ≠ i := by
  have hin := hs.worker
  cases Sending.step_stepped hstep with
  | moved => exact ⟨hi,by simp⟩
  | @sent tick hloc hnext hopen =>
    obtain ⟨-,hpacket,-⟩ := hs.next order (by simp [hloc]) hnext
    rw [hpacket]
    have hne : i ≠ s.worker.seqNo := by
      rintro rfl
      exact lt_irrefl _ hi.1
    refine ⟨⟨?_,?_⟩,?_⟩
    · have hseq := (hin.recordSent hopen tick.sendTime).2.1
      exact (hi.1.trans (Nat.lt_succ_self _)).trans_le hseq.ge
    · intro hout
      exact ((hin.outstanding_recordSent hopen _ _ i).mp hout).elim hi.2 hne
    · intro d hd
      rw [Tick.mem_transmit hd]
      exact hne.symm
  | unsent => exact ⟨hi,by simp⟩
  | received hloc hrecv =>
    have hr := hin.received hrecv
    refine ⟨⟨hr.seqNo ▸ hi.1,fun hout => hi.2 ((hr.outstanding i).1 hout)⟩,by simp⟩
  | timed hloc htimers =>
    obtain ⟨hr,hout⟩ := hin.requeued htimers
    refine ⟨⟨hr.seqNo ▸ hi.1,fun ho => hi.2 ((hr.outstanding i).mp ho)⟩,fun d hd => ?_⟩
    obtain ⟨v,hv,rfl⟩ := hout d hd
    rintro rfl
    exact hi.2 hv

theorem run_retired {P : Sending (RepeatServer γ) → SenderEvent → Prop}
    {s s' : Sending (RepeatServer γ)} (hs : s.Good (ops h) file (InStep order file)) {i : UInt32}
    (hi : s.worker.Retired i) (hrun : Sending.RunsTo (ops h) order P s s') :
    s'.Good (ops h) file (InStep order file) ∧ s'.worker.Retired i := by
  induction hrun with
  | refl => exact ⟨hs,hi⟩
  | tail _ hstep ih =>
    obtain ⟨e,out,-,hstep⟩ := hstep
    refine ⟨?_,(step_retired ih.1 ih.2 hstep).1⟩
    exact (Sending.step_kept (sound_inStep order file h) ih.1 (fun _ _ _ _ => trivial) hstep).good

end RepeatServer

namespace SelectiveRepeat

/-- The window of `SelectiveRepeatServer` spans the numbers in use. -/
structure Spanned (window : UInt32) (s : SelectiveRepeatServer) : Prop where
  numbered : s.Numbered
  ctl : s.ctl = window
  seqNo_le : s.seqNo.toNat ≤ s.baseSeqNo.toNat + window.toNat

theorem keeps_spanned (window : UInt32) (P : Sending SelectiveRepeatServer → SenderEvent → Prop) :
    (RepeatServer.ops hooks).Keeps P (Spanned window) where
  send := by
    intro s packet t hs hopen
    have htest : s.seqNo < s.baseSeqNo + s.ctl := of_decide_eq_true hopen
    have hlt := toNat_lt_window htest
    rw [hs.ctl] at hlt
    refine ⟨hs.numbered.recordSent hopen packet t,hs.ctl,?_⟩
    change (s.seqNo + 1).toNat ≤ s.baseSeqNo.toNat + window.toNat
    rw [RepeatServer.windowOpen_succ hopen]
    exact hlt
  ack := by
    intro s env noErr w _ hs hrun
    have hanswered := RepeatServer.receiveAck_answered hrun
    obtain ⟨hnum,hseq,hbase⟩ := hs.numbered.answered hanswered
    refine ⟨hnum,?_,hseq ▸ hs.seqNo_le.trans (Nat.add_le_add_right hbase _)⟩
    cases hanswered with
    | timedOut => exact hs.ctl
    | ignored => exact hs.ctl
    | taken _ hack => exact (RepeatServer.acknowledge_erased hack).ctl.trans hs.ctl
  timers := by
    intro s ticks noErr s' out hs hrun
    have hr := RepeatServer.updateTimers_retimed hrun
    refine ⟨hs.numbered.retimed hr,?_,?_⟩
    · exact hr.ctl_preserves (I := (· = window)) hs.ctl fun c hc => hc
    · rw [hr.seqNo,hr.baseSeqNo]
      exact hs.seqNo_le

end SelectiveRepeat

end ReliableTransfer
