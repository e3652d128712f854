import ReliableTransfer.Workers.SelectiveRepeat.Sweep
import ReliableTransfer.Workers.SelectiveRepeatCC.Protocol

/-!
# The order is the order of the last transmissions

`updateTimers` stops at the first packet that is not over its time. It misses nothing as long as
`sendOrder` is sorted by the time of the last transmission, and so it is when the clock does not
go back and `seqnums_sent` holds no time of a packet that is still to come. `receive_ack` inserts
a time under `front()` of an empty order: there the number is 0, the size of the empty list, and
packet 0 has been sent before `receive_ack` is first called.
-/

namespace ReliableTransfer

open Framework

/-- The readings of a pass over the timers, in the order in which they are made. -/
def Ticking (ticks : Nat → Tick) : Prop :=
  ∀ i, (ticks i).now.micros ≤ (ticks i).sendTime.micros ∧
    (ticks i).sendTime.micros ≤ (ticks (i + 1)).now.micros

/-- An event whose readings of the clock lie between `began` and `ended` and do not decrease. -/
def SenderEvent.Clocked (began ended : Int) : SenderEvent → Prop
  | .loop => began ≤ ended
  | .send tick => began ≤ tick.sendTime.micros ∧ tick.sendTime.micros ≤ ended
  | .ack env => began ≤ env.now.micros ∧ env.now.micros ≤ ended
  | .idle => began ≤ ended
  | .timers ticks => began ≤ (ticks 0).now.micros ∧ Ticking ticks ∧
      ∀ i, (ticks i).sendTime.micros ≤ ended

theorem SenderEvent.Clocked.le {began ended : Int} {e : SenderEvent} (h : e.Clocked began ended) :
    began ≤ ended := by
  cases e with
  | loop => exact h
  | send tick => exact h.1.trans h.2
  | ack env => exact h.1.trans h.2
  | idle => exact h
  | timers ticks => exact (h.1.trans (h.2.1 0).1).trans (h.2.2 0)

theorem Ticking.monotone {ticks : Nat → Tick} (h : Ticking ticks) :
    Monotone fun i => (ticks i).sendTime.micros :=
  monotone_nat_of_le_succ fun i => (h i).2.trans (h (i + 1)).1

namespace Sending

variable {σ : Type} {ops : SenderOps σ} {order : ByteOrder}

end Sending

namespace RepeatServer

variable {γ : Type} {order : ByteOrder} {file : List UInt8} {h : RepeatHooks γ}

/-- Read from the empty order, `front()` is not a number that is still to come. -/
def Known (s : Sending (RepeatServer γ)) (e : SenderEvent) : Prop :=
  ∀ env, e = .ack env → s.worker.sendOrder.values = List.nil →
    env.stray.toNat < s.worker.seqNo.toNat

/-- `seqnums_sent` holds no time of a packet that is still to come. -/
def Given (s : RepeatServer γ) : Prop := ∀ i ∈ s.seqnumsSent, i.toNat < s.seqNo.toNat

/-- The order is sorted by the times of the last transmissions, all of them past. -/
structure Sorted (s : RepeatServer γ) (time : Int) : Prop where
  ordered : TimerQueue.Ordered s.lastSent s.sendOrder.values
  past : ∀ v ∈ s.sendOrder.values, s.lastSent v ≤ time

structure OnTime (s : RepeatServer γ) (time : Int) : Prop extends s.Sorted time where
  given : s.Given

variable {s s' : RepeatServer γ} {began ended : Int}

theorem Sorted.mono (ht : s.Sorted began) (hle : began ≤ ended) : s.Sorted ended :=
  ⟨ht.ordered,fun v hv => (ht.past v hv).trans hle⟩

theorem Sorted.of_nil (hnil : s.sendOrder.values = List.nil) : s.Sorted began where
  ordered := by
    rw [TimerQueue.Ordered,hnil]
    exact List.Pairwise.nil
  past v hv := by
    rw [hnil] at hv
    contradiction

theorem OnTime.mono (ht : s.OnTime began) (hle : began ≤ ended) : s.OnTime ended :=
  ⟨ht.toSorted.mono hle,ht.given⟩

theorem Given.lastSent_recordSent (hg : s.Given) (packet : Packet) (t : Timeval) :
    (s.recordSent packet t).lastSent = Function.update s.lastSent s.seqNo t.micros := by
  have hnot : s.seqNo ∉ s.seqnumsSent := fun hmem => lt_irrefl _ (hg _ hmem)
  funext w
  by_cases heq : w = s.seqNo
  · subst heq
    rw [Function.update_self]
    apply lastSent_eq
    change (s.seqnumsSent.insertIfNew s.seqNo t)[s.seqNo]? = _
    rw [Std.ExtTreeMap.getElem?_insertIfNew,if_pos ⟨Std.compare_eq_iff_eq.mpr rfl,hnot⟩]
  · rw [Function.update_of_ne heq]
    apply lastSent_congr
    change (s.seqnumsSent.insertIfNew s.seqNo t)[w]? = _
    rw [Std.ExtTreeMap.getElem?_insertIfNew,if_neg]
    rintro ⟨hcmp,-⟩
    exact heq (Std.compare_eq_iff_eq.mp hcmp).symm

theorem OnTime.recordSent (ht : s.OnTime began) (hs : s.InStep order file)
    (hopen : s.windowOpen h = true) (packet : Packet) {t : Timeval} (hbegan : began ≤ t.micros)
    (hended : t.micros ≤ ended) : (s.recordSent packet t).OnTime ended := by
  have hnot : s.seqNo ∉ s.sendOrder.values := fun hmem =>
    lt_irrefl _ ((hs.mem_order _).mp hmem).2.1
  have hvalues : (s.recordSent packet t).sendOrder.values = s.sendOrder.values ++ [s.seqNo] :=
    NodeList.values_pushBack _ _
  refine ⟨⟨?_,?_⟩,?_⟩
  · rw [hvalues,ht.given.lastSent_recordSent]
    exact ht.ordered.snoc hnot fun w hw => (ht.past w hw).trans hbegan
  · intro v hv
    rw [hvalues,List.mem_append,List.mem_singleton] at hv
    rw [ht.given.lastSent_recordSent]
    by_cases heq : v = s.seqNo
    · rw [heq,Function.update_self]
      exact hended
    · rw [Function.update_of_ne heq]
      exact ((ht.past v (hv.resolve_right heq)).trans hbegan).trans hended
  · intro i hi
    change i ∈ s.seqnumsSent.insertIfNew s.seqNo t at hi
    change i.toNat < (s.seqNo + 1).toNat
    rw [Std.ExtTreeMap.mem_insertIfNew,Std.compare_eq_iff_eq] at hi
    rw [windowOpen_succ hopen]
    rcases hi with rfl | hi
    · exact Nat.lt_succ_self _
    · exact Nat.lt_succ_of_lt (ht.given i hi)

theorem OnTime.touch (ht : s.OnTime began) (hs : s.InStep order file) {stray : UInt32}
    (hknown : s.sendOrder.values = List.nil → stray.toNat < s.seqNo.toNat) :
    (s.touch stray).OnTime began := by
  rcases hs.front stray with ⟨hnil,hfront⟩ | hout
  · -- Nothing is outstanding, and only the entry that was read can be new.
    refine ⟨.of_nil hnil,fun i hi => ?_⟩
    change i ∈ s.seqnumsSent.insertIfNew (s.front stray) ⟨0,0⟩ at hi
    rw [Std.ExtTreeMap.mem_insertIfNew,Std.compare_eq_iff_eq,hfront] at hi
    rcases hi with rfl | hi
    · exact hknown hnil
    · exact ht.given i hi
  · rw [touch_of_mem (hs.mem_seqnumsSent hout)]
    exact ht

theorem InStep.lastSent_acknowledge (hs : s.InStep order file) {i v : UInt32}
    (hrun : s.acknowledge h i = some s') (hv : v ∈ s'.sendOrder.values) :
    s'.lastSent v = s.lastSent v := by
  obtain ⟨htimes,hvalues⟩ := hs.acknowledge_order hrun
  rw [hvalues] at hv
  have hne : i ≠ v := Ne.symm (hs.nodup.mem_erase_iff.mp hv).1
  apply lastSent_congr
  rw [htimes,Std.ExtTreeMap.getElem?_erase,if_neg]
  rwa [Std.compare_eq_iff_eq]

theorem OnTime.acknowledge (ht : s.OnTime began) (hs : s.InStep order file) {i : UInt32}
    (hrun : s.acknowledge h i = some s') : s'.OnTime began := by
  obtain ⟨htimes,hvalues⟩ := hs.acknowledge_order hrun
  have hseq := (acknowledge_erased hrun).seqNo
  have hlast : ∀ v ∈ s.sendOrder.values.erase i, s'.lastSent v = s.lastSent v := fun v hv =>
    hs.lastSent_acknowledge hrun (hvalues ▸ hv)
  refine ⟨⟨?_,fun v hv => ?_⟩,fun j hj => ?_⟩
  · rw [hvalues]
    exact (ht.ordered.erase i).congr hlast
  · rw [hvalues] at hv
    rw [hlast v hv]
    exact ht.past v (List.mem_of_mem_erase hv)
  · rw [htimes] at hj
    rw [hseq]
    exact ht.given j (Std.ExtTreeMap.mem_of_mem_erase hj)

theorem OnTime.answered (ht : s.OnTime began) (hs : s.InStep order file) {env : AckEnv}
    (hknown : s.sendOrder.values = List.nil → env.stray.toNat < s.seqNo.toNat)
    (hr : Answered h env s s') : s'.OnTime began := by
  have htouch := ht.touch hs hknown
  cases hr with
  | timedOut => exact ⟨⟨htouch.ordered,htouch.past⟩,htouch.given⟩
  | ignored => exact htouch
  | taken _ hack => exact htouch.acknowledge (hs.touch env.stray) hack

theorem Sorted.swept (ht : s.Sorted began) (hs : s.InStep order file) {ticks : Nat → Tick}
    (hfirst : began ≤ (ticks 0).now.micros) (hticks : Ticking ticks) {fired rest : List UInt32}
    {noErr : Bool} (hparts : s.sendOrder.values = fired ++ rest)
    (hswept : Swept h ticks 0 fired rest List.nil noErr s s') :
    TimerQueue.Ordered s'.lastSent s'.sendOrder.values := by
  have hnodup := hs.nodup
  have hordered := ht.ordered
  rw [hparts] at hnodup hordered
  rw [hswept.sendOrder,hswept.lastSent,List.append_nil]
  refine hordered.rotate hnodup hticks.monotone fun v hv => ?_
  have hpast := ht.past v (by rw [hparts]; exact List.mem_append_right _ hv)
  exact (hpast.trans hfirst).trans (hticks 0).1

theorem OnTime.timed (ht : s.OnTime began) (hs : s.InStep order file) {ticks : Nat → Tick}
    (hclock : (SenderEvent.timers ticks).Clocked began ended) {noErr : Bool} {out : List Packet}
    (hrun : s.updateTimers h ticks = some (noErr,s',out)) : s'.OnTime ended := by
  obtain ⟨fired,rest,noErr',s₁,hparts,hrun',hreq,hswept⟩ := hs.updateTimers_sweeps h ticks
  have heq := Option.some.inj (hrun'.symm.trans hrun)
  simp only [Prod.mk.injEq] at heq
  obtain ⟨-,rfl,-⟩ := heq
  have hnodup := hs.nodup
  rw [hparts] at hnodup
  obtain ⟨hfired,-,hdisjoint⟩ := List.nodup_append.mp hnodup
  refine ⟨⟨ht.swept hs hclock.1 hclock.2.1 hparts hswept,fun v hv => ?_⟩,fun i hi => ?_⟩
  · rw [hswept.sendOrder,List.append_nil] at hv
    rw [hswept.lastSent]
    rcases List.mem_append.mp hv with hv | hv
    · rw [TimerQueue.renew_of_notMem fun hmem => hdisjoint v hmem v hv rfl]
      exact (ht.past v (by rw [hparts]; exact List.mem_append_right _ hv)).trans hclock.le
    · obtain ⟨k,-,hk⟩ := TimerQueue.renew_of_mem hfired hv 0
      rw [hk]
      exact hclock.2.2 _
  · rw [hreq.seqNo]
    exact ht.given i ((hreq.mem_seqnumsSent i).mp hi)

theorem OnTime.step {s s' : Sending (RepeatServer γ)} {e : SenderEvent} {out : List Packet}
    (ht : s.worker.OnTime began) (hs : s.Good (ops h) file (InStep order file))
    (hknown : Known s e) (hclock : e.Clocked began ended)
    (hstep : s.step (ops h) order e = some (s',out)) : s'.worker.OnTime ended := by
  have hin := hs.worker
  cases Sending.step_stepped hstep with
  | moved => exact ht.mono hclock.le
  | sent hloc hnext hopen => exact ht.recordSent hin hopen _ hclock.1 hclock.2
  | unsent => exact ht.mono hclock.le
  | received hloc hrecv =>
    exact (ht.answered hin (hknown _ rfl) (receiveAck_answered hrecv)).mono hclock.le
  | timed hloc htimers => exact ht.timed hin hclock htimers

section Timekeeping

variable {s s' : Sending (RepeatServer γ)} {time : Int} {e : SenderEvent} {out : List Packet}

/-- `receive_ack` is not called before a packet has been sent. -/
def Begun (h : RepeatHooks γ) (s : Sending (RepeatServer γ)) : Prop :=
  0 < s.worker.seqNo.toNat ∨ s.loc = .returned true ∨
    (s.loc = .head ∧ s.feeder.hasNext = true ∧ s.worker.windowOpen h = true)

theorem Begun.step (hb : Begun h s) (hs : s.Good (ops h) file (InStep order file))
    (hstep : s.step (ops h) order e = some (s',out)) : Begun h s' := by
  rcases hb with hpos | hret | ⟨hhead,hnext,hopen⟩
  · have hkept := Sending.step_kept (sound_inStep order file h) hs (fun _ _ _ _ => trivial) hstep
    exact Or.inl (hpos.trans_le hkept.seqNo_le)
  · rw [Sending.step_returned hret] at hstep
    contradiction
  · have hopen' : (ops h).windowOpen s.worker = true := hopen
    cases e with
    | loop => simp [Sending.step,hhead,hnext,hopen'] at hstep
    | send tick =>
      by_cases hloc : s'.loc = .returned true
      · exact Or.inr (Or.inl hloc)
      · obtain ⟨-,packet,hworker⟩ := Sending.step_recordSent hstep hloc
        left
        rw [hworker]
        change 0 < (s.worker.seqNo + 1).toNat
        rw [windowOpen_succ hopen]
        exact Nat.succ_pos _
    | ack env => simp [Sending.step,hhead] at hstep
    | idle => simp [Sending.step,hhead] at hstep
    | timers ticks => simp [Sending.step,hhead] at hstep

end Timekeeping

/-- A window of size 0 never opens, and nothing is ever sent. -/
def Shut (s : SelectiveRepeatServer) : Prop :=
  s.seqNo = 0 ∧ s.windowOpen SelectiveRepeat.hooks = false

theorem Shut.of_same {s s' : SelectiveRepeatServer} (hs : s.Shut) (hseq : s'.seqNo = s.seqNo)
    (hbase : s'.baseSeqNo = s.baseSeqNo) (hctl : s'.ctl = s.ctl) : s'.Shut := by
  have hopen : s'.windowOpen SelectiveRepeat.hooks = s.windowOpen SelectiveRepeat.hooks := by
    rw [windowOpen,windowOpen,hbase,hctl,hseq]
  exact ⟨hseq.trans hs.1,hopen.trans hs.2⟩

theorem Shut.step {s s' : Sending SelectiveRepeatServer} {e : SenderEvent} {out : List Packet}
    (hshut : s.worker.Shut)
    (hs : s.Good (ops SelectiveRepeat.hooks) file (InStep order file))
    (hstep : s.step (ops SelectiveRepeat.hooks) order e = some (s',out)) : s'.worker.Shut := by
  cases Sending.step_stepped hstep with
  | moved => exact hshut
  | sent _ _ hopen => exact absurd (hshut.2.symm.trans hopen) (by simp)
  | unsent => exact hshut
  | received hloc hrecv =>
    cases receiveAck_answered hrecv with
    | timedOut => exact hshut.of_same rfl rfl rfl
    | ignored => exact hshut.of_same rfl rfl rfl
    | taken htakes =>
      have hend := of_decide_eq_false hshut.2
      rw [hshut.1] at hend
      exfalso
      apply hend
      exact UInt32.lt_of_le_of_lt UInt32.zero_le htakes.2.2.1.2
  | timed hloc htimers =>
    obtain ⟨noErr,w,out',hrun,hreq,-⟩ := hs.worker.updateTimers SelectiveRepeat.hooks _
    have heq := Option.some.inj (hrun.symm.trans htimers)
    simp only [Prod.mk.injEq] at heq
    obtain ⟨-,rfl,-⟩ := heq
    obtain ⟨n,hctl,-⟩ := hreq.ctl
    have hsame : SelectiveRepeat.hooks.onTimeout^[n] s.worker.ctl = s.worker.ctl :=
      congrFun (Function.iterate_id n) s.worker.ctl
    exact hshut.of_same hreq.seqNo hreq.baseSeqNo (hctl.trans hsame)

end RepeatServer

end ReliableTransfer
