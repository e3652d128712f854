import ReliableTransfer.Workers.SelectiveRepeatCC.Safety

/-!
# When the containers agree on everything

An acknowledgement that arrives while nothing is outstanding finds the order empty, and
`seqnums_sent[sendOrder.front()]` then inserts whatever the empty list answers. As long as none
does, all five containers hold the outstanding numbers and nothing else.
-/

namespace ReliableTransfer

open Framework

namespace RepeatServer

variable {γ : Type} {order : ByteOrder} {file : List UInt8} {window : UInt32}
  {h : RepeatHooks γ} {room : RepeatClient → Bool}

/-- `receive_ack` runs only while something is outstanding. -/
def Awaited (s : Sending (RepeatServer γ)) (e : SenderEvent) : Prop :=
  ∀ env, e = .ack env → s.worker.baseSeqNo ≠ s.worker.seqNo

theorem awaited_send (s : Sending (RepeatServer γ)) (tick : Tick) : Awaited s (.send tick) := nofun

theorem awaited_ack {ctl : γ} (s : Sending (RepeatServer γ)) (env : AckEnv)
    (hne : s.worker.baseSeqNo ≠ s.worker.seqNo) (_ : s.worker.ctl = ctl) : Awaited s (.ack env) :=
  fun _ _ => hne

/-- Every number sent has been acknowledged: the base has passed it, or it is kept in `acks`. -/
def AllAcked (s : RepeatServer γ) : Prop :=
  ∀ i : UInt32, i.toNat < s.seqNo.toNat → i.toNat < s.baseSeqNo.toNat ∨ i ∈ s.acks

/-- The containers hold the same numbers, those from `base_seq_no` to `seq_no - 1` without
`acks`. -/
structure Correspond (s : RepeatServer γ) : Prop where
  nodup : s.sendOrder.values.Nodup
  sendOrder : ∀ i, i ∈ s.sendOrder.values ↔ s.Outstanding i
  iterators : ∀ i, i ∈ s.sendOrderIterators ↔ s.Outstanding i
  dataSent : ∀ i, i ∈ s.dataSent ↔ s.Outstanding i
  seqnumsSent : ∀ i, i ∈ s.seqnumsSent ↔ s.Outstanding i

/-- The containers correspond, and a call of `receive_ack` finds the order non-empty and its
front in `seqnums_sent` exactly if something is outstanding. -/
structure Corresponding (x : RepeatLink γ) : Prop where
  correspond : x.server.worker.Correspond
  entered : ∀ env, Awaited x.server (.ack env) ↔ x.server.worker.sendOrder.values ≠ List.nil
  kept : ∀ env, Awaited x.server (.ack env) →
    x.server.worker.front env.stray ∈ x.server.worker.seqnumsSent ∧
      x.server.worker.touch env.stray = x.server.worker

theorem InStep.correspond {s : RepeatServer γ} (hs : s.InStep order file) (htidy : s.Tidy) :
    s.Correspond where
  nodup := hs.nodup
  sendOrder := hs.mem_order
  iterators i := by
    rw [Std.ExtTreeMap.mem_iff_isSome_getElem?,Option.isSome_iff_exists,← hs.mem_order,
      NodeList.mem_values]
    exact exists_congr (hs.iterators i)
  dataSent := hs.mem_dataSent
  seqnumsSent i := ⟨htidy i,hs.mem_seqnumsSent⟩

theorem InStep.corresponding {x : RepeatLink γ} (hs : x.server.worker.InStep order file)
    (htidy : x.server.worker.Tidy) : Corresponding x := by
  have hentered (env : AckEnv) :
      Awaited x.server (.ack env) ↔ x.server.worker.sendOrder.values ≠ List.nil := by
    rw [Ne,hs.order_nil]
    exact ⟨fun haw => haw env rfl,fun hne _ _ => hne⟩
  refine ⟨hs.correspond htidy,hentered,fun env haw => ?_⟩
  have hout := (hs.front env.stray).resolve_left fun hnil => (hentered env).mp haw hnil.1
  have hmem := hs.mem_seqnumsSent hout
  exact ⟨hmem,touch_of_mem hmem⟩

theorem tidy_preserves (order : ByteOrder) (file : List UInt8) (h : RepeatHooks γ) :
    Preserves order file h Awaited Tidy where
  send t hs hopen htidy := htidy.recordSent hs hopen t
  ack haw hs htidy hr := hr.tidy hs htidy fun hnil => haw _ rfl (hs.order_nil.mp hnil)
  timers _ htidy hreq := hreq.tidy htidy

theorem corresponding_run (hroom : Roomy order file window room) {ctl : γ} {x : RepeatLink γ}
    (hrun : (link h order window room).RunWhere Awaited ⟨.start (fresh ctl) file,.fresh,0,0⟩ x) :
    x.server.worker.InStep order file ∧ x.server.worker.Tidy := by
  have hfresh : (fresh ctl : RepeatServer γ).Tidy :=
    fun i hi => absurd hi Std.ExtTreeMap.not_mem_empty
  have hbegun : (coupling order file window h).Holds ⟨.start (fresh ctl) file,.fresh,0,0⟩ :=
    safe_run hroom .refl
  obtain ⟨hx,htidy⟩ := (tidy_preserves order file h).run hroom hbegun hfresh hrun
  exact ⟨hx.parties.worker.inStep,htidy⟩

theorem allAcked_iff (s : RepeatServer γ) : s.AllAcked ↔ ∀ i, ¬s.Outstanding i := by
  constructor
  · intro hall i hi
    exact (hall i hi.2.1).elim (not_lt.mpr hi.1) hi.2.2
  · intro hnone i hi
    by_contra hnot
    rw [not_or,not_lt] at hnot
    exact hnone i ⟨hnot.1,hi,hnot.2⟩

theorem InStep.closes_iff {s : SelectiveRepeatServer} (hs : s.InStep order file) (htidy : s.Tidy) :
    SelectiveRepeat.hooks.pending s = false ↔ s.AllAcked := by
  rw [allAcked_iff]
  refine ⟨SelectiveRepeat.closes order file s hs,fun hnone => ?_⟩
  have hempty : s.seqnumsSent = ∅ := Std.ExtTreeMap.eq_empty_iff_forall_not_mem.mpr
    fun i hi => hnone i (htidy i hi)
  simp [SelectiveRepeat.hooks,hempty]

/-- In both variants the containers correspond in every run in which no acknowledgement arrives
while nothing is outstanding. -/
theorem containers_correspond (order : ByteOrder) (file : List UInt8)
    (window clientWindow : UInt32) (dupAcks : List UInt32) :
    (∀ x, (SelectiveRepeat.link order clientWindow).RunWhere Awaited
        (SelectiveRepeat.start window file) x → Corresponding x ∧
          (SelectiveRepeat.hooks.pending x.server.worker = false ↔ x.server.worker.AllAcked)) ∧
    (∀ x, (SelectiveRepeatCC.link order clientWindow).RunWhere Awaited
        (SelectiveRepeatCC.start dupAcks window file) x → Corresponding x) := by
  constructor
  · intro x hrun
    obtain ⟨hs,htidy⟩ := corresponding_run (SelectiveRepeat.roomy order file clientWindow) hrun
    exact ⟨hs.corresponding htidy,hs.closes_iff htidy⟩
  · intro x hrun
    obtain ⟨hs,htidy⟩ := corresponding_run (SelectiveRepeatCC.roomy order file clientWindow) hrun
    exact hs.corresponding htidy

theorem first_acked (order : ByteOrder) (file : List UInt8) (h : RepeatHooks γ) (ctl : γ)
    (hroom : Roomy order file 1 room) (hopen : (fresh ctl).windowOpen h = true)
    {P : Sending (RepeatServer γ) → SenderEvent → Prop} (hsend : ∀ s tick, P s (.send tick))
    (hread : ∀ s env, s.worker.baseSeqNo ≠ s.worker.seqNo → s.worker.ctl = ctl → P s (.ack env)) :
    ∃ s c, (link h order 1 room).RunWhere P ⟨.start (fresh ctl) file,.fresh,0,0⟩
        ⟨s,c,0,createAckPacket 0 ::ₘ 0⟩ ∧
      s.loc = .drain .afterSend ∧ s.worker.baseSeqNo = 1 ∧ s.worker.seqNo = 1 ∧
      s.worker.ctl = h.afterAck (h.onAck ctl) ∧ (0 < numSegments file → c.baseAckNo = 1) := by
  let sent : Sending (RepeatServer γ) := ⟨(fresh ctl).recordSent (filePacket order file 0) ⟨0,0⟩,
    feederAt file 1,.drain .afterSend⟩
  obtain ⟨c,hrun,haccepted⟩ := first_delivered order file h ctl hroom hopen hsend
  have hacked : (link h order 1 room).RunWhere P ⟨.start (fresh ctl) file,.fresh,0,0⟩
      ⟨sent,c,0,createAckPacket 0 ::ₘ createAckPacket 0 ::ₘ 0⟩ := hrun.dupAck
  have hbegun : (coupling order file 1 h).Holds ⟨.start (fresh ctl) file,.fresh,0,0⟩ :=
    safe_run hroom .refl
  have hcoupled : Coupled order file 1 sent.worker c :=
    ((coupling_inductive h hroom).run hbegun hacked.run).parties.worker
  obtain ⟨hs,-,hout⟩ := (fresh_inStep order file ctl).recordSent hopen ⟨0,0⟩
  have hwin : (0 : UInt32) < 0 + h.window ctl := of_decide_eq_true hopen
  obtain ⟨w,hw,hack⟩ := hs.receiveAck_taken h (i := 0) ⟨show (0 : UInt32) ≤ 0 by decide,hwin⟩
    ((hout 0).mpr (Or.inr rfl)) ⟨0,0⟩
  have hw' : (ops h).receiveAck (arrival ⟨0,0⟩ (createAckPacket 0)) sent.worker = some (true,w) :=
    hw
  obtain ⟨loc,hstep,-,hloc⟩ := Sending.step_ack (ops h) order rfl hw'
  refine ⟨_,c,hacked.read (.ack (arrival ⟨0,0⟩ (createAckPacket 0))) ?_ rfl hstep,hloc rfl,?_,?_,
    hack.ctl,fun hpos => ?_⟩
  · exact hread _ _ (show (0 : UInt32) ≠ 1 by decide) rfl
  · have hlt : 0 < w.baseSeqNo.toNat := hack.base_lt rfl
    have hle : w.baseSeqNo.toNat ≤ 1 :=
      hack.inStep.base_le.trans_eq (congrArg UInt32.toNat hack.seqNo)
    exact UInt32.toNat_inj.mp (le_antisymm hle hlt)
  · exact hack.seqNo
  · have hlt : 0 < c.baseAckNo.toNat := haccepted.base_lt (by decide) rfl hpos
    exact UInt32.toNat_inj.mp (le_antisymm hcoupled.ackNo_le hlt)

theorem containers_correspond_marker :
    (∃ order x, (SelectiveRepeat.link order 1).RunWhere Awaited
        (SelectiveRepeat.start 1 List.nil) x ∧ x.server.worker.seqNo = 1 ∧ Corresponding x ∧
          (SelectiveRepeat.hooks.pending x.server.worker = false ↔ x.server.worker.AllAcked)) ∧
    (∃ order x, (SelectiveRepeatCC.link order 1).RunWhere Awaited
        (SelectiveRepeatCC.start List.nil 1 List.nil) x ∧ x.server.worker.seqNo = 1 ∧
          Corresponding x) := by
  have hd := containers_correspond .little List.nil 1 1 List.nil
  obtain ⟨s,c,hx,-,-,hseq,-⟩ := first_acked .little List.nil SelectiveRepeat.hooks 1
    (SelectiveRepeat.roomy .little List.nil 1) (by decide) awaited_send awaited_ack
  obtain ⟨s',c',hx',-,-,hseq',-⟩ := first_acked .little List.nil SelectiveRepeatCC.hooks
    (.start List.nil 1) (SelectiveRepeatCC.roomy .little List.nil 1) (by decide) awaited_send
    awaited_ack
  exact ⟨⟨.little,_,hx,hseq,hd.1 _ hx⟩,⟨.little,_,hx',hseq',hd.2 _ hx'⟩⟩

theorem stray_run (order : ByteOrder) (h : RepeatHooks γ) (ctl : γ)
    (hroom : Roomy order List.nil 1 room) (hopen : (fresh ctl).windowOpen h = true) :
    ∃ x, (link h order 1 room).Run ⟨.start (fresh ctl) List.nil,.fresh,0,0⟩ x ∧
      x.server.worker.AllAcked ∧ 0 ∈ x.server.worker.seqnumsSent ∧
      ¬x.server.worker.Outstanding 0 := by
  obtain ⟨s,c,hrun,hloc,hbase,hseq,-⟩ := first_acked order List.nil h ctl hroom hopen
    (P := Awaited) awaited_send awaited_ack
  have hs : s.worker.InStep order List.nil := (safe_run hroom hrun.run).parties.worker.inStep
  have hnil := hs.order_nil.mpr (hbase.trans hseq.symm)
  have hfront : s.worker.front 0 = 0 := by
    simp [front,NodeList.front?_eq_none.mpr hnil]
  have hmem : (0 : UInt32) ∈ (s.worker.touch 0).seqnumsSent := by
    change _ ∈ s.worker.seqnumsSent.insertIfNew (s.worker.front 0) ⟨0,0⟩
    rw [hfront]
    exact Std.ExtTreeMap.mem_insertIfNew_self
  have hnot : ¬s.worker.Outstanding 0 := by
    rintro ⟨hlo,-⟩
    rw [hbase] at hlo
    exact absurd hlo (by decide)
  have hall : s.worker.AllAcked := by
    intro i hi
    rw [hbase]
    exact Or.inl (hseq ▸ hi)
  let env := arrival ⟨0,0⟩ (createAckPacket 0)
  obtain ⟨noErr,w,hw,hr⟩ := hs.receiveAck h env fun a ha _ => by
    obtain rfl : createAckPacket 0 = a := by simpa [env,arrival] using ha
    rw [hseq]
    decide
  obtain ⟨loc,hread,-⟩ := Sending.step_ack (ops h) order hloc hw
  refine ⟨_,hrun.run.read (.ack env) trivial rfl hread,?_⟩
  cases hr with
  | kept ctl' _ => exact ⟨hall,hmem,hnot⟩
  | taken hrecv _ hout _ =>
    obtain rfl : createAckPacket 0 = _ := by simpa [env,arrival] using hrecv
    exact absurd hout hnot

/-- In both variants the containers can part, and the closing loop of `SelectiveRepeatServer` can
have everything acknowledged and yet not end. -/
theorem containers_part :
    (∃ order x, (SelectiveRepeat.link order 1).Run (SelectiveRepeat.start 1 List.nil) x ∧
      ¬x.server.worker.Correspond ∧ x.server.worker.AllAcked ∧
      SelectiveRepeat.hooks.pending x.server.worker = true) ∧
    (∃ order x, (SelectiveRepeatCC.link order 1).Run
        (SelectiveRepeatCC.start List.nil 1 List.nil) x ∧ ¬x.server.worker.Correspond) := by
  obtain ⟨x,hx,hall,hmem,hnot⟩ := stray_run .little SelectiveRepeat.hooks 1
    (SelectiveRepeat.roomy .little List.nil 1) (by decide)
  obtain ⟨y,hy,-,hmem',hnot'⟩ := stray_run .little SelectiveRepeatCC.hooks (.start List.nil 1)
    (SelectiveRepeatCC.roomy .little List.nil 1) (by decide)
  refine ⟨⟨.little,x,hx,fun hc => hnot ((hc.seqnumsSent 0).mp hmem),hall,?_⟩,
    ⟨.little,y,hy,fun hc => hnot' ((hc.seqnumsSent 0).mp hmem')⟩⟩
  have hne : x.server.worker.seqnumsSent ≠ ∅ := fun hempty => by
    rw [hempty] at hmem
    exact Std.ExtTreeMap.not_mem_empty hmem
  simp [SelectiveRepeat.hooks,hne]

end RepeatServer

end ReliableTransfer
