import ReliableTransfer.Workers.Factory
import ReliableTransfer.Workers.GoBackN.Overrun
import ReliableTransfer.Workers.SelectiveRepeat.Runs
import ReliableTransfer.Workers.SelectiveRepeatCC.Safety
import ReliableTransfer.Workers.StopWait.Progress

/-!
# What all servers do

Whatever acknowledgements arrive, a server worker that goes on sends packets of the file that are
not acknowledged, and holds for acknowledged only what an undamaged acknowledgement has counted
for.
-/

namespace ReliableTransfer

variable {order : ByteOrder} {file : List UInt8}

namespace StopWaitServer

variable {s s' : StopWaitServer} {e : StopWaitEvent} {out : List Packet}

theorem badPack_verified {tv sendTime : Timeval} {again : Timeval → Timeval → StopWaitLoc}
    {onTimeout onError : StopWaitLoc}
    (h : s.badPack tv sendTime again onTimeout onError e = some s') (hne : s'.seqNo ≠ s.seqNo) :
    ∃ now a, e = .receive now (.ok a) ∧ Acks s.seqNo a := by
  unfold badPack at h
  split at h
  · split at h
    · obtain rfl := Option.some.inj h
      exact absurd rfl hne
    · contradiction
  · next now recv =>
    dsimp only at h
    split at h
    · contradiction
    · cases recv with
      | timeOut =>
        obtain rfl := Option.some.inj h
        exact absurd rfl hne
      | error =>
        obtain rfl := Option.some.inj h
        exact absurd rfl hne
      | ok a =>
        dsimp only at h
        split at h
        · next hack =>
          rw [Bool.and_eq_true,beq_iff_eq] at hack
          exact ⟨now,a,rfl,hack⟩
        · obtain rfl := Option.some.inj h
          exact absurd rfl hne
  · contradiction

/-- The number goes up only on an undamaged acknowledgement of it, and only while it is awaited. -/
theorem step_verified (h : s.step order e = some (s',out)) (hne : s'.seqNo ≠ s.seqNo) :
    ∃ now a, e = .receive now (.ok a) ∧ Acks s.seqNo a := by
  cases step_stepped h with
  | returned => exact absurd rfl hne
  | next => exact absurd rfl hne
  | again => exact absurd rfl hne
  | acked hkept =>
    unfold step at h
    cases hloc : s.loc with
    | wait packet tv sendTime =>
      simp only [hloc] at h
      obtain ⟨next,hnext,heq⟩ := Option.map_eq_some_iff.mp h
      obtain ⟨rfl,-⟩ := Prod.mk.inj heq
      exact badPack_verified hnext hne
    | rewait packet tv sendTime =>
      simp only [hloc] at h
      obtain ⟨next,hnext,heq⟩ := Option.map_eq_some_iff.mp h
      obtain ⟨rfl,-⟩ := Prod.mk.inj heq
      exact badPack_verified hnext hne
    | resend packet =>
      simp only [hloc] at h
      cases e <;> simp at h
    | head => simp [kept,hloc] at hkept
    | returned failed => simp [kept,hloc] at hkept

theorem kept_of_receive {now : Timeval} {recv : Recv AckPacket}
    (h : s.step order (.receive now recv) = some (s',out)) : ∃ packet, s.kept = some packet := by
  obtain ⟨seqNo,feeder,loc⟩ := s
  cases loc with
  | wait packet tv sendTime => exact ⟨packet,rfl⟩
  | resend packet => exact ⟨packet,rfl⟩
  | rewait packet tv sendTime => exact ⟨packet,rfl⟩
  | head => simp [step] at h
  | returned failed => simp [step] at h

theorem Good.noWrap (hs : s.Good order file) (hfile : numSegments file + 1 < 2^32)
    (h : s.step order e = some (s',out)) : s.NoWrap e := by
  rintro now a rfl -
  obtain ⟨packet,hkept⟩ := kept_of_receive h
  exact (Nat.succ_le_succ ((good_of_kept hkept).mp hs).2.1).trans_lt hfile

theorem Good.step (hs : s.Good order file) (hfile : numSegments file + 1 < 2^32)
    (h : s.step order e = some (s',out)) :
    s'.Good order file ∧ (∀ d ∈ out, d = filePacket order file s.seqNo ∧
        s.seqNo.toNat ≤ numSegments file) ∧
      (s'.seqNo = s.seqNo ∨ (s'.seqNo.toNat = s.seqNo.toNat + 1 ∧
        ∃ now a, e = .receive now (.ok a) ∧ Acks s.seqNo a)) := by
  have hadvance := step_advance (hs.noWrap hfile h) hs h
  refine ⟨hadvance.good,fun d hd => ?_,?_⟩
  · obtain ⟨rfl,hlt⟩ := hadvance.out d hd
    refine ⟨rfl,?_⟩
    cases step_stepped h with
    | returned => simp at hd
    | next hloc hnext =>
      rw [Good,hloc] at hs
      rwa [hs.1,hasNext_feederAt] at hnext
    | again hkept => exact ((good_of_kept hkept).mp hs).2.1
    | acked => simp at hd
  · rcases hadvance.seqNo with heq | ⟨hsucc,-⟩
    · exact Or.inl heq
    · refine Or.inr ⟨hsucc,step_verified h fun heq => ?_⟩
      rw [heq] at hsucc
      omega

end StopWaitServer

namespace GoBackServer

variable {window : UInt32} {s s' : GoBackServer}

theorem Bookkept.received_base (hs : s.Bookkept order file window) {env : AckEnv} {noErr : Bool}
    (hrun : s.receiveAck window env = some (noErr,s')) :
    s'.baseSeqNo = s.baseSeqNo ∨ (s.baseSeqNo.toNat ≤ s'.baseSeqNo.toNat ∧
      ∃ a, env.recv = .ok a ∧ verifyChecksumAck a = true ∧
        s'.baseSeqNo.toNat = a.ackno.toNat + 1) := by
  unfold receiveAck at hrun
  split at hrun
  · obtain ⟨-,rfl⟩ := hrun
    exact Or.inl rfl
  · obtain ⟨-,rfl⟩ := hrun
    exact Or.inl rfl
  · next a hanswer =>
    split at hrun
    · next htest =>
      rw [hs.trim_eq htest.2.1] at hrun
      by_cases hlt : a.ackno < s.seqNo
      · rw [if_pos hlt] at hrun
        obtain ⟨-,rfl⟩ := hrun
        have hsucc := toNat_add_one_of_lt hlt
        have hle := UInt32.le_iff_toNat_le.mp htest.2.1
        refine Or.inr ⟨?_,a,AckEnv.answer_ok hanswer,htest.1,hsucc⟩
        change s.baseSeqNo.toNat ≤ (a.ackno + 1).toNat
        omega
      · rw [if_neg hlt] at hrun
        contradiction
    · obtain ⟨-,rfl⟩ := hrun
      exact Or.inl rfl

theorem step_base {s s' : Sending GoBackServer} {e : SenderEvent} {out : List Packet}
    (hs : s.Good (ops window) file (Bookkept order file window))
    (h : s.step (ops window) order e = some (s',out)) :
    s.worker.baseSeqNo.toNat ≤ s'.worker.baseSeqNo.toNat ∧
      (∀ d ∈ out, s.worker.baseSeqNo.toNat ≤ d.seqno.toNat) ∧
      (s'.worker.baseSeqNo = s.worker.baseSeqNo ∨ ∃ env a, e = .ack env ∧ env.recv = .ok a ∧
        verifyChecksumAck a = true ∧ s'.worker.baseSeqNo.toNat = a.ackno.toNat + 1) := by
  have hbook := hs.worker
  cases Sending.step_stepped h with
  | moved => exact ⟨le_refl _,by simp,Or.inl rfl⟩
  | sent hloc hnext =>
    obtain ⟨-,hpacket,-⟩ := hs.next order (by simp [hloc]) hnext
    rw [hpacket]
    refine ⟨le_refl _,fun d hd => ?_,Or.inl rfl⟩
    rw [Tick.mem_transmit hd]
    exact hbook.base_le
  | unsent => exact ⟨le_refl _,by simp,Or.inl rfl⟩
  | @received env noErr worker site loc hloc hrecv =>
    rcases hbook.received_base hrecv with heq | ⟨hle,a,ha,hsum,hbase⟩
    · exact ⟨heq ▸ le_refl _,by simp,Or.inl heq⟩
    · exact ⟨hle,by simp,Or.inr ⟨env,a,rfl,ha,hsum,hbase⟩⟩
  | @timed ticks noErr worker out site loc hloc htimers =>
    have hpass : s.worker.updateTimer ticks = (noErr,worker,out) := Option.some.inj htimers
    obtain ⟨-,-,hbase,hout⟩ := updateTimer_bookkept hbook ticks
    rw [hpass] at hbase hout
    refine ⟨hbase ▸ le_refl _,fun d hd => ?_,Or.inl hbase⟩
    have hmem := hout d hd
    rw [hbook.unacked] at hmem
    obtain ⟨i,hlo,hhi,rfl⟩ := mem_filePackets.mp hmem
    rw [filePacket_seqno,UInt32.toNat_ofNat_of_lt' (hhi.trans s.worker.seqNo.toNat_lt)]
    exact hlo

end GoBackServer

namespace RepeatServer

variable {γ : Type} {h : RepeatHooks γ}

theorem InStep.received_verified {s s' : RepeatServer γ} (hs : s.InStep order file) {env : AckEnv}
    {noErr : Bool} (hrun : s.receiveAck h env = some (noErr,s')) {i : UInt32}
    (hi : s.Outstanding i) (hi' : ¬s'.Outstanding i) :
    ∃ a, env.recv = .ok a ∧ verifyChecksumAck a = true ∧ a.ackno = i := by
  obtain ⟨a,ha,hack⟩ := (((hs.received hrun).outstanding i).2 hi).resolve_left hi'
  cases receiveAck_answered hrun with
  | timedOut => exact absurd hi hi'
  | ignored => exact absurd hi hi'
  | taken htakes =>
    obtain rfl := Recv.ok.inj ((AckEnv.answer_ok htakes.1).symm.trans ha)
    exact ⟨_,ha,htakes.2.1,hack⟩

theorem step_retires {s s' : Sending (RepeatServer γ)} {e : SenderEvent} {out : List Packet}
    (hs : s.Good (ops h) file (InStep order file))
    (hstep : s.step (ops h) order e = some (s',out)) {i : UInt32} (hi : s'.worker.Retired i) :
    s.worker.Retired i ∨ ∃ env a, e = .ack env ∧ env.recv = .ok a ∧
      verifyChecksumAck a = true ∧ a.ackno = i := by
  have hin := hs.worker
  cases Sending.step_stepped hstep with
  | moved => exact Or.inl hi
  | @sent tick hloc hnext hopen =>
    obtain ⟨hle,hpacket,-⟩ := hs.next order (by simp [hloc]) hnext
    rw [hpacket] at hi
    obtain ⟨-,hseq,hout⟩ := hin.recordSent hopen tick.sendTime
    have hnot := not_or.mp fun ho => hi.2 ((hout i).mpr ho)
    have hne : i.toNat ≠ s.worker.seqNo.toNat := fun heq => hnot.2 (UInt32.toNat_inj.mp heq)
    have hlt : i.toNat < s.worker.seqNo.toNat + 1 := hi.1.trans_eq hseq
    exact Or.inl ⟨by omega,hnot.1⟩
  | unsent => exact Or.inl hi
  | @received env noErr worker site loc hloc hrecv =>
    have hlt : i.toNat < s.worker.seqNo.toNat := (hin.received hrecv).seqNo ▸ hi.1
    by_cases hout : s.worker.Outstanding i
    · obtain ⟨a,ha⟩ := hin.received_verified hrecv hout hi.2
      exact Or.inr ⟨env,a,rfl,ha⟩
    · exact Or.inl ⟨hlt,hout⟩
  | timed hloc htimers =>
    obtain ⟨hr,-⟩ := hin.requeued htimers
    exact Or.inl ⟨hr.seqNo ▸ hi.1,fun ho => hi.2 ((hr.outstanding i).mpr ho)⟩

end RepeatServer

namespace ServerWorker

def Good (order : ByteOrder) (file : List UInt8) : ServerWorker → Prop
  | .stopWait s => s.Good order file
  | .goBackN window s =>
    s.Good (GoBackServer.ops window) file (GoBackServer.Bookkept order file window)
  | .selectiveRepeat s =>
    s.Good (RepeatServer.ops SelectiveRepeat.hooks) file (RepeatServer.InStep order file)
  | .selectiveRepeatCC s =>
    s.Good (RepeatServer.ops SelectiveRepeatCC.hooks) file (RepeatServer.InStep order file)

def Acked : ServerWorker → UInt32 → Prop
  | .stopWait s,n => n.toNat < s.seqNo.toNat
  | .goBackN _ s,n => n.toNat < s.worker.baseSeqNo.toNat
  | .selectiveRepeat s,n => s.worker.Retired n
  | .selectiveRepeatCC s,n => s.worker.Retired n

/-- An acknowledgement counts for packet `n`, and with go-back-N for those before it. -/
def Credits : ServerWorker → AckPacket → UInt32 → Prop
  | .goBackN _ _,a,n => n ≤ a.ackno
  | _,a,n => n = a.ackno

structure Advance (order : ByteOrder) (file : List UInt8) (w : ServerWorker) (e : WorkerEvent)
    (w' : ServerWorker) (out : List Packet) : Prop where
  good : w'.Good order file
  type : w'.type = w.type
  acked : ∀ n, w.Acked n → w'.Acked n
  credited : ∀ n, w'.Acked n → w.Acked n ∨
    ∃ a, e.reads = some a ∧ verifyChecksumAck a = true ∧ w.Credits a n
  out : ∀ d ∈ out, ∃ n, d = filePacket order file n ∧ n.toNat ≤ numSegments file ∧ ¬w.Acked n

theorem start_good (order : ByteOrder) (file : List UInt8) (type : ProtoType)
    (dupAcks : List UInt32) (window : UInt32) :
    (start type dupAcks window (feederAt file 0)).Good order file := by
  cases type with
  | waitAndStop => exact ⟨rfl,Nat.zero_le _⟩
  | goBackN => exact Sending.start_good ⟨le_refl _,Nat.zero_le _,rfl⟩ rfl
  | selectiveRepeat => exact Sending.start_good (RepeatServer.fresh_inStep order file _) rfl
  | selectiveRepeatCC => exact Sending.start_good (RepeatServer.fresh_inStep order file _) rfl

@[simp] theorem start_type (type : ProtoType) (dupAcks : List UInt32) (window : UInt32)
    (feeder : DataFeeder) : (start type dupAcks window feeder).type = type := by
  cases type <;> rfl

theorem start_acked (type : ProtoType) (dupAcks : List UInt32) (window : UInt32)
    (feeder : DataFeeder) (n : UInt32) : ¬(start type dupAcks window feeder).Acked n := by
  intro h
  cases type with
  | waitAndStop => exact Nat.not_lt_zero _ h
  | goBackN => exact Nat.not_lt_zero _ h
  | selectiveRepeat => exact Nat.not_lt_zero _ h.1
  | selectiveRepeatCC => exact Nat.not_lt_zero _ h.1

theorem StopWait.advance {s s' : StopWaitServer} {e : StopWaitEvent} {out : List Packet}
    (hs : s.Good order file) (hfile : numSegments file + 1 < 2^32)
    (h : s.step order e = some (s',out)) :
    Advance order file (.stopWait s) (.stopWait e) (.stopWait s') out := by
  obtain ⟨hgood,hout,hseq⟩ := hs.step hfile h
  have hcredited (n : UInt32) (hn : n.toNat < s'.seqNo.toNat) : n.toNat < s.seqNo.toNat ∨
      ∃ a, (WorkerEvent.stopWait e).reads = some a ∧ verifyChecksumAck a = true ∧ n = a.ackno := by
    rcases hseq with heq | ⟨hsucc,now,a,rfl,hsum,hack⟩
    · exact Or.inl (heq ▸ hn)
    · by_cases hlt : n.toNat < s.seqNo.toNat
      · exact Or.inl hlt
      · exact Or.inr ⟨a,rfl,hsum,UInt32.toNat_inj.mp (by rw [hack]; omega)⟩
  refine ⟨hgood,rfl,fun n hn => ?_,hcredited,fun d hd => ?_⟩
  · change n.toNat < s'.seqNo.toNat
    rcases hseq with heq | ⟨hsucc,-⟩
    · rwa [heq]
    · exact (Nat.lt_succ_of_lt hn).trans_eq hsucc.symm
  · obtain ⟨rfl,hle⟩ := hout d hd
    exact ⟨_,rfl,hle,lt_irrefl _⟩

theorem GoBackN.advance {window : UInt32} {s s' : Sending GoBackServer} {e : SenderEvent}
    {out : List Packet}
    (hs : s.Good (GoBackServer.ops window) file (GoBackServer.Bookkept order file window))
    (h : s.step (GoBackServer.ops window) order e = some (s',out)) :
    Advance order file (.goBackN window s) (.windowed e) (.goBackN window s') out := by
  have hkept := Sending.step_kept (GoBackServer.sound_bookkept order file window) hs
    (fun _ _ _ _ => trivial) h
  obtain ⟨hle,hout,hbase⟩ := GoBackServer.step_base hs h
  refine ⟨hkept.good,rfl,fun n hn => Nat.lt_of_lt_of_le hn hle,fun n hn => ?_,fun d hd => ?_⟩
  · change n.toNat < s'.worker.baseSeqNo.toNat at hn
    rcases hbase with heq | ⟨env,a,rfl,ha,hsum,hsucc⟩
    · rw [heq] at hn
      exact Or.inl hn
    · refine Or.inr ⟨a,by simp [WorkerEvent.reads,WorkerEvent.recv,ha],hsum,?_⟩
      exact UInt32.le_iff_toNat_le.mpr (Nat.le_of_lt_succ (hn.trans_eq hsucc))
  · obtain ⟨i,rfl,hi⟩ := hkept.out d hd
    exact ⟨i,rfl,Nat.le_of_lt_succ (hi.trans_le hkept.good.seqNo_le),not_lt.mpr (hout _ hd)⟩

theorem repeat_advance {γ : Type} {h : RepeatHooks γ} {s s' : Sending (RepeatServer γ)}
    {e : SenderEvent} {out : List Packet}
    (hs : s.Good (RepeatServer.ops h) file (RepeatServer.InStep order file))
    (hstep : s.step (RepeatServer.ops h) order e = some (s',out)) :
    s'.Good (RepeatServer.ops h) file (RepeatServer.InStep order file) ∧
      (∀ n, s.worker.Retired n → s'.worker.Retired n) ∧
      (∀ n, s'.worker.Retired n → s.worker.Retired n ∨
        ∃ a, (WorkerEvent.windowed e).reads = some a ∧ verifyChecksumAck a = true ∧ n = a.ackno) ∧
      ∀ d ∈ out, ∃ n, d = filePacket order file n ∧ n.toNat ≤ numSegments file ∧
        ¬s.worker.Retired n := by
  have hkept := Sending.step_kept (RepeatServer.sound_inStep order file h) hs
    (fun _ _ _ _ => trivial) hstep
  refine ⟨hkept.good,fun n hn => (RepeatServer.step_retired hs hn hstep).1,fun n hn => ?_,
    fun d hd => ?_⟩
  · rcases RepeatServer.step_retires hs hstep hn with hn | ⟨env,a,rfl,ha,hsum,hack⟩
    · exact Or.inl hn
    · exact Or.inr ⟨a,by simp [WorkerEvent.reads,WorkerEvent.recv,ha],hsum,hack.symm⟩
  · obtain ⟨i,rfl,hi⟩ := hkept.out d hd
    refine ⟨i,rfl,Nat.le_of_lt_succ (hi.trans_le hkept.good.seqNo_le),fun hn => ?_⟩
    exact (RepeatServer.step_retired hs hn hstep).2 _ hd rfl

/-- Every step of every server goes on with the transfer. -/
theorem Good.advance {w w' : ServerWorker} {e : WorkerEvent} {out : List Packet}
    (hw : w.Good order file) (hfile : numSegments file + 1 < 2^32)
    (h : w.step order e = some (w',out)) : Advance order file w e w' out := by
  cases w with
  | stopWait s =>
    cases e with
    | stopWait e =>
      obtain ⟨⟨s',out'⟩,hstep,heq⟩ := Option.map_eq_some_iff.mp h
      obtain ⟨rfl,rfl⟩ := Prod.mk.inj heq
      exact StopWait.advance hw hfile hstep
    | windowed e => contradiction
  | goBackN window s =>
    cases e with
    | stopWait e => contradiction
    | windowed e =>
      obtain ⟨⟨s',out'⟩,hstep,heq⟩ := Option.map_eq_some_iff.mp h
      obtain ⟨rfl,rfl⟩ := Prod.mk.inj heq
      exact GoBackN.advance hw hstep
  | selectiveRepeat s =>
    cases e with
    | stopWait e => contradiction
    | windowed e =>
      obtain ⟨⟨s',out'⟩,hstep,heq⟩ := Option.map_eq_some_iff.mp h
      obtain ⟨rfl,rfl⟩ := Prod.mk.inj heq
      obtain ⟨hgood,hacked,hcredited,hout⟩ := repeat_advance hw hstep
      exact ⟨hgood,rfl,hacked,hcredited,hout⟩
  | selectiveRepeatCC s =>
    cases e with
    | stopWait e => contradiction
    | windowed e =>
      obtain ⟨⟨s',out'⟩,hstep,heq⟩ := Option.map_eq_some_iff.mp h
      obtain ⟨rfl,rfl⟩ := Prod.mk.inj heq
      obtain ⟨hgood,hacked,hcredited,hout⟩ := repeat_advance hw hstep
      exact ⟨hgood,rfl,hacked,hcredited,hout⟩

theorem repeat_retired {γ : Type} {h : RepeatHooks γ} (hclose : RepeatServer.Closes order file h)
    {s : Sending (RepeatServer γ)}
    (hs : s.Good (RepeatServer.ops h) file (RepeatServer.InStep order file))
    (hret : s.loc = .returned false) {n : UInt32} (hn : n.toNat ≤ numSegments file) :
    s.worker.Retired n := by
  have hseq := hs.closing (by rw [hret]; trivial)
  exact ⟨(Nat.lt_succ_of_le hn).trans_eq hseq.symm,hclose _ hs.worker (hs.done hret) n⟩

/-- A server that succeeds holds every packet for acknowledged. -/
theorem Good.all_acked {w : ServerWorker} (hw : w.Good order file) (h : w.Succeeded) {n : UInt32}
    (hn : n.toNat ≤ numSegments file) : w.Acked n := by
  cases w with
  | stopWait s =>
    obtain ⟨seqNo,feeder,loc⟩ := s
    obtain rfl : loc = .returned false := h
    exact (Nat.lt_succ_of_le hn).trans_eq (Eq.symm hw)
  | goBackN window s =>
    have hgood : s.Good (GoBackServer.ops window) file (GoBackServer.Bookkept order file window) := hw
    have hret : s.loc = .returned false := h
    have hseq := hgood.closing (by rw [hret]; trivial)
    have hdone := hgood.done hret
    rw [← Bool.not_eq_true,hgood.worker.pending_iff,not_lt] at hdone
    exact (Nat.lt_succ_of_le hn).trans_le (hseq.symm.trans_le hdone)
  | selectiveRepeat s => exact repeat_retired (SelectiveRepeat.closes order file) hw h hn
  | selectiveRepeatCC s => exact repeat_retired (SelectiveRepeatCC.closes order file) hw h hn

end ServerWorker

end ReliableTransfer
