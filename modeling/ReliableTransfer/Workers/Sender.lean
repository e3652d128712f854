import ReliableTransfer.Framework.LossyLink
import ReliableTransfer.Workers.Environment

/-!
# The sending loop of the windowed workers

`GoBackServer`, `SelectiveRepeatServer` and `SelectiveRepeatCCServer` run the same
`send_message` around their own bookkeeping: while the feeder has a segment, send it if the
window is open; after a send or in front of a full window, take the acknowledgements that have
arrived and look at the timers; then close.
-/

namespace ReliableTransfer

open Framework

variable {σ κ : Type}

/-- Where `send_message` calls `receive_ack` and then the timers. -/
inductive Site where
  | afterSend
  | windowFull
  | closing
deriving DecidableEq

inductive Loc where
  /-- The test `while(dataFeeder->hasNext())`. -/
  | head
  /-- The test `hasData` of the loop around `receive_ack`. -/
  | drain (site : Site)
  /-- The call of the timers. -/
  | timers (site : Site)
  /-- The test of the closing loop. -/
  | tail
  | returned (failed : Bool)
deriving DecidableEq

def Loc.Closing : Loc → Prop
  | .drain .closing | .timers .closing | .tail | .returned false => True
  | _ => False

def Site.next : Site → Loc
  | .closing => .tail
  | _ => .head

/-- The bookkeeping of a worker; `none` where the code leaves its containers. -/
structure SenderOps (σ : Type) where
  windowOpen : σ → Bool
  seqNo : σ → UInt32
  recordSent : Packet → Timeval → σ → σ
  receiveAck : AckEnv → σ → Option (Bool × σ)
  updateTimers : (Nat → Tick) → σ → Option (Bool × σ × List Packet)
  /-- The test of the closing loop. -/
  pending : σ → Bool
  /-- Whether a failure of the timers after a send ends `send_message`. -/
  heedsTimers : Bool

structure Sending (σ : Type) where
  worker : σ
  feeder : DataFeeder
  loc : Loc

inductive SenderEvent where
  /-- A loop test. -/
  | loop
  | send (tick : Tick)
  /-- `hasData` answers true and `receive_ack` runs. -/
  | ack (env : AckEnv)
  /-- `hasData` answers false. -/
  | idle
  | timers (ticks : Nat → Tick)

namespace Sending

variable (ops : SenderOps σ) (order : ByteOrder)

def step (s : Sending σ) (e : SenderEvent) : Option (Sending σ × List Packet) :=
  match s.loc,e with
  | .head,.loop =>
    if s.feeder.hasNext then
      if ops.windowOpen s.worker then none
      else some ({ s with loc := .drain .windowFull },List.nil)
    else some ({ s with loc := .tail },List.nil)
  | .head,.send tick =>
    if s.feeder.hasNext && ops.windowOpen s.worker then
      let (packetData,feeder) := s.feeder.getNextDataSegment
      let packet := createDataPacketCore order packetData (ops.seqNo s.worker)
      let (sent,out) := tick.transmit packet
      if sent then
        some (⟨ops.recordSent packet tick.sendTime s.worker,feeder,.drain .afterSend⟩,out)
      else some ({ s with feeder := feeder, loc := .returned true },out)
    else none
  | .drain site,.ack env =>
    (ops.receiveAck env s.worker).map fun (noErr,worker) =>
      let loc := if noErr || site == .afterSend then .drain site else .timers site
      ({ s with worker := worker, loc := loc },List.nil)
  | .drain site,.idle => some ({ s with loc := .timers site },List.nil)
  | .timers site,.timers ticks =>
    (ops.updateTimers ticks s.worker).map fun (noErr,worker,out) =>
      let goesOn := noErr || (site == .afterSend && !ops.heedsTimers)
      ({ s with worker := worker, loc := if goesOn then site.next else .returned true },out)
  | .tail,.loop =>
    some ({ s with loc := if ops.pending s.worker then .drain .closing else .returned false },
      List.nil)
  | _,_ => none

def link (accept : κ → Packet → Option (κ × List AckPacket)) :
    Link (Sending σ) κ SenderEvent Packet AckPacket where
  serve := step ops order
  reads
    | .ack env => match env.recv with
      | .ok a => some a
      | _ => none
    | _ => none
  accept := accept
  calm
    | .send tick => tick.Calm
    | .ack env => env.Calm
    | .timers ticks => ∀ i, (ticks i).Calm
    | _ => True

/-- The beginning of `send_message` on a readable file. -/
def start (worker : σ) (file : List UInt8) : Sending σ := ⟨worker,feederAt file 0,.head⟩

def nextPacket (ops : SenderOps σ) (order : ByteOrder) (s : Sending σ) : Packet :=
  createDataPacketCore order s.feeder.getNextDataSegment.1 (ops.seqNo s.worker)

inductive Stepped (ops : SenderOps σ) (order : ByteOrder) (s : Sending σ) :
    SenderEvent → Sending σ → List Packet → Prop
  /-- Only the place changes. -/
  | moved {e loc} : s.loc ≠ .returned true → loc ≠ .returned true →
      (loc.Closing → s.loc.Closing ∨ s.feeder.hasNext = false) →
      (loc = .returned false → s.loc.Closing ∧ ops.pending s.worker = false) →
      Stepped ops order s e { s with loc := loc } List.nil
  | sent {tick} : s.loc = .head → s.feeder.hasNext = true → ops.windowOpen s.worker = true →
      Stepped ops order s (.send tick)
        ⟨ops.recordSent (s.nextPacket ops order) tick.sendTime s.worker,
          s.feeder.getNextDataSegment.2,.drain .afterSend⟩
        (tick.transmit (s.nextPacket ops order)).2
  /-- The transmission failed. -/
  | unsent {tick} : s.loc = .head → s.feeder.hasNext = true → ops.windowOpen s.worker = true →
      Stepped ops order s (.send tick)
        { s with feeder := s.feeder.getNextDataSegment.2, loc := .returned true } List.nil
  /-- `receive_ack` has run. -/
  | received {env noErr worker site loc} : s.loc = .drain site →
      ops.receiveAck env s.worker = some (noErr,worker) → (loc = .drain site ∨ loc = .timers site) →
      Stepped ops order s (.ack env) { s with worker := worker, loc := loc } List.nil
  /-- The timers have been looked at. -/
  | timed {ticks noErr worker out site loc} : s.loc = .timers site →
      ops.updateTimers ticks s.worker = some (noErr,worker,out) →
      (loc = site.next ∨ loc = .returned true) →
      Stepped ops order s (.timers ticks) { s with worker := worker, loc := loc } out

variable {ops order}

theorem step_stepped {s s' : Sending σ} {e : SenderEvent} {out : List Packet}
    (h : s.step ops order e = some (s',out)) : Stepped ops order s e s' out := by
  unfold step at h
  split at h
  · next hloc =>
    split at h
    · split at h
      · contradiction
      · simp only [Option.some.injEq,Prod.mk.injEq] at h
        obtain ⟨rfl,rfl⟩ := h
        exact .moved (by simp [hloc]) (by simp) (by simp [Loc.Closing]) (by simp)
    · next hnext =>
      simp only [Option.some.injEq,Prod.mk.injEq] at h
      obtain ⟨rfl,rfl⟩ := h
      exact .moved (by simp [hloc]) (by simp) (fun _ => Or.inr (by simpa using hnext)) (by simp)
  · next tick hloc =>
    split at h
    · next hboth =>
      rw [Bool.and_eq_true] at hboth
      dsimp only at h
      split at h
      · simp only [Option.some.injEq,Prod.mk.injEq] at h
        obtain ⟨rfl,rfl⟩ := h
        exact .sent hloc hboth.1 hboth.2
      · next hsent =>
        rw [Tick.transmit_failed hsent] at h
        simp only [Option.some.injEq,Prod.mk.injEq] at h
        obtain ⟨rfl,rfl⟩ := h
        exact .unsent hloc hboth.1 hboth.2
    · contradiction
  · next site env hloc =>
    obtain ⟨⟨noErr,worker⟩,hrecv,heq⟩ := Option.map_eq_some_iff.mp h
    obtain ⟨rfl,rfl⟩ := Prod.mk.inj heq
    apply Stepped.received hloc hrecv
    split
    · exact Or.inl rfl
    · exact Or.inr rfl
  · next site hloc =>
    simp only [Option.some.injEq,Prod.mk.injEq] at h
    obtain ⟨rfl,rfl⟩ := h
    apply Stepped.moved (by simp [hloc]) (by simp) _ (by simp)
    intro hclosing
    rw [hloc]
    cases site <;> exact Or.inl hclosing
  · next site ticks hloc =>
    obtain ⟨⟨noErr,worker,out'⟩,htimers,heq⟩ := Option.map_eq_some_iff.mp h
    obtain ⟨rfl,rfl⟩ := Prod.mk.inj heq
    apply Stepped.timed hloc htimers
    split
    · exact Or.inl rfl
    · exact Or.inr rfl
  · next hloc =>
    simp only [Option.some.injEq,Prod.mk.injEq] at h
    obtain ⟨rfl,rfl⟩ := h
    have hclosing : s.loc.Closing := by rw [hloc]; trivial
    apply Stepped.moved (by simp [hloc]) _ (fun _ => Or.inl hclosing)
    · intro hret
      refine ⟨hclosing,?_⟩
      cases hpend : ops.pending s.worker
      · rfl
      · simp [hpend] at hret
    · split <;> simp
  · contradiction

theorem step_returned {s : Sending σ} {failed : Bool} (hret : s.loc = .returned failed)
    (e : SenderEvent) : s.step ops order e = none := by
  cases e <;> simp [step,hret]

theorem step_receiveAck {s s' : Sending σ} {env : AckEnv} {out : List Packet}
    (h : s.step ops order (.ack env) = some (s',out)) :
    ∃ noErr, ops.receiveAck env s.worker = some (noErr,s'.worker) := by
  unfold step at h
  cases hloc : s.loc with
  | drain site =>
    simp only [hloc] at h
    obtain ⟨⟨noErr,worker⟩,hrecv,heq⟩ := Option.map_eq_some_iff.mp h
    obtain ⟨rfl,-⟩ := Prod.mk.inj heq
    exact ⟨noErr,hrecv⟩
  | head => simp [hloc] at h
  | timers site => simp [hloc] at h
  | tail => simp [hloc] at h
  | returned failed => simp [hloc] at h

theorem step_recordSent {s s' : Sending σ} {tick : Tick} {out : List Packet}
    (h : s.step ops order (.send tick) = some (s',out)) (hloc : s'.loc ≠ .returned true) :
    ops.windowOpen s.worker = true ∧
      ∃ packet, s'.worker = ops.recordSent packet tick.sendTime s.worker := by
  unfold step at h
  cases hat : s.loc with
  | head =>
    simp only [hat] at h
    split at h
    · next hboth =>
      rw [Bool.and_eq_true] at hboth
      split at h
      · obtain ⟨rfl,-⟩ := Prod.mk.inj (Option.some.inj h)
        exact ⟨hboth.2,_,rfl⟩
      · obtain ⟨rfl,-⟩ := Prod.mk.inj (Option.some.inj h)
        exact absurd rfl hloc
    · contradiction
  | drain site => simp [hat] at h
  | timers site => simp [hat] at h
  | tail => simp [hat] at h
  | returned failed => simp [hat] at h

/-- A run of `send_message` whose steps satisfy `P`, whatever arrives and whatever is sent. -/
def RunsTo (ops : SenderOps σ) (order : ByteOrder) (P : Sending σ → SenderEvent → Prop) :
    Sending σ → Sending σ → Prop :=
  Relation.ReflTransGen fun s s' => ∃ e out, P s e ∧ s.step ops order e = some (s',out)

def run (ops : SenderOps σ) (order : ByteOrder) (s : Sending σ) :
    List SenderEvent → Option (Sending σ × List Packet)
  | [] => some (s,List.nil)
  | e :: es => do
    let (s,out) ← s.step ops order e
    let (s,more) ← run ops order s es
    some (s,out ++ more)

theorem run_runsTo {s s' : Sending σ} {es : List SenderEvent} {out : List Packet}
    (h : s.run ops order es = some (s',out)) : RunsTo ops order (fun _ _ => True) s s' := by
  induction es generalizing s out with
  | nil =>
    obtain ⟨rfl,-⟩ := Prod.mk.inj (Option.some.inj h)
    exact .refl
  | cons e es ih =>
    obtain ⟨⟨s₁,out₁⟩,hstep,h⟩ := Option.bind_eq_some_iff.mp h
    obtain ⟨⟨s₂,out₂⟩,hrun,h⟩ := Option.bind_eq_some_iff.mp h
    obtain ⟨rfl,-⟩ := Prod.mk.inj (Option.some.inj h)
    exact .head ⟨e,out₁,trivial,hstep⟩ (ih hrun)

theorem run_reaches {P : Sending σ → Prop} [DecidablePred P] {s : Sending σ}
    (es : List SenderEvent) (h : (s.run ops order es).any fun r => decide (P r.1)) :
    ∃ s', RunsTo ops order (fun _ _ => True) s s' ∧ P s' := by
  obtain ⟨⟨s',out⟩,hrun,hP⟩ := (Option.any_eq_true _ _).mp h
  exact ⟨s',run_runsTo hrun,of_decide_eq_true hP⟩

end Sending

/-- The operations of a worker preserve `I`, `receive_ack` when `P` allows it. -/
structure SenderOps.Keeps (ops : SenderOps σ) (P : Sending σ → SenderEvent → Prop) (I : σ → Prop) :
    Prop where
  send : ∀ {w} (packet : Packet) (t : Timeval), I w → ops.windowOpen w = true →
    I (ops.recordSent packet t w)
  ack : ∀ {s env noErr w}, P s (.ack env) → I s.worker →
    ops.receiveAck env s.worker = some (noErr,w) → I w
  timers : ∀ {w ticks noErr w' out}, I w → ops.updateTimers ticks w = some (noErr,w',out) → I w'

theorem SenderOps.Keeps.run {ops : SenderOps σ} {order : ByteOrder}
    {P : Sending σ → SenderEvent → Prop} {I : σ → Prop} (hI : ops.Keeps P I) {s s' : Sending σ}
    (hs : I s.worker) (h : Sending.RunsTo ops order P s s') : I s'.worker := by
  induction h with
  | refl => exact hs
  | tail _ hstep ih =>
    obtain ⟨e,out,hP,hstep⟩ := hstep
    cases Sending.step_stepped hstep with
    | moved => exact ih
    | sent hloc hnext hopen => exact hI.send _ _ ih hopen
    | unsent => exact ih
    | received hloc hrecv => exact hI.ack hP ih hrecv
    | timed hloc htimers => exact hI.timers ih htimers

theorem Sending.runsTo_of_runWhere {ops : SenderOps σ} {order : ByteOrder}
    {accept : κ → Packet → Option (κ × List AckPacket)} {P : Sending σ → SenderEvent → Prop}
    {x y : LinkState (Sending σ) κ Packet AckPacket}
    (h : (link ops order accept).RunWhere P x y) : RunsTo ops order P x.server y.server := by
  induction h with
  | refl => exact .refl
  | tail _ hstep ih =>
    rcases hstep with hmove | hfault
    · cases hmove with
      | serve hP _ hs => exact ih.tail ⟨_,_,hP,hs⟩
      | read hP _ hs => exact ih.tail ⟨_,_,hP,hs⟩
      | accept _ => exact ih
    · cases hfault <;> exact ih

/-- The operations of a worker preserve `I`, number packets consecutively and put only packets of
the file on the wire, as long as the acknowledgements they read are `legit`. -/
structure SenderOps.Sound (ops : SenderOps σ) (order : ByteOrder) (file : List UInt8)
    (I : σ → Prop) (legit : AckPacket → Prop) : Prop where
  send : ∀ {w} (t : Timeval), I w → ops.windowOpen w = true →
    (ops.seqNo w).toNat ≤ numSegments file →
    let w' := ops.recordSent (filePacket order file (ops.seqNo w)) t w
    I w' ∧ (ops.seqNo w').toNat = (ops.seqNo w).toNat + 1
  ack : ∀ {w env noErr w'}, I w → (∀ a, env.recv = .ok a → legit a) →
    ops.receiveAck env w = some (noErr,w') → I w' ∧ ops.seqNo w' = ops.seqNo w
  timers : ∀ {w ticks noErr w' out}, I w → ops.updateTimers ticks w = some (noErr,w',out) →
    I w' ∧ ops.seqNo w' = ops.seqNo w ∧
      ∀ d ∈ out, ∃ i, d = filePacket order file i ∧ i.toNat < (ops.seqNo w).toNat

namespace Sending

variable {ops : SenderOps σ} {order : ByteOrder} {file : List UInt8}

/-- The loop has fed the worker exactly the segments it has numbered. -/
structure Good (ops : SenderOps σ) (file : List UInt8) (I : σ → Prop) (s : Sending σ) : Prop where
  worker : I s.worker
  seqNo_le : (ops.seqNo s.worker).toNat ≤ numSegments file + 1
  feeder : s.loc ≠ .returned true → s.feeder = feederAt file (ops.seqNo s.worker).toNat
  closing : s.loc.Closing → (ops.seqNo s.worker).toNat = numSegments file + 1
  done : s.loc = .returned false → ops.pending s.worker = false

theorem Good.hasNext {I : σ → Prop} {s : Sending σ} (h : s.Good ops file I)
    (hloc : s.loc ≠ .returned true) :
    s.feeder.hasNext = true ↔ (ops.seqNo s.worker).toNat ≤ numSegments file := by
  rw [h.feeder hloc,hasNext_feederAt]

variable (order) in
theorem Good.next {I : σ → Prop} {s : Sending σ} (h : s.Good ops file I)
    (hloc : s.loc ≠ .returned true) (hnext : s.feeder.hasNext = true) :
    (ops.seqNo s.worker).toNat ≤ numSegments file ∧
      s.nextPacket ops order = filePacket order file (ops.seqNo s.worker) ∧
      s.feeder.getNextDataSegment.2 = feederAt file ((ops.seqNo s.worker).toNat + 1) := by
  have hle := (h.hasNext hloc).mp hnext
  rw [nextPacket,h.feeder hloc,getNextDataSegment_feederAt file hle]
  exact ⟨hle,rfl,rfl⟩

theorem Good.update {I : σ → Prop} {s : Sending σ} (h : s.Good ops file I) {worker : σ} {loc : Loc}
    (hI : I worker) (hseq : ops.seqNo worker = ops.seqNo s.worker) (hloc : s.loc ≠ .returned true)
    (hne : loc ≠ .returned false) (hclosing : loc.Closing → s.loc.Closing) :
    Good ops file I { s with worker := worker, loc := loc } where
  worker := hI
  seqNo_le := by
    rw [hseq]
    exact h.seqNo_le
  feeder := fun _ => by
    rw [hseq]
    exact h.feeder hloc
  closing := fun hc => by
    rw [hseq]
    exact h.closing (hclosing hc)
  done := fun hd => absurd hd hne

structure Kept (ops : SenderOps σ) (order : ByteOrder) (file : List UInt8) (I : σ → Prop)
    (s s' : Sending σ) (out : List Packet) : Prop where
  good : s'.Good ops file I
  seqNo_le : (ops.seqNo s.worker).toNat ≤ (ops.seqNo s'.worker).toNat
  out : ∀ d ∈ out, ∃ i, d = filePacket order file i ∧ i.toNat < (ops.seqNo s'.worker).toNat

theorem step_kept {I : σ → Prop} {legit : AckPacket → Prop} (hops : ops.Sound order file I legit)
    {s s' : Sending σ} {e : SenderEvent} {out : List Packet} (hs : s.Good ops file I)
    (hlegit : ∀ env a, e = .ack env → env.recv = .ok a → legit a)
    (h : s.step ops order e = some (s',out)) : Kept ops order file I s s' out := by
  cases step_stepped h with
  | moved hloc hloc' hclosing hdone =>
    refine ⟨⟨hs.worker,hs.seqNo_le,fun _ => hs.feeder hloc,?_,fun hd => (hdone hd).2⟩,
      le_refl _,by simp⟩
    intro hc
    rcases hclosing hc with hc | hnext
    · exact hs.closing hc
    · have hle := hs.seqNo_le
      have hgt : ¬(ops.seqNo s.worker).toNat ≤ numSegments file := by
        rw [← hs.hasNext hloc,hnext]
        simp
      change (ops.seqNo s.worker).toNat = _
      omega
  | @sent tick hloc hnext hopen =>
    obtain ⟨hle,hpacket,hfeeder⟩ := hs.next order (by simp [hloc]) hnext
    obtain ⟨hI,hseq⟩ := hops.send tick.sendTime hs.worker hopen hle
    rw [hpacket,hfeeder]
    refine ⟨⟨hI,?_,fun _ => congrArg (feederAt file) hseq.symm,fun hc => hc.elim,nofun⟩,?_,?_⟩
    · exact hseq.le.trans (Nat.succ_le_succ hle)
    · exact (Nat.le_succ _).trans hseq.ge
    · intro d hd
      exact ⟨_,Tick.mem_transmit hd,(Nat.lt_succ_self _).trans_le hseq.ge⟩
  | unsent hloc =>
    exact ⟨⟨hs.worker,hs.seqNo_le,fun hne => absurd rfl hne,fun hc => hc.elim,nofun⟩,le_refl _,
      by simp⟩
  | @received env noErr worker site loc hloc hrecv hl =>
    obtain ⟨hI,hseq⟩ := hops.ack hs.worker (fun a ha => hlegit env a rfl ha) hrecv
    refine ⟨hs.update hI hseq (by simp [hloc]) ?_ ?_,by rw [hseq],by simp⟩
    · rcases hl with rfl | rfl <;> simp
    · rw [hloc]
      rcases hl with rfl | rfl <;> cases site <;> exact id
  | @timed ticks noErr worker out site loc hloc htimers hl =>
    obtain ⟨hI,hseq,hout⟩ := hops.timers hs.worker htimers
    refine ⟨hs.update hI hseq (by simp [hloc]) ?_ ?_,by rw [hseq],by rw [hseq]; exact hout⟩
    · rcases hl with rfl | rfl
      · cases site <;> simp [Site.next]
      · simp
    · rw [hloc]
      rcases hl with rfl | rfl
      · cases site <;> exact id
      · exact False.elim

theorem good_runsTo {I : σ → Prop} {legit : AckPacket → Prop} (hops : ops.Sound order file I legit)
    {P : Sending σ → SenderEvent → Prop}
    (hlegit : ∀ s env a, P s (.ack env) → env.recv = .ok a → legit a) {s s' : Sending σ}
    (hs : s.Good ops file I) (hrun : RunsTo ops order P s s') : s'.Good ops file I := by
  induction hrun with
  | refl => exact hs
  | tail _ hstep ih =>
    obtain ⟨e,out,hP,hstep⟩ := hstep
    refine (step_kept hops ih ?_ hstep).good
    rintro env a rfl ha
    exact hlegit _ env a hP ha

theorem start_good {I : σ → Prop} {w : σ} (hI : I w) (hw : (ops.seqNo w).toNat = 0) :
    (start w file).Good ops file I :=
  ⟨hI,hw.le.trans (Nat.zero_le _),fun _ => congrArg (feederAt file) hw.symm,False.elim,nofun⟩

end Sending

/-- A relation between a worker and its client that their operations preserve. A client answers
with the numbers of packets it has got. -/
structure SenderOps.Safe (ops : SenderOps σ) (order : ByteOrder) (file : List UInt8)
    (accept : κ → Packet → Option (κ × List AckPacket)) (Rel : σ → κ → Prop)
    (got : κ → UInt32 → Prop) : Prop where
  sound : ∀ c, ops.Sound order file (Rel · c) fun a => ∃ i, a = createAckPacket i ∧ got c i
  accept : ∀ {w c c' i out}, Rel w c → i.toNat < (ops.seqNo w).toNat →
    accept c (filePacket order file i) = some (c',out) →
    Rel w c' ∧ (∀ j, got c j → got c' j) ∧ ∀ a ∈ out, ∃ j, a = createAckPacket j ∧ got c' j

namespace Sending

variable {ops : SenderOps σ} {order : ByteOrder} {file : List UInt8}
  {accept : κ → Packet → Option (κ × List AckPacket)} {Rel : σ → κ → Prop} {got : κ → UInt32 → Prop}

/-- Packets in flight are numbered packets of the file, and acknowledgements in flight name
packets the client has got. -/
def safe (ops : SenderOps σ) (order : ByteOrder) (file : List UInt8) (Rel : σ → κ → Prop)
    (got : κ → UInt32 → Prop) : Link.Claim (Sending σ) κ Packet AckPacket where
  parties s c := s.Good ops file (Rel · c)
  data s _ d := ∃ i, d = filePacket order file i ∧ i.toNat < (ops.seqNo s.worker).toNat
  ack _ c a := ∃ i, a = createAckPacket i ∧ got c i

theorem reads_ack {env : AckEnv} {a : AckPacket} (h : env.recv = .ok a) :
    (link ops order accept).reads (.ack env) = some a := by
  simp [link,h]

theorem safe_inductive (h : ops.Safe order file accept Rel got) :
    (link ops order accept).Inductive (safe ops order file Rel got) where
  serve := by
    intro s s' c e out hs hack hstep
    have hkept := step_kept (h.sound c) hs
      (fun env a he ha => hack a (by rw [he]; exact reads_ack ha)) hstep
    refine ⟨⟨hkept.good,?_,fun _ ha => ha⟩,hkept.out⟩
    intro d hd
    obtain ⟨i,rfl,hi⟩ := hd
    exact ⟨i,rfl,hi.trans_le hkept.seqNo_le⟩
  accept := by
    intro s c c' d out hs hd hacc
    obtain ⟨i,rfl,hi⟩ := hd
    obtain ⟨hRel,hgot,hout⟩ := h.accept hs.worker hi hacc
    refine ⟨⟨⟨hRel,hs.seqNo_le,hs.feeder,hs.closing,hs.done⟩,fun _ hd => hd,?_⟩,hout⟩
    intro a ha
    obtain ⟨j,rfl,hj⟩ := ha
    exact ⟨j,rfl,hgot j hj⟩

theorem safe_run (h : ops.Safe order file accept Rel got) {w : σ} {c : κ} (hRel : Rel w c)
    (hw : (ops.seqNo w).toNat = 0) {x : LinkState (Sending σ) κ Packet AckPacket}
    (hrun : (link ops order accept).Run ⟨start w file,c,0,0⟩ x) :
    (safe ops order file Rel got).Holds x := by
  have hstart : (start w file).Good ops file (Rel · c) := start_good hRel hw
  have hholds : (safe ops order file Rel got).Holds ⟨start w file,c,0,0⟩ :=
    ⟨hstart,fun d hd => absurd hd (Multiset.notMem_zero d),
      fun a ha => absurd ha (Multiset.notMem_zero a)⟩
  exact (safe_inductive h).run hholds hrun

end Sending

end ReliableTransfer
