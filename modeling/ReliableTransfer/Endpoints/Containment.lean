import ReliableTransfer.Endpoints.Projection
import ReliableTransfer.Endpoints.Validation

/-!
# Nobody leaves its buffers

`receive_ack` erases what an acknowledgement names, and a number that was never sent makes it erase
what is not there. Clients that acknowledge the packet they have just got never name such a number.
A stop-and-wait client answers whoever sends to it with its last acknowledgement.
-/

namespace ReliableTransfer

open Framework

variable {ι : Type}

/-- An operation that is about to run is not defined on the containers. -/
def Sending.Leaves {σ : Type} (ops : SenderOps σ) (s : Sending σ) : SenderEvent → Prop
  | .ack env => (∃ site, s.loc = .drain site) ∧ ops.receiveAck env s.worker = none
  | .timers ticks => (∃ site, s.loc = .timers site) ∧ ops.updateTimers ticks s.worker = none
  | _ => False

namespace ServerWorker

/-- Stop-and-wait has no container. -/
def Leaves : ServerWorker → WorkerEvent → Prop
  | .goBackN window s,.windowed e => s.Leaves (GoBackServer.ops window) e
  | .selectiveRepeat s,.windowed e => s.Leaves (RepeatServer.ops SelectiveRepeat.hooks) e
  | .selectiveRepeatCC s,.windowed e => s.Leaves (RepeatServer.ops SelectiveRepeatCC.hooks) e
  | _,_ => False

/-- `receive_ack` of the selective-repeat senders begins with `front()` of `sendOrder`, empty or
not, and that of `SelectiveRepeatServer` reads `it->first` after it has erased `it`. -/
def Dangles : ServerWorker → WorkerEvent → Prop
  | .selectiveRepeat s,.windowed (.ack env) => (∃ site, s.loc = .drain site) ∧
    (s.worker.sendOrder.values = List.nil ∨ ∃ a, s.worker.Takes SelectiveRepeat.hooks env a)
  | .selectiveRepeatCC s,.windowed (.ack _) => (∃ site, s.loc = .drain site) ∧
    s.worker.sendOrder.values = List.nil
  | _,_ => False

/-- The code that is about to run leaves a container. -/
def Overruns (w : ServerWorker) (e : WorkerEvent) : Prop := w.Leaves e ∨ w.Dangles e

def Sent : ServerWorker → UInt32 → Prop
  | .stopWait s,n => n.toNat ≤ s.seqNo.toNat
  | .goBackN _ s,n => n.toNat < s.worker.seqNo.toNat
  | .selectiveRepeat s,n => n.toNat < s.worker.seqNo.toNat
  | .selectiveRepeatCC s,n => n.toNat < s.worker.seqNo.toNat

end ServerWorker

/-- The code of the client that is about to run copies past a buffer. -/
def Client.Overruns (order : ByteOrder) (c : Client ι) (e : ClientEvent ι) : Prop :=
  match c.phase,e with
  | .asking _ _,.request _ => Client.request order c.filename = none
  | .receiving worker (some d),.receivePeeked buff wouldBlock =>
    worker.returned = false ∧ worker.pass order buff wouldBlock (some d) = none
  | .receiving worker none,.receive buff wouldBlock arrival =>
    worker.returned = false ∧ worker.pass order buff wouldBlock arrival = none
  | _,_ => False

/-- The process, and with the listener the child it starts, leaves a buffer or a container. -/
def Session.Overruns (order : ByteOrder) : Process ι → SessionEvent ι → Prop
  | .listener server true,.listen buff arrival port => listen server buff arrival port = none
  | .child _ w,.work e buff wouldBlock arrival => Delivered e buff wouldBlock arrival ∧ w.Overruns e
  | .client c,.client e => c.Overruns order e
  | _,_ => False

def Session.Dangles : Process ι → SessionEvent ι → Prop
  | .child _ w,.work e _ _ _ => w.Dangles e
  | _,_ => False

namespace ServerWorker

variable {order : ByteOrder} {file : List UInt8} {w w' : ServerWorker} {e : WorkerEvent}
  {out : List Packet}

theorem goBackN_contained {window : UInt32} {s : GoBackServer}
    (hs : s.Bookkept order file window) {env : AckEnv}
    (hack : ∀ a, env.recv = .ok a → verifyChecksumAck a = true → a.ackno.toNat < s.seqNo.toNat) :
    s.receiveAck window env ≠ none := by
  cases hanswer : env.answer s.sendTime with
  | timeOut => simp [GoBackServer.receiveAck,hanswer]
  | error => simp [GoBackServer.receiveAck,hanswer]
  | ok a =>
    rw [Ne,hs.receiveAck_none_iff hanswer]
    rintro ⟨hacc,hsent⟩
    exact hsent (UInt32.lt_iff_toNat_lt.mpr (hack a (AckEnv.answer_ok hanswer) hacc.1))

theorem repeat_contained {γ : Type} {h : RepeatHooks γ} {s : RepeatServer γ}
    (hs : s.InStep order file) {env : AckEnv}
    (hack : ∀ a, env.recv = .ok a → verifyChecksumAck a = true → a.ackno.toNat < s.seqNo.toNat) :
    s.receiveAck h env ≠ none := by
  by_cases hsum : ∀ a, env.recv = .ok a → verifyChecksumAck a = true
  · obtain ⟨noErr,s',hrun,-⟩ := hs.receiveAck h env fun a ha _ => hack a ha (hsum a ha)
    simp [hrun]
  · push Not at hsum
    obtain ⟨a,ha,hbad⟩ := hsum
    have hanswer (t : Timeval) : env.answer t = .timeOut ∨ env.answer t = .ok a := by
      unfold AckEnv.answer
      split
      · exact Or.inr ha
      · exact Or.inl rfl
    rcases hanswer (s.seqnumsSent.getD (s.front env.stray) ⟨0,0⟩) with hanswer | hanswer <;>
      simp [RepeatServer.receiveAck,hanswer,hbad]

/-- A server that gets undamaged acknowledgements only of what it has sent finds in its containers
what it looks for. -/
theorem Good.contained (hw : w.Good order file)
    (hack : ∀ a, e.reads = some a → verifyChecksumAck a = true → w.Sent a.ackno) :
    ¬w.Leaves e := by
  have hread {env : AckEnv} {a : AckPacket} (ha : env.recv = .ok a) :
      (WorkerEvent.windowed (.ack env)).reads = some a := by
    simp [WorkerEvent.reads,WorkerEvent.recv,ha]
  cases e with
  | stopWait e => cases w <;> exact id
  | windowed e =>
    cases e with
    | ack env =>
      cases w with
      | stopWait s => exact id
      | goBackN window s =>
        exact fun h => goBackN_contained (Sending.Good.worker hw) (fun a ha => hack a (hread ha)) h.2
      | selectiveRepeat s =>
        exact fun h => repeat_contained (Sending.Good.worker hw) (fun a ha => hack a (hread ha)) h.2
      | selectiveRepeatCC s =>
        exact fun h => repeat_contained (Sending.Good.worker hw) (fun a ha => hack a (hread ha)) h.2
    | timers ticks =>
      have hdefined {γ : Type} {h : RepeatHooks γ} {s : RepeatServer γ} (hs : s.InStep order file) :
          (RepeatServer.ops h).updateTimers ticks s ≠ none := by
        obtain ⟨noErr,s',out,hrun,-⟩ := hs.updateTimers h ticks
        simp [RepeatServer.ops,hrun]
      cases w with
      | stopWait s => exact id
      | goBackN window s => exact fun h => absurd h.2 (by simp [GoBackServer.ops])
      | selectiveRepeat s => exact fun h => hdefined (Sending.Good.worker hw) h.2
      | selectiveRepeatCC s => exact fun h => hdefined (Sending.Good.worker hw) h.2
    | loop => cases w <;> exact id
    | send tick => cases w <;> exact id
    | idle => cases w <;> exact id

theorem sent_of_kept {σ : Type} {ops : SenderOps σ} {I : σ → Prop} {s s' : Sending σ}
    (hkept : Sending.Kept ops order file I s s' out) :
    (∀ n : UInt32, n.toNat < (ops.seqNo s.worker).toNat → n.toNat < (ops.seqNo s'.worker).toNat) ∧
      ∀ d ∈ out, d.seqno.toNat < (ops.seqNo s'.worker).toNat := by
  refine ⟨fun n hn => hn.trans_le hkept.seqNo_le,fun d hd => ?_⟩
  obtain ⟨i,rfl,hi⟩ := hkept.out d hd
  exact hi

theorem Good.step_sent (hw : w.Good order file) (hfile : numSegments file + 1 < 2^32)
    (h : w.step order e = some (w',out)) :
    (∀ n, w.Sent n → w'.Sent n) ∧ ∀ d ∈ out, w'.Sent d.seqno := by
  cases w with
  | stopWait s =>
    cases e with
    | stopWait e =>
      obtain ⟨⟨s',out'⟩,hstep,heq⟩ := Option.map_eq_some_iff.mp h
      obtain ⟨rfl,rfl⟩ := Prod.mk.inj heq
      obtain ⟨-,hout,hseq⟩ := StopWaitServer.Good.step hw hfile hstep
      have hle : s.seqNo.toNat ≤ s'.seqNo.toNat := by
        rcases hseq with heq | ⟨hsucc,-⟩
        · rw [heq]
        · omega
      refine ⟨fun n hn => Nat.le_trans hn hle,fun d hd => ?_⟩
      rw [(hout d hd).1]
      exact hle
    | windowed e => contradiction
  | goBackN window s =>
    cases e with
    | stopWait e => contradiction
    | windowed e =>
      obtain ⟨⟨s',out'⟩,hstep,heq⟩ := Option.map_eq_some_iff.mp h
      obtain ⟨rfl,rfl⟩ := Prod.mk.inj heq
      exact sent_of_kept (Sending.step_kept (GoBackServer.sound_bookkept order file window) hw
        (fun _ _ _ _ => trivial) hstep)
  | selectiveRepeat s =>
    cases e with
    | stopWait e => contradiction
    | windowed e =>
      obtain ⟨⟨s',out'⟩,hstep,heq⟩ := Option.map_eq_some_iff.mp h
      obtain ⟨rfl,rfl⟩ := Prod.mk.inj heq
      exact sent_of_kept (Sending.step_kept (RepeatServer.sound_inStep order file _) hw
        (fun _ _ _ _ => trivial) hstep)
  | selectiveRepeatCC s =>
    cases e with
    | stopWait e => contradiction
    | windowed e =>
      obtain ⟨⟨s',out'⟩,hstep,heq⟩ := Option.map_eq_some_iff.mp h
      obtain ⟨rfl,rfl⟩ := Prod.mk.inj heq
      exact sent_of_kept (Sending.step_kept (RepeatServer.sound_inStep order file _) hw
        (fun _ _ _ _ => trivial) hstep)

end ServerWorker

section Received

variable {order : ByteOrder} {pack : Packet} {acks : List AckPacket} {a : AckPacket}

theorem GoBackClient.acks_received {c c' : GoBackClient}
    (h : c.recvMessage order (.ok pack) = some (c',acks)) (ha : a ∈ acks) :
    a = createAckPacket pack.seqno ∧ verifyChecksum order pack = true := by
  simp only [recvMessage] at h
  split at h
  · next htest =>
    rw [Bool.and_eq_true] at htest
    split at h
    · obtain ⟨data,-,heq⟩ := Option.bind_eq_some_iff.mp h
      obtain ⟨-,rfl⟩ := Prod.mk.inj (Option.some.inj heq)
      exact ⟨List.mem_singleton.mp ha,htest.1⟩
    · obtain ⟨-,rfl⟩ := Prod.mk.inj (Option.some.inj h)
      exact ⟨List.mem_singleton.mp ha,htest.1⟩
  · obtain ⟨-,rfl⟩ := Prod.mk.inj (Option.some.inj h)
    simp at ha

theorem RepeatClient.acks_received {window : UInt32} {room : RepeatClient → Bool}
    {c c' : RepeatClient} (h : c.recvMessage order window room (.ok pack) = some (c',acks))
    (ha : a ∈ acks) : a = createAckPacket pack.seqno ∧ verifyChecksum order pack = true := by
  simp only [recvMessage] at h
  split at h
  · next hsum =>
    split at h
    · obtain ⟨-,rfl⟩ := Prod.mk.inj (Option.some.inj h)
      exact ⟨List.mem_singleton.mp ha,hsum⟩
    · split at h
      · split at h
        · obtain ⟨data,-,heq⟩ := Option.bind_eq_some_iff.mp h
          obtain ⟨-,rfl⟩ := Prod.mk.inj (Option.some.inj heq)
          exact ⟨List.mem_singleton.mp ha,hsum⟩
        · obtain ⟨-,rfl⟩ := Prod.mk.inj (Option.some.inj h)
          exact ⟨List.mem_singleton.mp ha,hsum⟩
      · obtain ⟨-,rfl⟩ := Prod.mk.inj (Option.some.inj h)
        simp at ha
  · obtain ⟨-,rfl⟩ := Prod.mk.inj (Option.some.inj h)
    simp at ha

theorem ClientWorker.acks_received {k k' : ClientWorker} (htype : k.type ≠ .waitAndStop)
    (h : k.accept order pack = some (k',acks)) (ha : a ∈ acks) :
    a = createAckPacket pack.seqno ∧ verifyChecksum order pack = true := by
  rw [accept] at h
  split at h
  · contradiction
  · cases k with
    | stopWait c => exact absurd rfl htype
    | goBackN c =>
      obtain ⟨⟨c',acks'⟩,hrun,heq⟩ := Option.map_eq_some_iff.mp h
      obtain ⟨-,rfl⟩ := Prod.mk.inj heq
      exact GoBackClient.acks_received hrun ha
    | selectiveRepeat window c =>
      obtain ⟨⟨c',acks'⟩,hrun,heq⟩ := Option.map_eq_some_iff.mp h
      obtain ⟨-,rfl⟩ := Prod.mk.inj heq
      exact RepeatClient.acks_received hrun ha
    | selectiveRepeatCC window c =>
      obtain ⟨⟨c',acks'⟩,hrun,heq⟩ := Option.map_eq_some_iff.mp h
      obtain ⟨-,rfl⟩ := Prod.mk.inj heq
      exact RepeatClient.acks_received hrun ha

end Received

namespace Deployment

variable (d : Deployment ι)

/-- What passes between a child and its client is about numbers the child has given out, unless
the child runs stop-and-wait. -/
inductive Backs (P : ι → Option (Process ι)) : Datagram ι (List UInt8) → Prop
  | request {i pack} : Backs P ⟨i,d.address,packetBytes pack⟩
  | data {p i w pack} : P p = some (.child i w) → (d.server.type ≠ .waitAndStop →
      verifyChecksum d.order pack = true → w.Sent pack.seqno) → Backs P ⟨p,i,packetBytes pack⟩
  | ack {p i w pack} : P p = some (.child i w) → (d.server.type ≠ .waitAndStop →
      verifyChecksumAck pack = true → w.Sent pack.ackno) → Backs P ⟨i,p,ackBytes pack⟩

/-- The client at `i` answers with what it has just got, and the name it asks for fits into a
packet. -/
structure Suits (P : ι → Option (Process ι)) (i : ι) (c : Client ι) : Prop where
  type : d.server.type ≠ .waitAndStop → c.type ≠ .waitAndStop
  request : Client.request d.order c.filename ≠ none
  peeked : ∀ worker m, c.phase = .receiving worker (some m) → d.Backs P ⟨m.1,i,m.2⟩

def backing : Network.Claim ι (Process ι) (List UInt8) where
  party P i s := ∀ c, s = .client c → d.Suits P i c
  datagram := d.Backs

def Keeps (s t : Process ι) : Prop :=
  ∀ i w, s = .child i w → ∃ w', t = .child i w' ∧ ∀ n, w.Sent n → w'.Sent n

variable {d} {P Q : ι → Option (Process ι)}

theorem later_sent (h : Network.Later Keeps P Q) {p i : ι} {w : ServerWorker}
    (hp : P p = some (.child i w)) :
    ∃ w', Q p = some (.child i w') ∧ ∀ n, w.Sent n → w'.Sent n := by
  obtain ⟨t,ht,hkeeps⟩ := h p _ hp
  obtain ⟨w',rfl,hsent⟩ := hkeeps i w rfl
  exact ⟨w',ht,hsent⟩

theorem Backs.later (h : Network.Later Keeps P Q) {m : Datagram ι (List UInt8)}
    (hm : d.Backs P m) : d.Backs Q m := by
  cases hm with
  | request => exact .request
  | data hp hsent =>
    obtain ⟨w',hp',hlater⟩ := later_sent h hp
    exact .data hp' fun htype hsum => hlater _ (hsent htype hsum)
  | ack hp hsent =>
    obtain ⟨w',hp',hlater⟩ := later_sent h hp
    exact .ack hp' fun htype hsum => hlater _ (hsent htype hsum)

theorem Backs.garbled {m m' : Datagram ι (List UInt8)} (h : d.Backs P m)
    (halters : Session.Garbled d.order d.address m m') : d.Backs P m' := by
  cases halters with
  | @data src dst pack pack' hne hsum =>
    generalize hbytes : packetBytes pack = bytes at h
    cases h with
    | request => exact absurd rfl hne
    | data hp => exact .data hp fun _ hsum' => by simp [hsum] at hsum'
    | ack =>
      have hlen := congrArg List.length hbytes
      simp [packetBytes_length,ackBytes_length] at hlen
  | @ack src dst pack pack' hne hsum =>
    generalize hbytes : ackBytes pack = bytes at h
    cases h with
    | request => exact absurd rfl hne
    | data =>
      have hlen := congrArg List.length hbytes
      simp [packetBytes_length,ackBytes_length] at hlen
    | ack hp => exact .ack hp fun _ hsum' => by simp [hsum] at hsum'

theorem Backs.to_client {src i : ι} {pack : Packet} (h : d.Backs P ⟨src,i,packetBytes pack⟩)
    (hne : i ≠ d.address) : ∃ w, P src = some (.child i w) ∧ (d.server.type ≠ .waitAndStop →
      verifyChecksum d.order pack = true → w.Sent pack.seqno) := by
  generalize hbytes : packetBytes pack = bytes at h
  cases h with
  | request => exact absurd rfl hne
  | data hp hsent =>
    obtain rfl := packetBytes_injective hbytes
    exact ⟨_,hp,hsent⟩
  | ack =>
    have hlen := congrArg List.length hbytes
    simp [packetBytes_length,ackBytes_length] at hlen

theorem Backs.to_child {src p : ι} {a : AckPacket} (h : d.Backs P ⟨src,p,ackBytes a⟩)
    (hne : p ≠ d.address) : ∃ w, P p = some (.child src w) ∧ (d.server.type ≠ .waitAndStop →
      verifyChecksumAck a = true → w.Sent a.ackno) := by
  generalize hbytes : ackBytes a = bytes at h
  cases h with
  | request => exact absurd rfl hne
  | data =>
    have hlen := congrArg List.length hbytes
    simp [packetBytes_length,ackBytes_length] at hlen
  | ack hp hsent =>
    obtain rfl := ackBytes_injective hbytes
    exact ⟨_,hp,hsent⟩

theorem client_backed {i : ι} {c c' : Client ι} {e : ClientEvent ι} {out : List (ι × List UInt8)}
    (hi : P i = some (.client c)) (hfits : d.Fits P i (.client c)) (hsuits : d.Suits P i c)
    (hread : ∀ m, Session.reads (.client e) = some m →
      d.Carries P ⟨m.1,i,m.2⟩ ∧ d.Backs P ⟨m.1,i,m.2⟩)
    (h : c.step d.order e = some (c',out)) (hlater : Network.Later Keeps P Q) :
    d.Suits Q i c' ∧ ∀ m ∈ out, d.Backs Q ⟨i,m.1,m.2⟩ := by
  have hstill (phase : ClientPhase ι)
      (hphase : ∀ worker m, phase = .receiving worker (some m) → d.Backs P ⟨m.1,i,m.2⟩) :
      d.Suits Q i { c with phase := phase } :=
    ⟨hsuits.type,hsuits.request,fun worker m heq => (hphase worker m heq).later hlater⟩
  cases Client.step_stepped h with
  | @requested ntry ntrys pack hphase hpack =>
    refine ⟨hstill _ (by simp),fun m hm => ?_⟩
    obtain rfl := List.mem_singleton.mp hm
    cases hfits with
    | client hne hserver =>
      rw [hserver]
      exact .request
  | unsent hphase hnext =>
    refine ⟨hstill _ ?_,by simp⟩
    rcases hnext with rfl | rfl <;> simp
  | silence hphase hnext =>
    refine ⟨hstill _ ?_,by simp⟩
    rcases hnext with ⟨-,rfl⟩ | rfl <;> simp
  | @peeked ntry src bytes hphase =>
    refine ⟨hstill _ fun worker m heq => ?_,by simp⟩
    obtain ⟨-,hm⟩ := ClientPhase.receiving.inj heq
    obtain rfl := Option.some.inj hm
    exact (hread (src,bytes) rfl).2
  | @passed worker worker' peeked e buff wouldBlock arrival out hphase he hpass =>
    refine ⟨hstill _ (by simp),fun x hx => ?_⟩
    have hcarries := passed_arrival hfits hphase (fun m hm => (hread m hm).1) he
    have hbacks : ∀ m ∈ arrival, d.Backs P ⟨m.1,i,m.2⟩ := by
      intro m hm
      rcases he with ⟨rfl,rfl⟩ | ⟨rfl,rfl⟩
      · obtain rfl := Option.mem_def.mp hm
        exact hsuits.peeked worker m hphase
      · exact (hread m hm).2
    cases hfits with
    | client hne hserver hall =>
      obtain ⟨htype,⟨file,hfile,-⟩,-⟩ := hall worker peeked hphase
      cases arrival with
      | none =>
        obtain ⟨-,rfl⟩ := ClientWorker.pass_nothing hpass
        simp at hx
      | some m =>
        obtain ⟨src,bytes⟩ := m
        obtain ⟨-,pack,rfl,-⟩ := arrival_genuine hne hi hfile (hcarries _ rfl)
        obtain ⟨w,hw,hsent⟩ := (hbacks _ rfl).to_client hne
        obtain ⟨w',hw',hkeeps⟩ := later_sent hlater hw
        obtain ⟨acks,haccept,rfl⟩ := ClientWorker.accept_of_pass hpass
        obtain ⟨a,ha,rfl⟩ := List.mem_map.mp hx
        refine .ack hw' fun hstop _ => hkeeps _ ?_
        have hworker : worker.type ≠ .waitAndStop := htype ▸ hsuits.type hstop
        obtain ⟨rfl,hsum⟩ := ClientWorker.acks_received hworker haccept ha
        exact hsent hstop hsum

theorem child_sent {p i : ι} {w w' : ServerWorker} {e : WorkerEvent} {out : List Packet}
    (hfits : d.Fits P p (.child i w)) (h : w.step d.order e = some (w',out)) :
    (∀ n, w.Sent n → w'.Sent n) ∧ ∀ pack ∈ out, w'.Sent pack.seqno := by
  cases hfits with
  | child hne hi hfile htype hgood => exact hgood.step_sent (requested_small hfile) h

variable (d) in
theorem backing_inductive : (Session.network d.order d.address).Inductive
    (fun s t => d.Grows s t ∧ Keeps s t) (d.claim.and d.backing) := by
  refine d.claim_inductive.and ?_ ?_ ?_ ?_ ?_ ?_ ?_
  · exact fun s i w heq => ⟨w,heq,fun _ hn => hn⟩
  · intro s t u h h' i w heq
    obtain ⟨w₁,heq₁,hsent₁⟩ := h i w heq
    obtain ⟨w₂,heq₂,hsent₂⟩ := h' i w₁ heq₁
    exact ⟨w₂,heq₂,fun n hn => hsent₂ n (hsent₁ n hn)⟩
  · intro P Q i s hlater hs c heq
    obtain ⟨htype,hrequest,hpeeked⟩ := hs c heq
    exact ⟨htype,hrequest,fun worker m hphase => (hpeeked worker m hphase).later hlater⟩
  · exact fun hlater hm => hm.later hlater
  · exact fun halters _ hm => hm.garbled halters
  · intro P p s e o h i w heq
    subst heq
    obtain ⟨e',buff,wouldBlock,arrival,w',out,-,-,hstep,rfl⟩ := Session.react_child h.reacts
    exact ⟨w',rfl,(child_sent h.party.1 hstep).1⟩
  · intro P Q j s e o h hlater hj hstarted
    cases s with
    | listener server running =>
      obtain ⟨buff,arrival,port,-,hlisten⟩ := Session.react_listener h.reacts
      rcases Session.listen_cases hlisten with ⟨running',rfl⟩ | ⟨_,_,_,_,_,-,-,-,rfl⟩
      · exact ⟨fun c heq => by simp at heq,by simp,by simp⟩
      · refine ⟨fun c heq => by simp at heq,by simp,?_⟩
        rintro q ⟨⟩ c heq
        simp at heq
    | child i w =>
      obtain ⟨e',buff,wouldBlock,arrival,w',out,rfl,-,hstep,rfl⟩ := Session.react_child h.reacts
      refine ⟨fun c heq => by simp at heq,fun m hm => ?_,by simp⟩
      obtain ⟨pack,hpack,rfl⟩ := List.mem_map.mp hm
      exact .data hj fun _ _ => (child_sent h.party.1 hstep).2 pack hpack
    | client c =>
      obtain ⟨e',c',out,rfl,hstep,rfl⟩ := Session.react_client_some h.reacts
      obtain ⟨hsuits,hout⟩ := client_backed h.sits h.party.1 (h.party.2 c rfl)
        (fun m hm => h.read m hm) hstep hlater
      refine ⟨fun c₁ heq => ?_,hout,by simp⟩
      obtain rfl := Process.client.inj heq
      exact hsuits

/-- All clients that a server with containers may have answer with what they have just got, and ask
for names that fit into a packet. -/
structure Civil (d : Deployment ι) : Prop where
  type : ∀ i c, d.clients i = some c → d.server.type ≠ .waitAndStop → c.type ≠ .waitAndStop
  request : ∀ i c, d.clients i = some c → Client.request d.order c.filename ≠ none

variable [DecidableEq ι] {x : NetworkState ι (Process ι) (List UInt8)}

theorem Civil.start (hd : d.Civil) : (d.claim.and d.backing).Holds d.start := by
  refine d.start_holds.and ⟨fun i s hs c heq => ?_,fun m hm => absurd hm (Multiset.notMem_zero m)⟩
  subst heq
  by_cases hi : i = d.address
  · simp [Deployment.start,hi] at hs
  · simp only [Deployment.start,hi,if_false] at hs
    obtain ⟨c',hc,heq⟩ := Option.map_eq_some_iff.mp hs
    obtain rfl := Process.client.inj heq
    refine ⟨hd.type i c' hc,hd.request i c' hc,fun worker m hphase => ?_⟩
    rw [(d.asking i c' hc).1] at hphase
    contradiction

omit [DecidableEq ι] in
theorem listen_defined {filename : ByteString} {pack : Packet}
    (hpack : Client.request d.order filename = some pack) (server : Server) (src : ι)
    (buff : Vector UInt8 520) (port : Option ι) :
    Session.listen server buff (some (src,packetBytes pack)) port ≠ none := by
  have hfits : pack.LenFits := by
    unfold Client.request createDataPacket at hpack
    split at hpack
    · next hsize =>
      obtain rfl := Option.some.inj hpack
      have hle : (UInt16.ofNat filename.length).toNat ≤ 512 := hsize.2
      have hlen : (8 + UInt16.ofNat filename.length).toNat =
          8 + (UInt16.ofNat filename.length).toNat := by
        rw [UInt16.toNat_add]
        exact Nat.mod_eq_of_lt (by
          change 8 + _ < 2^16
          omega)
      refine ⟨?_,?_⟩
      · exact (Nat.le_add_right _ _).trans_eq hlen.symm
      · exact hlen.trans_le (by omega)
    · contradiction
  obtain ⟨filePath,hfilePath⟩ := Option.isSome_iff_exists.mp ((filePath_isSome pack).mpr hfits)
  cases port with
  | none => simp [Session.listen,receivePacketOrExit_packetBytes]
  | some port =>
    simp [Session.listen,receivePacketOrExit_packetBytes,Server.readFile,hfilePath]

omit [DecidableEq ι] in
theorem child_contained (hx : (d.claim.and d.backing).Holds x) {j i : ι} {w : ServerWorker}
    {e : WorkerEvent} {buff : Vector UInt8 8} {wouldBlock : Bool}
    {arrival : Option (ι × List UInt8)} (hj : x.parties j = some (.child i w))
    (hread : ∀ m, arrival = some m → ⟨m.1,j,m.2⟩ ∈ x.flight)
    (hdelivered : Session.Delivered e buff wouldBlock arrival) : ¬w.Leaves e := by
  cases (hx.party j _ hj).1 with
  | child hne hi hfile htype hgood =>
    by_cases hstop : d.server.type = .waitAndStop
    · cases w with
      | stopWait s => exact id
      | goBackN window s => simp [hstop,ServerWorker.type] at htype
      | selectiveRepeat s => simp [hstop,ServerWorker.type] at htype
      | selectiveRepeatCC s => simp [hstop,ServerWorker.type] at htype
    · refine hgood.contained fun a ha hsum => ?_
      obtain ⟨m,hm,hrecv⟩ := delivered_ack hdelivered ha
      obtain ⟨hcarries,hbacks⟩ := hx.datagram _ (hread m hm)
      obtain ⟨-,_,_,a',-,-,hbytes,-⟩ := hcarries.to_child hne hj
      rw [hbytes,receiveAckPacket_ackBytes] at hrecv
      obtain rfl := Recv.ok.inj hrecv
      rw [hbytes] at hbacks
      obtain ⟨w',hw',hsent⟩ := hbacks.to_child hne
      obtain ⟨-,rfl⟩ := Process.child.inj (Option.some.inj (hj.symm.trans hw'))
      exact hsent hstop hsum

omit [DecidableEq ι] in
theorem client_contained (hx : (d.claim.and d.backing).Holds x) {i : ι} {c : Client ι}
    {e : ClientEvent ι} (hi : x.parties i = some (.client c))
    (hread : ∀ m, Session.reads (.client e) = some m → ⟨m.1,i,m.2⟩ ∈ x.flight) :
    ¬c.Overruns d.order e := by
  have hsuits := (hx.party i _ hi).2 c rfl
  cases (hx.party i _ hi).1 with
  | client hne hserver hall =>
    have hdefined {worker : ClientWorker} {peeked : Option (ι × List UInt8)}
        (hphase : c.phase = .receiving worker peeked) (hret : worker.returned = false)
        {arrival : Option (ι × List UInt8)}
        (harrival : ∀ m ∈ arrival, d.Carries x.parties ⟨m.1,i,m.2⟩) (buff : Vector UInt8 520)
        (wouldBlock : Bool) : worker.pass d.order buff wouldBlock arrival ≠ none := by
      obtain ⟨-,⟨file,hfile,hholds⟩,-⟩ := hall worker peeked hphase
      obtain ⟨worker',out,hpass⟩ := pass_defined hholds (requested_small hfile) hret
        (fun m hm => (arrival_genuine hne hi hfile (harrival m hm)).2) buff wouldBlock
      simp [hpass]
    unfold Client.Overruns
    split
    · exact hsuits.request
    · next worker m buff wouldBlock hphase =>
      rintro ⟨hret,hpass⟩
      exact hdefined hphase hret (hall worker (some m) hphase).2.2 buff wouldBlock hpass
    · next worker buff wouldBlock arrival hphase =>
      rintro ⟨hret,hpass⟩
      exact hdefined hphase hret (fun m hm => (hx.datagram _ (hread m hm)).1) buff wouldBlock hpass
    · exact id

omit [DecidableEq ι] in
theorem process_contained (hx : (d.claim.and d.backing).Holds x) {j : ι} {s : Process ι}
    {e : SessionEvent ι} (hj : x.parties j = some s)
    (hread : ∀ m, Session.reads e = some m → ⟨m.1,j,m.2⟩ ∈ x.flight)
    (hover : Session.Overruns d.order s e) : Session.Dangles s e := by
  unfold Session.Overruns at hover
  split at hover
  · next server buff arrival port =>
    exfalso
    cases arrival with
    | none =>
      unfold Session.listen at hover
      split at hover <;> simp_all [receivePacketOrExit]
    | some m =>
      obtain ⟨src,bytes⟩ := m
      obtain ⟨c,pack,-,hpack,rfl⟩ := (hx.datagram _ (hread _ rfl)).1.to_listener hj
      exact listen_defined hpack server src buff port hover
  · next i w e buff wouldBlock arrival =>
    obtain ⟨hdelivered,hleaves | hdangles⟩ := hover
    · exact absurd hleaves (child_contained hx hj hread hdelivered)
    · exact hdangles
  · exact absurd hover (client_contained hx hj hread)
  · exact hover.elim

variable (d) in
def Contained : Prop :=
  ∀ x, d.Reaches x → ∀ j s e, x.parties j = some s →
    (∀ m, Session.reads e = some m → ⟨m.1,j,m.2⟩ ∈ x.flight) → ¬Session.Overruns d.order s e

theorem Civil.overruns (hd : d.Civil) (hx : d.Reaches x) {j : ι} {s : Process ι}
    {e : SessionEvent ι} (hj : x.parties j = some s)
    (hread : ∀ m, Session.reads e = some m → ⟨m.1,j,m.2⟩ ∈ x.flight) :
    Session.Overruns d.order s e → Session.Dangles s e :=
  process_contained (d.backing_inductive.run hd.start hx).1 hj hread

omit [DecidableEq ι] in
theorem not_dangles (hx : (d.claim.and d.backing).Holds x) {j : ι} {s : Process ι}
    (hj : x.parties j = some s) (htype : d.server.type = .goBackN) (e : SessionEvent ι) :
    ¬Session.Dangles s e := by
  intro hdangles
  unfold Session.Dangles at hdangles
  split at hdangles
  · next i w e buff wouldBlock arrival =>
    cases (hx.party j _ hj).1 with
    | child _ _ _ hw =>
      cases w with
      | goBackN window s => exact hdangles
      | stopWait s => exact hdangles
      | selectiveRepeat s => simp [htype,ServerWorker.type] at hw
      | selectiveRepeatCC s => simp [htype,ServerWorker.type] at hw
  · exact hdangles

theorem Civil.contained (hd : d.Civil) (htype : d.server.type = .goBackN) : d.Contained := by
  intro x hx j s e hj hread hover
  exact not_dangles (d.backing_inductive.run hd.start hx).1 hj htype e (hd.overruns hx hj hread hover)

theorem single_civil : (single .goBackN .goBackN 2).Civil := by
  refine ⟨fun i c hc _ => ?_,fun i c hc => ?_⟩
  · simp [offering_client _ _ hc]
  · rw [offering_client _ _ hc,request_of_le _ (by decide)]
    simp

theorem single_answered : ∃ x s, (single .goBackN .goBackN 2).Reaches x ∧
    x.parties 2 = some (.child 1 (.goBackN 2 s)) ∧ ⟨1,2,ackBytes (createAckPacket 0)⟩ ∈ x.flight := by
  obtain ⟨y,hopened,hy⟩ := open_run (d := single .goBackN .goBackN 2)
    (x := (single .goBackN .goBackN 2).start) (i := 1) (p := 2)
    (c := ⟨.goBackN,[97],0,2,.asking 0 0⟩) rfl rfl rfl rfl (single_requested _ _ _) rfl
  have hrest : Sending.Resting [7] (fun n s =>
      GoBackServer.Bookkept .little [7] 2 s ∧ s.baseSeqNo = n ∧ s.seqNo = n) 0
      ⟨⟨0,0,List.nil,⟨0,0⟩⟩,feederAt [7] 0,.head⟩ :=
    ⟨⟨⟨le_refl _,Nat.zero_le _,rfl⟩,rfl,rfl⟩,rfl,Or.inl rfl⟩
  obtain ⟨k,hrun,-⟩ := hrest.taken (D := 0) (A := 0)
    (GoBackServer.steady .little (by decide) (by decide))
    (ClientWorker.start_expects .little .goBackN single_modest) (by decide) (by decide)
  obtain ⟨x,hlifted,hx⟩ := hy.calmRun (by decide) ((Pair.goBackServer .little 2).calmRun hrun)
  obtain ⟨_,hp,rfl⟩ := hx.server
  refine ⟨x,_,hopened.run.trans hlifted.run,hp,?_⟩
  have hmem : createAckPacket 0 ∈ createAckPacket 0 ::ₘ (0 : Multiset AckPacket) :=
    Multiset.mem_cons_self _ _
  rw [hx.flight]
  exact Multiset.mem_add.mpr (Or.inr (mem_between.mpr (Or.inr ⟨_,hmem,rfl⟩)))

variable (d) in
/-- A request, data from a child to its client, or an answer. What the checksum does not reject is
a packet of the file that the client has asked for, or acknowledges a packet that the client has
got, and the child has given out its number. -/
inductive Traffic (P : ι → Option (Process ι)) : Datagram ι (List UInt8) → Prop
  | request {i c pack} : P i = some (.client c) →
      Client.request d.order c.filename = some pack → Traffic P ⟨i,d.address,packetBytes pack⟩
  | data {p i c w file pack} : P i = some (.client c) → P p = some (.child i w) →
      d.requested c.filename = some file →
      (verifyChecksum d.order pack = true → ∃ n : UInt32, pack = filePacket d.order file n ∧
        n.toNat ≤ numSegments file ∧ (d.server.type ≠ .waitAndStop → w.Sent n)) →
      Traffic P ⟨p,i,packetBytes pack⟩
  | ack {p i c w file pack} : P i = some (.client c) → P p = some (.child i w) →
      d.requested c.filename = some file →
      (verifyChecksumAck pack = true → ∃ n : UInt32, pack = createAckPacket n ∧
        c.Got file n ∧ (d.server.type ≠ .waitAndStop → w.Sent n)) →
      Traffic P ⟨i,p,ackBytes pack⟩

omit [DecidableEq ι] in
theorem client_apart (hx : (d.claim.and d.backing).Holds x) {i : ι} {c : Client ι}
    (hi : x.parties i = some (.client c)) : i ≠ d.address := by
  cases (hx.party i _ hi).1 with
  | client hne => exact hne

omit [DecidableEq ι] in
theorem child_apart (hx : (d.claim.and d.backing).Holds x) {p i : ι} {w : ServerWorker}
    (hp : x.parties p = some (.child i w)) : p ≠ d.address := by
  cases (hx.party p _ hp).1 with
  | child hne => exact hne

/-- Nothing that is in flight in a civil session and passes for undamaged is untrue. -/
theorem session_traffic (hd : d.Civil) (hx : d.Reaches x) {m : Datagram ι (List UInt8)}
    (hm : m ∈ x.flight) : d.Traffic x.parties m := by
  have hholds := (d.backing_inductive.run hd.start hx).1
  obtain ⟨hcarries,hbacks⟩ := hholds.datagram m hm
  cases hcarries with
  | request hc hpack => exact .request hc hpack
  | data hc hp hfile hgenuine =>
    obtain ⟨w,hw,hsent⟩ := hbacks.to_client (client_apart hholds hc)
    refine .data hc hw hfile fun hsum => ?_
    obtain ⟨n,hpack,hn⟩ := hgenuine hsum
    have hseq := congrArg Packet.seqno hpack
    rw [filePacket_seqno] at hseq
    exact ⟨n,hpack,hn,fun htype => hseq ▸ hsent htype hsum⟩
  | ack hc hp hfile hack =>
    obtain ⟨w,hw,hsent⟩ := hbacks.to_child (child_apart hholds hp)
    refine .ack hc hw hfile fun hsum => ?_
    obtain ⟨n,hpack,hgot⟩ := hack hsum
    have hseq := congrArg AckPacket.ackno hpack
    rw [createAckPacket_ackno] at hseq
    exact ⟨n,hpack,hgot n (Or.inl rfl),fun htype => hseq ▸ hsent htype hsum⟩

theorem session_traffic_single : ∃ x, (single .goBackN .goBackN 2).Reaches x ∧
    ⟨1,2,ackBytes (createAckPacket 0)⟩ ∈ x.flight ∧
    (single .goBackN .goBackN 2).Traffic x.parties ⟨1,2,ackBytes (createAckPacket 0)⟩ := by
  obtain ⟨x,s,hx,-,hack⟩ := single_answered
  exact ⟨x,hx,hack,session_traffic single_civil hx hack⟩

end Deployment

end ReliableTransfer
