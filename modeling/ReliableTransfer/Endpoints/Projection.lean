import ReliableTransfer.Endpoints.Transfers

/-!
# The two-party transfer inside a session

As long as a client has only one child, the two see nothing of the rest of the session: whatever
happens to them is a run of a server and a client worker over an unreliable link. If both ends run
the same protocol it is a run of that protocol.
-/

namespace ReliableTransfer

open Framework

variable {ι : Type}

namespace Client

/-- The worker of a client; one that has heard nothing is going to start it. -/
def worker (c : Client ι) : ClientWorker :=
  match c.phase with
  | .receiving worker _ => worker
  | _ => .start c.type c.recvWindow

/-- A datagram that was peeked at is still to be read. -/
def unread (i : ι) (c : Client ι) : Multiset (Datagram ι (List UInt8)) :=
  match c.phase with
  | .receiving _ (some x) => {⟨x.1,i,x.2⟩}
  | _ => 0

end Client

theorem ClientWorker.accept_of_pass {order : ByteOrder} {k k' : ClientWorker} {pack : Packet}
    {buff : Vector UInt8 520} {wouldBlock : Bool} {src : ι} {out : List (ι × List UInt8)}
    (h : k.pass order buff wouldBlock (some (src,packetBytes pack)) = some (k',out)) :
    ∃ acks, k.accept order pack = some (k',acks) ∧ out = acks.map fun a => (src,ackBytes a) := by
  unfold pass at h
  split at h
  · contradiction
  · next hret =>
    obtain ⟨⟨k₁,acks⟩,hrun,heq⟩ := Option.map_eq_some_iff.mp h
    rw [Option.map_some,Deployment.receivePacket_packetBytes] at hrun
    obtain ⟨rfl,rfl⟩ := Prod.mk.inj heq
    refine ⟨acks,by rw [accept,if_neg hret,hrun],?_⟩
    simp only [Option.map_some,Option.toList_some]
    rw [← List.map_eq_flatMap]

theorem ClientWorker.pass_nothing {order : ByteOrder} {k k' : ClientWorker}
    {buff : Vector UInt8 520} {wouldBlock : Bool} {out : List (ι × List UInt8)}
    (h : k.pass order buff wouldBlock none = some (k',out)) : k' = k ∧ out = List.nil := by
  unfold pass at h
  split at h
  · contradiction
  · obtain ⟨⟨k₁,acks⟩,hrun,heq⟩ := Option.map_eq_some_iff.mp h
    obtain ⟨rfl,rfl⟩ := Prod.mk.inj heq
    have hsame (recv : Recv Packet) (hrecv : ∀ packet, recv ≠ .ok packet)
        (hrun : k.recvMessage order recv = some (k₁,acks)) : k₁ = k := by
      cases recv with
      | ok packet => exact absurd rfl (hrecv packet)
      | timeOut => cases k <;> exact (Prod.mk.inj (Option.some.inj hrun)).1.symm
      | error => cases k <;> exact (Prod.mk.inj (Option.some.inj hrun)).1.symm
    refine ⟨hsame _ (Deployment.receivePacket_nothing buff wouldBlock) hrun,?_⟩
    simp

namespace Session

variable {order : ByteOrder} {e : SessionEvent ι} {o : Outcome ι (Process ι) (List UInt8)}

theorem react_listener {server : Server} {running : Bool}
    (h : react order (.listener server running) e = some o) : ∃ buff arrival port,
      e = .listen buff arrival port ∧ listen server buff arrival port = some o := by
  cases e with
  | listen buff arrival port =>
    cases running with
    | true => exact ⟨buff,arrival,port,rfl,h⟩
    | false => contradiction
  | work e' buff wouldBlock arrival => cases running <;> contradiction
  | client e' => cases running <;> contradiction

theorem react_child {i : ι} {w : ServerWorker} (h : react order (.child i w) e = some o) :
    ∃ e' buff wouldBlock arrival w' out, e = .work e' buff wouldBlock arrival ∧
      Delivered e' buff wouldBlock arrival ∧ w.step order e' = some (w',out) ∧
      o = ⟨.child i w',out.map fun pack => (i,packetBytes pack),none⟩ := by
  cases e with
  | listen buff arrival port => contradiction
  | work e' buff wouldBlock arrival =>
    simp only [react] at h
    split at h
    · next hdelivered =>
      obtain ⟨⟨w',out⟩,hstep,rfl⟩ := Option.map_eq_some_iff.mp h
      exact ⟨e',buff,wouldBlock,arrival,w',out,rfl,hdelivered,hstep,rfl⟩
    · contradiction
  | client e' => contradiction

theorem react_client_some {c : Client ι} (h : react order (.client c) e = some o) :
    ∃ e' c' out, e = .client e' ∧ c.step order e' = some (c',out) ∧
      o = ⟨.client c',out,none⟩ := by
  cases e with
  | listen buff arrival port => contradiction
  | work e' buff wouldBlock arrival => contradiction
  | client e' =>
    obtain ⟨⟨c',out⟩,hstep,rfl⟩ := Option.map_eq_some_iff.mp h
    exact ⟨e',c',out,rfl,hstep,rfl⟩

end Session

namespace Deployment

variable [DecidableEq ι]

def newWorker (d : Deployment ι) (file : List UInt8) : ServerWorker :=
  .start d.server.type d.server.dupAcks d.server.slideWindow (feederAt file 0)

structure Alone (P : ι → Option (Process ι)) (p i : ι) : Prop where
  seat : ∀ s, P p = some s → ∃ w, s = .child i w
  sole : ∀ q w, P q = some (.child i w) → q = p

/-- The child at `p` and the client at `i` are the two parties of `z`. -/
structure Shows (d : Deployment ι) (p i : ι) (file : List UInt8)
    (x : NetworkState ι (Process ι) (List UInt8))
    (z : LinkState ServerWorker ClientWorker Packet AckPacket) : Prop where
  child : x.parties p = some (.child i z.server) ∨
    (x.parties p = none ∧ z.server = d.newWorker file)
  client : ∃ c, x.parties i = some (.client c) ∧ d.requested c.filename = some file ∧
    z.client = c.worker ∧
    Exchanges p i packetBytes ackBytes (x.flight + c.unread i) z.data z.acks

variable {d : Deployment ι} {p i : ι} {file : List UInt8}
  {x y : NetworkState ι (Process ι) (List UInt8)}

omit [DecidableEq ι] in
theorem Alone.before {P Q : ι → Option (Process ι)} (hQ : Alone Q p i)
    (h : Network.Later d.Grows P Q) : Alone P p i where
  seat s hs := by
    obtain ⟨t,ht,hgrows⟩ := h p s hs
    obtain ⟨w,rfl⟩ := hQ.seat t ht
    cases hgrows with
    | child => exact ⟨_,rfl⟩
  sole q w hq := by
    obtain ⟨w',hq',-⟩ := later_child h hq
    exact hQ.sole q w' hq'

theorem Reaches.listener (hx : d.Reaches x) :
    ∃ running, x.parties d.address = some (.listener d.server running) := by
  obtain ⟨q,hq,hgrows⟩ := hx.holds.2 d.address _ (if_pos rfl)
  cases hgrows with
  | listener => exact ⟨_,hq⟩

omit [DecidableEq ι] in
theorem Alone.child {P : ι → Option (Process ι)} (h : Alone P p i) {s : Process ι}
    (hp : P p = some s) {j : ι} {w : ServerWorker} (hs : s = .child j w) : j = i := by
  obtain ⟨w',rfl⟩ := h.seat s hp
  exact (Process.child.inj hs).1.symm

theorem Reaches.elsewhere (hx : d.Reaches x) (halone : Alone x.parties p i) {c : Client ι}
    (hi : x.parties i = some (.client c)) {src dst : ι} {bytes : List UInt8}
    (hm : ⟨src,dst,bytes⟩ ∈ x.flight) (hsp : src ≠ p) (hsi : src ≠ i) : dst ≠ p ∧ dst ≠ i := by
  obtain ⟨running,hlistener⟩ := hx.listener
  cases hx.holds.1.datagram _ hm with
  | request =>
    refine ⟨?_,?_⟩
    · rintro rfl
      obtain ⟨w,hw⟩ := halone.seat _ hlistener
      contradiction
    · rintro rfl
      simp [hi] at hlistener
  | data hc hchild =>
    refine ⟨?_,?_⟩
    · rintro rfl
      obtain ⟨w,hw⟩ := halone.seat _ hc
      contradiction
    · rintro rfl
      exact hsp (halone.sole _ _ hchild)
  | ack hc hchild =>
    refine ⟨?_,?_⟩
    · rintro rfl
      exact hsi (halone.child hchild rfl)
    · rintro rfl
      simp [hi] at hchild

theorem Reaches.server_apart (hx : d.Reaches x) (halone : Alone x.parties p i) {c : Client ι}
    (hi : x.parties i = some (.client c)) : c.server ≠ p ∧ c.server ≠ i := by
  obtain ⟨running,hlistener⟩ := hx.listener
  cases hx.holds.1.party i _ hi with
  | client hne hserver =>
    refine ⟨?_,fun h => hne (h.symm.trans hserver)⟩
    rintro rfl
    rw [hserver] at halone
    obtain ⟨w,hw⟩ := halone.seat _ hlistener
    contradiction

section Acts

variable {P : ι → Option (Process ι)} {F : Multiset (Datagram ι (List UInt8))}
  {z : LinkState ServerWorker ClientWorker Packet AckPacket} {c : Client ι}

/-- The child serves as a server of the link does. -/
theorem Shows.work {w w' : ServerWorker} {e : WorkerEvent} {buff : Vector UInt8 8}
    {wouldBlock : Bool} {arrival : Option (ι × List UInt8)} {out : List Packet}
    (hz : d.Shows p i file
      ⟨P,d.network.incoming p (.work e buff wouldBlock arrival) + F⟩ z)
    (hp : P p = some (.child i w)) (hdelivered : Session.Delivered e buff wouldBlock arrival)
    (h : w.step d.order e = some (w',out)) :
    ∃ z', (pair d.order).Run z z' ∧
      d.Shows p i file ⟨Function.update P p (some (.child i w')),
        F + (out.map fun pack => ⟨p,i,packetBytes pack⟩ :
          List (Datagram ι (List UInt8)))⟩ z' := by
  obtain ⟨hchild,c,hi,hfile,hc,hexchanges⟩ := hz
  obtain ⟨s,k,D,A⟩ := z
  dsimp only at hchild hi hc hexchanges
  have hs : w = s := by
    rcases hchild with hchild | ⟨hnone,-⟩
    · exact (Process.child.inj (Option.some.inj (hp.symm.trans hchild))).2
    · rw [hnone] at hp
      contradiction
  subst hs
  have hne : p ≠ i := by
    rintro rfl
    simp [hi] at hp
  have hi' : Function.update P p (some (.child i w')) i = some (.client c) :=
    (Function.update_of_ne hne.symm _ _).trans hi
  have hshows {A' : Multiset AckPacket}
      (hrest : Exchanges p i packetBytes ackBytes (F + c.unread i) D A') :
      d.Shows p i file ⟨Function.update P p (some (.child i w')),
        F + (out.map fun pack => ⟨p,i,packetBytes pack⟩ :
          List (Datagram ι (List UInt8)))⟩ ⟨w',k,D + (out : Multiset Packet),A'⟩ := by
    refine ⟨Or.inl (Function.update_self _ _ _),c,hi',hfile,hc,?_⟩
    have hsent := hrest.send_server out
    rwa [add_right_comm] at hsent
  cases arrival with
  | none =>
    refine ⟨_,.single (Or.inl (.serve trivial hdelivered h)),hshows ?_⟩
    simpa [Network.incoming,Session.network,Session.reads] using hexchanges
  | some x =>
    obtain ⟨src,bytes⟩ := x
    have hcons : d.network.incoming p (.work e buff wouldBlock (some (src,bytes))) + F +
        c.unread i = ⟨src,p,bytes⟩ ::ₘ (F + c.unread i) := by
      simp [Network.incoming,Session.network,Session.reads]
    rw [hcons] at hexchanges
    obtain ⟨a,A',heq,rfl,hrest⟩ := hexchanges.read_server hne rfl
    obtain ⟨rfl,-,rfl⟩ := Datagram.mk.inj heq
    have hrecv : e.recv = some (.ok a) := by
      rw [← receiveAckPacket_ackBytes buff wouldBlock a]
      exact hdelivered
    have hreads : e.reads = some a := by rw [WorkerEvent.reads,hrecv]
    exact ⟨_,.single (Or.inl (.read trivial hreads h)),hshows hrest⟩

/-- The client accepts as a client of the link does; its requests and its waiting are none of the
link's business. -/
theorem Shows.answer {c' : Client ι} {e : ClientEvent ι} {out : List (ι × List UInt8)}
    (hz : d.Shows p i file ⟨P,d.network.incoming i (.client e) + F⟩ z)
    (hi : P i = some (.client c)) (hne : p ≠ i) (hserver : c.server ≠ p ∧ c.server ≠ i)
    (h : c.step d.order e = some (c',out)) :
    ∃ z', (pair d.order).Run z z' ∧
      d.Shows p i file ⟨Function.update P i (some (.client c')),
        F + (out.map fun x => ⟨i,x.1,x.2⟩ : List (Datagram ι (List UInt8)))⟩ z' := by
  obtain ⟨hchild,c₀,hi₀,hfile,hc,hexchanges⟩ := hz
  obtain ⟨s,k,D,A⟩ := z
  dsimp only at hchild hi₀ hc hexchanges
  obtain rfl := Process.client.inj (Option.some.inj (hi.symm.trans hi₀))
  have hchild' {k' : ClientWorker} {c₁ : Client ι} {G : Multiset (Datagram ι (List UInt8))}
      {A' : Multiset AckPacket} {D' : Multiset Packet} (hc₁ : c₁.filename = c.filename)
      (hk : k' = c₁.worker) (hrest : Exchanges p i packetBytes ackBytes (G + c₁.unread i) D' A') :
      d.Shows p i file ⟨Function.update P i (some (.client c₁)),G⟩ ⟨s,k',D',A'⟩ := by
    refine ⟨?_,c₁,Function.update_self _ _ _,hc₁.symm ▸ hfile,hk,hrest⟩
    simpa [hne] using hchild
  cases Client.step_stepped h with
  | @requested ntry ntrys pack hphase hpack =>
    refine ⟨_,.refl,hchild' rfl (by simpa [Client.worker,hphase] using hc) ?_⟩
    have hfar : ∀ m ∈ ({⟨i,c.server,packetBytes pack⟩} : Multiset (Datagram ι (List UInt8))),
        m.dst ≠ p ∧ m.dst ≠ i := by
      simpa using hserver
    have hsent := hexchanges.send_other hfar
    simpa [Network.incoming,Session.network,Session.reads,Client.unread,hphase] using hsent
  | unsent hphase hnext =>
    refine ⟨_,.refl,hchild' rfl ?_ ?_⟩
    · rcases hnext with rfl | rfl <;> simpa [Client.worker,hphase] using hc
    · rcases hnext with rfl | rfl <;>
        simpa [Network.incoming,Session.network,Session.reads,Client.unread,hphase] using hexchanges
  | silence hphase hnext =>
    refine ⟨_,.refl,hchild' rfl ?_ ?_⟩
    · rcases hnext with ⟨-,rfl⟩ | rfl <;> simpa [Client.worker,hphase] using hc
    · rcases hnext with ⟨-,rfl⟩ | rfl <;>
        simpa [Network.incoming,Session.network,Session.reads,Client.unread,hphase] using hexchanges
  | @peeked ntry src bytes hphase =>
    -- the datagram goes from the wire into the hands of the client
    refine ⟨_,.refl,hchild' rfl (by simpa [Client.worker,hphase] using hc) ?_⟩
    rw [add_comm] at hexchanges
    simpa [Network.incoming,Session.network,Session.reads,Client.unread,hphase,add_comm] using
      hexchanges
  | @passed worker worker' peeked e buff wouldBlock arrival out hphase he hpass =>
    have hflight : d.network.incoming i (.client e) + F + c.unread i =
        (arrival.toList.map fun x => ⟨x.1,i,x.2⟩ : List (Datagram ι (List UInt8))) + F := by
      rcases he with ⟨rfl,rfl⟩ | ⟨rfl,rfl⟩
      · rw [add_comm]
        cases peeked <;>
          simp [Network.incoming,Session.network,Session.reads,Client.unread,hphase]
      · simp [Network.incoming,Session.network,Session.reads,Client.unread,hphase]
    rw [hflight] at hexchanges
    obtain rfl : k = worker := by simpa [Client.worker,hphase] using hc
    cases arrival with
    | none =>
      obtain ⟨rfl,rfl⟩ := ClientWorker.pass_nothing hpass
      exact ⟨_,.refl,hchild' rfl rfl (by simpa [Client.unread] using hexchanges)⟩
    | some x =>
      obtain ⟨src,bytes⟩ := x
      obtain ⟨pack,D',heq,rfl,hrest⟩ := Exchanges.read_client
        (by simpa using hexchanges) hne rfl
      obtain ⟨rfl,-,rfl⟩ := Datagram.mk.inj heq
      obtain ⟨acks,haccept,rfl⟩ := ClientWorker.accept_of_pass hpass
      refine ⟨_,.single (Or.inl (.accept haccept)),hchild' rfl rfl ?_⟩
      have hsent := hrest.send_client acks
      simpa [Client.unread,Function.comp_def] using hsent

theorem Reaches.forked {j q : ι} {s : Process ι} {e : SessionEvent ι}
    {o : Outcome ι (Process ι) (List UInt8)} {w : ServerWorker}
    (hx : d.Reaches ⟨P,d.network.incoming j e + F⟩)
    (hj : P j = some s) (hreact : d.network.react s e = some o)
    (hstarted : o.started = some (q,.child i w)) (hi : P i = some (.client c))
    (hfile : d.requested c.filename = some file) : w = d.newWorker file := by
  change Session.react d.order s e = some o at hreact
  unfold Session.react at hreact
  split at hreact
  · next server buff arrival port =>
    rcases Session.listen_cases hreact with
      ⟨running,rfl⟩ | ⟨src,bytes,pck,at_,feeder,rfl,hpck,hread,rfl⟩
    · contradiction
    · obtain ⟨-,hchild⟩ := Prod.mk.inj (Option.some.inj hstarted)
      obtain ⟨rfl,rfl⟩ := Process.child.inj hchild
      have hmem : ⟨src,j,bytes⟩ ∈ d.network.incoming j (.listen buff (some (src,bytes)) port) + F := by
        simp [Network.incoming,Session.network,Session.reads]
      obtain ⟨c',pack,hc',hpack,rfl⟩ := (hx.holds.1.datagram _ hmem).to_listener hj
      obtain rfl := Process.client.inj (Option.some.inj (hi.symm.trans hc'))
      rw [receivePacketOrExit_packetBytes] at hpck
      obtain rfl := Option.some.inj hpck
      cases hx.holds.1.party j _ hj with
      | listener =>
        obtain ⟨file',hfile',rfl⟩ := requested_readFile hpack hread
        obtain rfl := Option.some.inj (hfile.symm.trans hfile')
        rfl
  · split at hreact
    · obtain ⟨r,-,rfl⟩ := Option.map_eq_some_iff.mp hreact
      contradiction
    · contradiction
  · obtain ⟨r,-,rfl⟩ := Option.map_eq_some_iff.mp hreact
    contradiction
  · contradiction

theorem Shows.other {j : ι} {s : Process ι} {e : SessionEvent ι}
    {o : Outcome ι (Process ι) (List UInt8)}
    (hx : d.Reaches ⟨P,d.network.incoming j e + F⟩)
    (hy : d.Reaches ⟨Network.placed P j o,F + Network.outgoing j o⟩)
    (halone : Alone (Network.placed P j o) p i)
    (hz : d.Shows p i file ⟨P,d.network.incoming j e + F⟩ z) (hjp : j ≠ p) (hji : j ≠ i)
    (hj : P j = some s) (hreact : d.network.react s e = some o)
    (hunused : ∀ q ∈ o.started, P q.1 = none) :
    d.Shows p i file ⟨Network.placed P j o,F + Network.outgoing j o⟩ z := by
  obtain ⟨hchild,c,hi,hfile,hc,hexchanges⟩ := hz
  dsimp only at hchild hi
  have hi' : Network.placed P j o i = some (.client c) :=
    Network.placed_other hunused hji.symm hi
  refine ⟨?_,c,hi',hfile,hc,?_⟩
  · dsimp only
    rcases hchild with hchild | ⟨hnone,hserver⟩
    · exact Or.inl (Network.placed_other hunused hjp.symm hchild)
    · cases hplaced : Network.placed P j o p with
      | none => exact Or.inr ⟨rfl,hserver⟩
      | some t =>
        obtain ⟨w,rfl⟩ := halone.seat t hplaced
        rcases Network.placed_cases hplaced with ⟨rfl,-⟩ | hstarted | ⟨-,hsome⟩
        · exact absurd rfl hjp
        · rw [hserver,hx.forked hj hreact hstarted hi hfile]
          exact Or.inl rfl
        · rw [hnone] at hsome
          contradiction
  · have hread : Exchanges p i packetBytes ackBytes (F + c.unread i) z.data z.acks := by
      cases hreads : Session.reads e with
      | none => simpa [Network.incoming,Session.network,hreads] using hexchanges
      | some x =>
        refine Exchanges.read_other (m := ⟨x.1,j,x.2⟩) ?_ hjp hji
        simpa [Network.incoming,Session.network,hreads] using hexchanges
    rw [add_right_comm]
    refine hread.send_other fun m hm => ?_
    obtain ⟨x,hx',rfl⟩ := List.mem_map.mp (Multiset.mem_coe.mp hm)
    exact hy.elsewhere halone hi' (Multiset.mem_add.mpr (Or.inr hm)) hjp hji

end Acts

variable {z : LinkState ServerWorker ClientWorker Packet AckPacket}

theorem Shows.step (hx : d.Reaches x) (hy : d.Reaches y) (halone : Alone y.parties p i)
    {l : Network.Label ι (SessionEvent ι) (List UInt8)} (hl : l.Unaltered)
    (h : d.network.Step l x y) (hz : d.Shows p i file x z) :
    ∃ z', (pair d.order).Run z z' ∧ d.Shows p i file y z' := by
  have hbefore := halone.before (d.claim_inductive.step hx.holds.1 h).2
  cases h with
  | @act P j s e o F hj hreact hunused =>
    by_cases hjp : j = p
    · subst hjp
      obtain ⟨w,rfl⟩ := hbefore.seat s hj
      obtain ⟨e',buff,wouldBlock,arrival,w',out,rfl,hdelivered,hstep,rfl⟩ :=
        Session.react_child hreact
      obtain ⟨z',hrun,hz'⟩ := hz.work hj hdelivered hstep
      refine ⟨z',hrun,?_⟩
      simpa [Network.placed,Network.outgoing,Function.comp_def] using hz'
    · by_cases hji : j = i
      · subst hji
        obtain ⟨-,c,hi,-⟩ := id hz
        obtain rfl := Option.some.inj (hi.symm.trans hj)
        obtain ⟨e',c',out,rfl,hstep,rfl⟩ := Session.react_client_some hreact
        have hserver := hx.server_apart hbefore hj
        obtain ⟨z',hrun,hz'⟩ := hz.answer hj (Ne.symm hjp) hserver hstep
        exact ⟨z',hrun,hz'⟩
      · exact ⟨z,.refl,hz.other hx hy halone hjp hji hj hreact hunused⟩
  | lose =>
    obtain ⟨hchild,c,hi,hfile,hc,hexchanges⟩ := hz
    rw [Multiset.cons_add] at hexchanges
    obtain ⟨D,A,hfault,hrest⟩ := hexchanges.lose z.server z.client
    refine ⟨⟨z.server,z.client,D,A⟩,?_,hchild,c,hi,hfile,hc,hrest⟩
    rcases hfault with heq | hfault
    · rw [heq]
      exact .refl
    · exact .single (Or.inr hfault)
  | duplicate =>
    obtain ⟨hchild,c,hi,hfile,hc,hexchanges⟩ := hz
    rw [Multiset.cons_add] at hexchanges
    obtain ⟨D,A,hfault,hrest⟩ := hexchanges.duplicate z.server z.client
    refine ⟨⟨z.server,z.client,D,A⟩,?_,hchild,c,hi,hfile,hc,?_⟩
    · rcases hfault with heq | hfault
      · rw [heq]
        exact .refl
      · exact .single (Or.inr hfault)
    · simpa only [Multiset.cons_add] using hrest
  | alter => exact hl.elim

theorem Shows.run (hx : d.Reaches x) (hz : d.Shows p i file x z)
    (h : d.network.RunWhere Network.Label.Unaltered x y) (halone : Alone y.parties p i) :
    ∃ z', (pair d.order).Run z z' ∧ d.Shows p i file y z' := by
  induction h with
  | refl => exact ⟨z,.refl,hz⟩
  | @tail y y' hrun hstep ih =>
    obtain ⟨l,hl,hstep⟩ := hstep
    have hy : d.Reaches y := hx.trans (Network.RunWhere.run hrun)
    have hy' : d.Reaches y' := hy.tail ⟨l,trivial,hstep⟩
    obtain ⟨z₁,hrun₁,hz₁⟩ := ih (halone.before (d.claim_inductive.step hy.holds.1 hstep).2)
    obtain ⟨z₂,hrun₂,hz₂⟩ := hz₁.step hy hy' halone hl hstep
    exact ⟨z₂,hrun₁.trans hrun₂,hz₂⟩

theorem start_shows {c : Client ι} (hi : d.clients i = some c)
    (hfile : d.requested c.filename = some file) (halone : Alone d.start.parties p i) :
    d.Shows p i file d.start (pairStart d.server.type c.type d.server.dupAcks d.server.slideWindow
      c.recvWindow file) := by
  have hphase := (d.asking i c hi).1
  refine ⟨Or.inr ⟨?_,rfl⟩,c,(start_client hi).2,hfile,by simp [pairStart,Client.worker,hphase],
    0,by simp [start,pairStart,Client.unread,hphase],by simp⟩
  by_contra hsome
  obtain ⟨s,hs⟩ := Option.ne_none_iff_exists'.mp hsome
  obtain ⟨w,rfl⟩ := halone.seat s hs
  by_cases hp : p = d.address
  · simp [start,hp] at hs
  · simp [start,hp] at hs

theorem host_alone {P : ι → Option (Process ι)} {F : Multiset (Datagram ι (List UInt8))}
    {c : Client ι} (hy : (d.host p i c).Stands P F z y)
    (hP : ∀ q w, P q = some (.child i w) → q = p) : Alone y.parties p i where
  seat s hs := by
    obtain ⟨_,hp,rfl⟩ := hy.server
    exact ⟨_,Option.some.inj (hs.symm.trans hp)⟩
  sole q w hq := by
    by_contra hqp
    by_cases hqi : q = i
    · subst hqi
      obtain ⟨_,hi,phase,-,rfl⟩ := hy.client
      simp [hi] at hq
    · rw [hy.others q hqp hqi] at hq
      exact hqp (hP q w hq)

/-- A session in which no datagram is altered contains, for every client that has but one child, a
run of a server and a client worker over an unreliable link: its parties are in the states of the
two processes, and its datagrams are those between the two. -/
theorem session_refines (h : d.network.RunWhere Network.Label.Unaltered d.start x) {c : Client ι}
    (hi : d.clients i = some c) (hfile : d.requested c.filename = some file)
    (halone : Alone x.parties p i) :
    ∃ z, (pair d.order).Run (pairStart d.server.type c.type d.server.dupAcks d.server.slideWindow
      c.recvWindow file) z ∧ d.Shows p i file x z :=
  (start_shows hi hfile (halone.before (Reaches.holds h.run).2)).run .refl h halone

theorem session_refines_single : ∃ (d : Deployment ℕ) (x : NetworkState ℕ (Process ℕ) (List UInt8))
    (z : LinkState ServerWorker ClientWorker Packet AckPacket),
    d.network.RunWhere Network.Label.Unaltered d.start x ∧
      (pair d.order).Run (pairStart .selectiveRepeat .selectiveRepeat List.nil 2 2 [7]) z ∧
      d.Shows 2 1 [7] x z := by
  obtain ⟨x,s,k,hrun,hx,-⟩ := complete_run (d := single .selectiveRepeat .selectiveRepeat 2) (i := 1)
    (p := 2) (c := ⟨.selectiveRepeat,[97],0,2,.asking 0 0⟩) .refl rfl rfl rfl
    (single_requested _ _ _) rfl single_modest
  have hrun' := hrun.weaken fun _ => Network.Label.Calm.unaltered
  have halone := host_alone hx fun q w hq => by
    by_cases hq0 : q = 0 <;> by_cases hq1 : q = 1 <;> simp [start,single,offering,hq0,hq1] at hq
  obtain ⟨z,hz⟩ := session_refines (c := ⟨.selectiveRepeat,[97],0,2,.asking 0 0⟩) hrun' rfl
    (single_requested _ _ _) halone
  exact ⟨_,x,z,hrun',hz⟩

end Deployment

end ReliableTransfer
