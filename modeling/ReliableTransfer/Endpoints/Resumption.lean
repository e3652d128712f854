import ReliableTransfer.Endpoints.Copies
import ReliableTransfer.Endpoints.Projection
import ReliableTransfer.Workers.Recovery

/-!
# Going on with a session

What a server and its client can still do over a link, a child and its client can still do in the
session, from every state in which the client has no other child.
-/

namespace ReliableTransfer

open Framework

variable {ι : Type}

namespace Deployment

variable [DecidableEq ι] {d : Deployment ι} {p i : ι} {file : List UInt8}
  {x y : NetworkState ι (Process ι) (List UInt8)}
  {z z' : LinkState ServerWorker ClientWorker Packet AckPacket} {w : ServerWorker} {c : Client ι}

omit [DecidableEq ι] in
theorem Shows.server_eq (hz : d.Shows p i file x z) (hp : x.parties p = some (.child i w)) :
    z.server = w := by
  rcases hz.child with hchild | ⟨hnone,-⟩
  · exact (Process.child.inj (Option.some.inj (hchild.symm.trans hp))).2
  · rw [hnone] at hp
    contradiction

omit [DecidableEq ι] in
theorem Shows.client_eq (hz : d.Shows p i file x z) (hi : x.parties i = some (.client c)) :
    z.client = c.worker ∧
      Exchanges p i packetBytes ackBytes (x.flight + c.unread i) z.data z.acks := by
  obtain ⟨c',hi',-,hc,hexchanges⟩ := hz.client
  obtain rfl := Process.client.inj (Option.some.inj (hi.symm.trans hi'))
  exact ⟨hc,hexchanges⟩

theorem Shows.stands (hz : d.Shows p i file x z) (hp : x.parties p = some (.child i w))
    (hi : x.parties i = some (.client c)) (hruns : c.phase.Runs c.type c.recvWindow z.client) :
    ∃ F, (d.host p i c).Stands x.parties F z x := by
  have hs := hz.server_eq hp
  obtain ⟨-,F,hflight,-⟩ := hz.client_eq hi
  have hnone : c.unread i = 0 := by
    unfold Client.unread
    split
    · next heq =>
      rw [heq] at hruns
      cases hruns
    · rfl
  rw [hnone,add_zero] at hflight
  exact ⟨F,⟨_,hp,by rw [hs]; rfl⟩,⟨_,hi,c.phase,hruns,rfl⟩,fun _ _ _ => rfl,hflight⟩

theorem Shows.settle (hx : d.Reaches x) (hz : d.Shows p i file x z)
    (hp : x.parties p = some (.child i w)) (halone : Alone x.parties p i)
    (hi : x.parties i = some (.client c)) (hphase : c.phase ≠ .gaveUp)
    (hret : z.client.returned = false) :
    ∃ y z' c', d.network.RunWhere Session.Calm x y ∧ (pair d.order).Run z z' ∧
      d.Shows p i file y z' ∧ (∀ j, j ≠ i → y.parties j = x.parties j) ∧
      y.parties i = some (.client c') ∧ c'.phase.Runs c'.type c'.recvWindow z'.client := by
  have hne : p ≠ i := by
    rintro rfl
    simp [hp] at hi
  have hclient := (hz.client_eq hi).1
  have hgo {e : ClientEvent ι} {c' : Client ι} {out : List (ι × List UInt8)}
      (hcalm : SessionEvent.Calm (.client e)) (hreads : Session.reads (.client e) = none)
      (hstep : c.step d.order e = some (c',out))
      (hruns : c'.phase.Runs c'.type c'.recvWindow c'.worker) :
      ∃ y z' c', d.network.RunWhere Session.Calm x y ∧ (pair d.order).Run z z' ∧
        d.Shows p i file y z' ∧ (∀ j, j ≠ i → y.parties j = x.parties j) ∧
        y.parties i = some (.client c') ∧ c'.phase.Runs c'.type c'.recvWindow z'.client := by
    have hrun := Network.RunWhere.act_silent d.network (F := x.flight) (L := Session.Calm)
      (e := .client e) hcalm hi hreads (Session.react_client hstep d.address)
    obtain ⟨z',hrun',hz'⟩ := Shows.answer (F := x.flight)
      (by simpa [Network.incoming,Session.network,hreads] using hz) hi hne
      (hx.server_apart halone hi) hstep
    have hi' := Function.update_self i (some (Process.client c')) x.parties
    refine ⟨_,z',c',hrun,hrun',hz',fun j hj => Function.update_of_ne hj _ _,hi',?_⟩
    rwa [(hz'.client_eq hi').1]
  cases hat : c.phase with
  | gaveUp => exact absurd hat hphase
  | awaiting ntry =>
    refine ⟨x,z,c,.refl,.refl,hz,fun _ _ => rfl,hi,?_⟩
    rw [hat]
    exact .awaiting (by simp [hclient,Client.worker,hat])
  | asking ntry ntrys =>
    obtain ⟨c₁,hi₁,hfile,-⟩ := hz.client
    obtain rfl := Process.client.inj (Option.some.inj (hi.symm.trans hi₁))
    obtain ⟨pack,hpack,-⟩ := Option.bind_eq_some_iff.mp hfile
    have hstep : c.step d.order (.request true) =
        some ({ c with phase := .awaiting (ntry + 1) },[(c.server,packetBytes pack)]) := by
      simp [Client.step,hat,hpack]
    exact hgo (e := .request true) rfl rfl hstep (.awaiting rfl)
  | receiving k peeked =>
    cases peeked with
    | none =>
      refine ⟨x,z,c,.refl,.refl,hz,fun _ _ => rfl,hi,?_⟩
      rw [hat,hclient,Client.worker,hat]
      exact .receiving
    | some m =>
      cases hx.holds.1.party i _ hi with
      | client hfar hserver hall =>
        obtain ⟨-,⟨file',hfile,hholds⟩,hpeeked⟩ := hall k (some m) hat
        obtain ⟨src,bytes⟩ := m
        obtain ⟨-,file₁,pack,-,hfile₁,hgenuine,rfl⟩ := (hpeeked _ rfl).to_client hfar hi
        obtain rfl := Option.some.inj (hfile.symm.trans hfile₁)
        have hopen : k.returned = false := by simpa [hclient,Client.worker,hat] using hret
        have harrival : ∀ m ∈ some (src,packetBytes pack), ∃ pack', m.2 = packetBytes pack' ∧
            ClientWorker.Genuine d.order file' pack' := by
          rintro m ⟨⟩
          exact ⟨pack,rfl,hgenuine⟩
        obtain ⟨k',out,hpass⟩ := pass_defined hholds (requested_small hfile) hopen harrival
          (.replicate 520 0) false
        have hstep : c.step d.order (.receivePeeked (.replicate 520 0) false) =
            some ({ c with phase := .receiving k' none },out) := by
          simp [Client.step,hat,hpass]
        exact hgo (e := .receivePeeked (.replicate 520 0) false) trivial rfl hstep .receiving

theorem Reaches.onward (hx : d.Reaches x) {c₀ : Client ι} (hi₀ : d.clients i = some c₀)
    (hi : x.parties i = some (.client c)) : d.Onward c₀ c := by
  obtain ⟨c',hi',hon⟩ := hx.client hi₀
  rwa [Process.client.inj (Option.some.inj (hi.symm.trans hi'))]

/-- Whatever has been lost so far: if both ends run one protocol, with windows that are wide enough,
a client with one child that has not given up can get its file without another loss. Nobody else
notices. -/
theorem session_recovers (h : d.network.RunWhere Network.Label.Unaltered d.start x)
    {c₀ : Client ι} (hi₀ : d.clients i = some c₀) (hsame : c₀.type = d.server.type)
    (hfile : d.requested c₀.filename = some file)
    (hsize : Sized d.server.type file d.server.slideWindow c₀.recvWindow)
    (hrobust : Robust d.server.type file d.server.slideWindow c₀.recvWindow)
    (halone : Alone x.parties p i) (hp : x.parties p = some (.child i w)) (hw : ¬w.Failed)
    (hi : x.parties i = some (.client c)) (hphase : c.phase ≠ .gaveUp) :
    ∃ y c', d.network.RunWhere Session.Calm x y ∧
      (∀ j, j ≠ p → j ≠ i → y.parties j = x.parties j) ∧
      y.parties i = some (.client c') ∧ d.Served c' := by
  have hx : d.Reaches x := Network.RunWhere.run h
  have hne : p ≠ i := by
    rintro rfl
    simp [hp] at hi
  have hfilename := (hx.onward hi₀ hi).filename
  have hserved {y : NetworkState ι (Process ι) (List UInt8)} (hy : d.Reaches y) {c' : Client ι}
      (hi' : y.parties i = some (.client c')) (hclosed : c'.copy.closed = true) : d.Served c' := by
    have hfile' : d.requested c'.filename = some file := (hy.onward hi₀ hi').filename ▸ hfile
    exact ⟨file,hfile',hclosed,(hy.output hi' hfile').2 hclosed⟩
  obtain ⟨z,hz₀,hz⟩ := session_refines h hi₀ hfile halone
  rw [hsame] at hz₀
  cases hret : z.client.returned with
  | true =>
    refine ⟨x,c,.refl,fun _ _ _ => rfl,hi,hserved hx hi ?_⟩
    rw [(hz.client_eq hi).1,Client.worker] at hret
    unfold Client.copy
    split
    · next hat => rwa [hat] at hret
    · next hat =>
      split at hret
      · next hat' => exact absurd hat' (hat _ _)
      · rw [ClientWorker.start_returned] at hret
        contradiction
  | false =>
    obtain ⟨y₁,z₁,c₁,hrun₁,hz₁,hshows,hothers,hi₁,hruns⟩ :=
      hz.settle hx hp halone hi hphase hret
    have hp₁ : y₁.parties p = some (.child i w) := (hothers p hne).trans hp
    have hserver : z₁.server = w := hshows.server_eq hp₁
    obtain ⟨z₂,hcalm,hret₂⟩ := hrobust.recoverable d.order d.server.dupAcks hsize z₁
      (hz₀.trans hz₁) (hserver ▸ hw)
    obtain ⟨F,hstands⟩ := hshows.stands hp₁ hi₁ hruns
    obtain ⟨y,hrun₂,hy⟩ := hstands.calmRun hne hcalm
    have hrun := hrun₁.trans hrun₂
    have hi' := host_returned hy hret₂
    refine ⟨y,_,hrun,fun j hjp hji => (hy.others j hjp hji).trans (hothers j hji),hi',?_⟩
    exact hserved (hx.trans (Network.RunWhere.run hrun)) hi' hret₂

theorem single_lost : ∃ x w c, (single .waitAndStop .waitAndStop 2).network.RunWhere
      Network.Label.Unaltered (single .waitAndStop .waitAndStop 2).start x ∧
    Alone x.parties 2 1 ∧ x.parties 2 = some (.child 1 w) ∧ ¬w.Failed ∧
    x.parties 1 = some (.client c) ∧ c.phase ≠ .gaveUp := by
  obtain ⟨y,hopened,hy⟩ := open_run (d := single .waitAndStop .waitAndStop 2)
    (x := (single .waitAndStop .waitAndStop 2).start) (i := 1) (p := 2)
    (c := ⟨.waitAndStop,[97],0,2,.asking 0 0⟩) rfl rfl rfl rfl (single_requested _ _ _) rfl
  have hsend := StopWaitServer.serve_pair
    (StopWait.step_send .little [7] (Nat.zero_le _) 0 ⟨0,0⟩)
  have hlost : (pair .little).Run ⟨.start .waitAndStop List.nil 2 (feederAt [7] 0),
      .start .waitAndStop 2,0,0⟩ ⟨_,.start .waitAndStop 2,0,0⟩ :=
    (Link.RunWhere.serve .refl (.stopWait (.send (calmTick ⟨0,0⟩))) trivial rfl hsend).loseData
  obtain ⟨x,hlifted,hx⟩ := hy.run (by decide) hlost
  obtain ⟨_,hchild,rfl⟩ := hx.server
  obtain ⟨_,hclient,phase,hruns,rfl⟩ := hx.client
  refine ⟨x,_,_,(hopened.weaken fun _ => Network.Label.Calm.unaltered).trans hlifted,
    host_alone hx fun q w hq => ?_,hchild,nofun,hclient,?_⟩
  · by_cases hq0 : q = 0 <;> by_cases hq1 : q = 1 <;> simp [start,single,offering,hq0,hq1] at hq
  · cases hruns <;> simp

theorem session_recovers_single : ∃ (d : Deployment ℕ) (x y : NetworkState ℕ (Process ℕ) (List UInt8))
    (c : Client ℕ), d.network.RunWhere Network.Label.Unaltered d.start x ∧
      d.network.RunWhere Session.Calm x y ∧ y.parties 1 = some (.client c) ∧ d.Served c := by
  obtain ⟨x,w,c,hrun,halone,hp,hw,hi,hphase⟩ := single_lost
  have hclient : (single .waitAndStop .waitAndStop 2).clients 1 =
      some ⟨.waitAndStop,[97],0,2,.asking 0 0⟩ := rfl
  obtain ⟨y,c',hcalm,-,hi',hserved⟩ := session_recovers hrun hclient rfl (single_requested _ _ _)
    (show numSegments [7] < 2^32 - 1 by decide) trivial halone hp hw hi hphase
  exact ⟨_,x,y,c',hrun,hcalm,hi',hserved⟩

/-- The client has returned, and what is on its way to the child at `p` is on its way in `z`. -/
structure Hears (p i : ι) (x : NetworkState ι (Process ι) (List UInt8))
    (z : LinkState ServerWorker ClientWorker Packet AckPacket) : Prop where
  child : x.parties p = some (.child i z.server)
  client : ∃ c k, x.parties i = some (.client c) ∧ c.phase = .receiving k none ∧ k.returned = true
  acks : ∀ a, ⟨i,p,ackBytes a⟩ ∈ x.flight → a ∈ z.acks

omit [DecidableEq ι] in
theorem returned_step {order : ByteOrder} {k : ClientWorker} (hphase : c.phase = .receiving k none)
    (hret : k.returned = true) (e : ClientEvent ι) : c.step order e = none := by
  cases e <;> simp [Client.step,hphase,ClientWorker.pass,hret]

theorem Hears.work {P : ι → Option (Process ι)} {F : Multiset (Datagram ι (List UInt8))}
    {e : WorkerEvent} {buff : Vector UInt8 8} {wouldBlock : Bool} {out : List Packet}
    {arrival : Option (ι × List UInt8)} {w' : ServerWorker}
    (hx : d.Reaches ⟨P,d.network.incoming p (.work e buff wouldBlock arrival) + F⟩)
    (hz : Hears p i ⟨P,d.network.incoming p (.work e buff wouldBlock arrival) + F⟩ z)
    (hdelivered : Session.Delivered e buff wouldBlock arrival)
    (h : z.server.step d.order e = some (w',out)) :
    ∃ z', (pair d.order).Run z z' ∧
      Hears p i ⟨Function.update P p (some (.child i w')),
        F + (out.map fun pack => ⟨p,i,packetBytes pack⟩ : List (Datagram ι (List UInt8)))⟩ z' := by
  obtain ⟨hp,⟨c,k,hi,hphase,hret⟩,hacks⟩ := hz
  obtain ⟨s,k',D,A⟩ := z
  dsimp only at hp hi hacks h
  have hne : p ≠ i := by
    rintro rfl
    simp [hp] at hi
  have hhears : Hears p i ⟨Function.update P p (some (.child i w')),
      F + (out.map fun pack => ⟨p,i,packetBytes pack⟩ : List (Datagram ι (List UInt8)))⟩
        ⟨w',k',D + (out : Multiset Packet),A⟩ := by
    refine ⟨Function.update_self _ _ _,⟨c,k,?_,hphase,hret⟩,fun a ha => ?_⟩
    · exact (Function.update_of_ne hne.symm _ _).trans hi
    · rcases Multiset.mem_add.mp ha with ha | ha
      · exact hacks a (Multiset.mem_add.mpr (Or.inr ha))
      · obtain ⟨pack,-,heq⟩ := List.mem_map.mp (Multiset.mem_coe.mp ha)
        exact absurd (Datagram.mk.inj heq).1 hne
  cases arrival with
  | none => exact ⟨_,.single (Or.inl (.serve trivial hdelivered h)),hhears⟩
  | some m =>
    obtain ⟨src,bytes⟩ := m
    have hmem : ⟨src,p,bytes⟩ ∈
        d.network.incoming p (.work e buff wouldBlock (some (src,bytes))) + F := by
      simp [Network.incoming,Session.network,Session.reads]
    have haddress : p ≠ d.address := by
      rintro rfl
      obtain ⟨running,hlistener⟩ := hx.listener
      simp [hp] at hlistener
    obtain ⟨rfl,_,_,a,-,-,rfl,-⟩ := (hx.holds.1.datagram _ hmem).to_child haddress hp
    have hrecv : e.recv = some (.ok a) := by
      rw [← receiveAckPacket_ackBytes buff wouldBlock a]
      exact hdelivered
    have hreads : e.reads = some a := by rw [WorkerEvent.reads,hrecv]
    -- the link keeps a second copy of what is read
    obtain ⟨A',rfl⟩ := Multiset.exists_cons_of_mem (hacks a hmem)
    have hdup : (pair d.order).Run ⟨s,k',D,a ::ₘ A'⟩ ⟨s,k',D,a ::ₘ a ::ₘ A'⟩ :=
      .single (Or.inr .dupAck)
    exact ⟨_,hdup.tail (Or.inl (.read trivial hreads h)),hhears⟩

theorem Hears.step (hx : d.Reaches x) {l : Network.Label ι (SessionEvent ι) (List UInt8)}
    (hl : l.Unaltered) (h : d.network.Step l x y) (hz : Hears p i x z) :
    ∃ z', (pair d.order).Run z z' ∧ Hears p i y z' := by
  cases h with
  | @act P j s e o F hj hreact hunused =>
    obtain ⟨hp,⟨c,k,hi,hphase,hret⟩,hacks⟩ := id hz
    by_cases hjp : j = p
    · subst hjp
      obtain rfl := Option.some.inj (hp.symm.trans hj)
      obtain ⟨e',buff,wouldBlock,arrival,w',out,rfl,hdelivered,hstep,rfl⟩ :=
        Session.react_child hreact
      obtain ⟨z',hrun,hz'⟩ := hz.work hx hdelivered hstep
      refine ⟨z',hrun,?_⟩
      simpa [Network.placed,Network.outgoing,Function.comp_def] using hz'
    · by_cases hji : j = i
      · subst hji
        obtain rfl := Option.some.inj (hi.symm.trans hj)
        obtain ⟨e',c',out,rfl,hstep,rfl⟩ := Session.react_client_some hreact
        rw [returned_step hphase hret] at hstep
        contradiction
      · refine ⟨z,.refl,Network.placed_other hunused (Ne.symm hjp) hp,
          ⟨c,k,Network.placed_other hunused (Ne.symm hji) hi,hphase,hret⟩,fun a ha => ?_⟩
        rcases Multiset.mem_add.mp ha with ha | ha
        · exact hacks a (Multiset.mem_add.mpr (Or.inr ha))
        · obtain ⟨m,-,heq⟩ := List.mem_map.mp (Multiset.mem_coe.mp ha)
          exact absurd (Datagram.mk.inj heq).1 hji
  | lose => exact ⟨z,.refl,hz.child,hz.client,fun a ha => hz.acks a (Multiset.mem_cons_of_mem ha)⟩
  | duplicate =>
    refine ⟨z,.refl,hz.child,hz.client,fun a ha => hz.acks a ?_⟩
    rcases Multiset.mem_cons.mp ha with heq | ha
    · exact heq ▸ Multiset.mem_cons_self _ _
    · exact ha
  | alter => exact hl.elim

theorem Hears.run (hx : d.Reaches x) (hz : Hears p i x z)
    (h : d.network.RunWhere Network.Label.Unaltered x y) :
    ∃ z', (pair d.order).Run z z' ∧ Hears p i y z' := by
  induction h with
  | refl => exact ⟨z,.refl,hz⟩
  | tail hrun hstep ih =>
    obtain ⟨l,hl,hstep⟩ := hstep
    obtain ⟨z₁,hrun₁,hz₁⟩ := ih
    obtain ⟨z₂,hrun₂,hz₂⟩ := hz₁.step (hx.trans (Network.RunWhere.run hrun)) hl hstep
    exact ⟨z₂,hrun₁.trans hrun₂,hz₂⟩

/-- Once a client has returned, its child lives on what is in flight: if the acknowledgements
among it are what the child needs to return it can do so without another loss, and otherwise it
never succeeds, whatever else goes on. -/
theorem session_returns_iff (h : d.network.RunWhere Network.Label.Unaltered d.start x)
    {c₀ : Client ι} (hi₀ : d.clients i = some c₀) (hsame : c₀.type = d.server.type)
    (hfile : d.requested c₀.filename = some file) (halone : Alone x.parties p i)
    (hp : x.parties p = some (.child i w)) (hw : ¬w.Failed) (htidy : w.Tidy)
    (hi : x.parties i = some (.client c)) {k : ClientWorker}
    (hphase : c.phase = .receiving k none) (hret : k.returned = true) :
    (w.Answered (fun a => ⟨i,p,ackBytes a⟩ ∈ x.flight) →
      ∃ y w', d.network.RunWhere Session.Calm x y ∧ y.parties p = some (.child i w') ∧
        w'.Succeeded) ∧
    ∀ y w', d.network.RunWhere Network.Label.Unaltered x y → y.parties p = some (.child i w') →
      w'.Succeeded → w.Answered fun a => ⟨i,p,ackBytes a⟩ ∈ x.flight := by
  have hx : d.Reaches x := Network.RunWhere.run h
  have hne : p ≠ i := by
    rintro rfl
    simp [hp] at hi
  obtain ⟨z,hz₀,hz⟩ := session_refines h hi₀ hfile halone
  rw [hsame] at hz₀
  obtain ⟨hclient,hexchanges⟩ := hz.client_eq hi
  rw [Client.worker,hphase] at hclient
  rw [Client.unread,hphase,add_zero] at hexchanges
  obtain rfl := hz.server_eq hp
  have hsent : (fun a => ⟨i,p,ackBytes a⟩ ∈ x.flight) = fun a => a ∈ z.acks :=
    funext fun a => propext (hexchanges.mem_ack hne ackBytes_injective a)
  have hiff := pair_returns_iff hz₀ (hclient ▸ hret) hw htidy
  rw [hsent]
  refine ⟨fun hanswered => ?_,fun y w' hy hp' hsucc => ?_⟩
  · obtain ⟨z',hcalm,hsucc⟩ := hiff.attained hanswered
    obtain ⟨F,hstands⟩ := hz.stands hp hi (by rw [hphase,hclient]; exact .receiving)
    obtain ⟨y,hrun,hy⟩ := hstands.calmRun hne hcalm
    obtain ⟨_,hp',rfl⟩ := hy.server
    exact ⟨y,_,hrun,hp',hsucc⟩
  · have hhears : Hears p i x z := ⟨hp,⟨c,k,hi,hphase,hret⟩,fun a ha =>
      (hexchanges.mem_ack hne ackBytes_injective a).mp ha⟩
    obtain ⟨z',hrun,hz'⟩ := hhears.run hx hy
    obtain ⟨-,rfl⟩ := Process.child.inj (Option.some.inj (hz'.child.symm.trans hp'))
    exact hiff.needed z' hrun hsucc

theorem single_unheard : ∃ (x : NetworkState ℕ (Process ℕ) (List UInt8)) (s : StopWaitServer)
    (k : ClientWorker),
    (single .waitAndStop .waitAndStop 2).network.RunWhere Network.Label.Unaltered
      (single .waitAndStop .waitAndStop 2).start x ∧
    Alone x.parties 2 1 ∧ x.parties 2 = some (.child 1 (.stopWait s)) ∧
    (∀ failed, s.loc ≠ .returned failed) ∧ s.seqNo = 1 ∧
    ⟨1,2,ackBytes (createAckPacket 1)⟩ ∈ x.flight ∧
    x.parties 1 = some (.client ⟨.waitAndStop,[97],0,2,.receiving k none⟩) ∧
    k.returned = true := by
  obtain ⟨y,hopened,hy⟩ := open_run (d := single .waitAndStop .waitAndStop 2)
    (x := (single .waitAndStop .waitAndStop 2).start) (i := 1) (p := 2)
    (c := ⟨.waitAndStop,[97],0,2,.asking 0 0⟩) rfl rfl rfl rfl (single_requested _ _ _) rfl
  have hk := ClientWorker.start_expects .little .waitAndStop single_modest
  obtain ⟨k₁,hrun₁,hk₁⟩ := StopWaitServer.round (D := 0) (A := 0) hk (by decide) (by decide)
  obtain ⟨k₂,hrun₂,hk₂⟩ := StopWaitServer.taken (D := 0) (A := 0) hk₁ (by decide) (by decide)
  obtain ⟨x,hlifted,hx⟩ := hy.calmRun (by decide) (hrun₁.trans hrun₂)
  have hret := (hk₂.complete (by decide)).returned (by decide)
  obtain ⟨_,hp,rfl⟩ := hx.server
  have hcalm : (single .waitAndStop .waitAndStop 2).network.RunWhere Session.Calm _ x :=
    hopened.trans hlifted
  refine ⟨x,_,k₂,hcalm.weaken fun _ => Network.Label.Calm.unaltered,
    host_alone hx fun q w hq => ?_,hp,by simp,rfl,?_,host_returned hx hret,hret⟩
  · by_cases hq0 : q = 0 <;> by_cases hq1 : q = 1 <;> simp [start,single,offering,hq0,hq1] at hq
  · have hmem : createAckPacket 1 ∈ createAckPacket (0 + 1) ::ₘ (0 : Multiset AckPacket) :=
      Multiset.mem_cons_self _ _
    rw [hx.flight]
    exact Multiset.mem_add.mpr (Or.inr (mem_between.mpr (Or.inr ⟨_,hmem,rfl⟩)))

/-- The child hears of the marker, and returns. -/
theorem session_returns_iff_single : ∃ (d : Deployment ℕ)
    (x y : NetworkState ℕ (Process ℕ) (List UInt8)) (w w' : ServerWorker),
    d.network.RunWhere Network.Label.Unaltered d.start x ∧ x.parties 2 = some (.child 1 w) ∧
      ¬w.Succeeded ∧ d.network.RunWhere Session.Calm x y ∧ y.parties 2 = some (.child 1 w') ∧
      w'.Succeeded := by
  obtain ⟨x,s,k,hrun,halone,hp,hloc,hseq,hack,hi,hret⟩ := single_unheard
  have hclient : (single .waitAndStop .waitAndStop 2).clients 1 =
      some ⟨.waitAndStop,[97],0,2,.asking 0 0⟩ := rfl
  have hiff := session_returns_iff hrun hclient rfl (single_requested _ _ _) halone hp (hloc true)
    trivial hi rfl hret
  obtain ⟨y,w',hcalm,hp',hsucc⟩ := hiff.1 (Or.inr ⟨_,hack,(createAckPacket_ackno 1).trans hseq.symm⟩)
  exact ⟨_,x,y,_,w',hrun,hp,hloc false,hcalm,hp',hsucc⟩

end Deployment

end ReliableTransfer
