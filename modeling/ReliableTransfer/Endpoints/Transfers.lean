import ReliableTransfer.Endpoints.Coherence
import ReliableTransfer.Framework.Hosting
import ReliableTransfer.Workers.Completion

/-!
# Transfers in a session

A child and its client are a server and a client worker in a network of processes. What the two
workers can do without losses, they can do in every session that has got that far.
-/

namespace ReliableTransfer

open Framework

variable {ι : Type}

/-- Nothing that is sent is lost, and nobody waits in vain. -/
def SessionEvent.Calm : SessionEvent ι → Prop
  | .listen _ arrival port => arrival.isSome = true ∧ port.isSome = true
  | .work e _ _ _ => e.Calm
  | .client (.request sent) => sent = true
  | .client .noResponse => False
  | .client (.receive _ _ arrival) => arrival.isSome = true
  | .client _ => True

abbrev Session.Calm : Network.Label ι (SessionEvent ι) (List UInt8) → Prop :=
  Network.Label.Calm SessionEvent.Calm

/-- The client runs `worker`, or will start it as soon as it hears something. -/
inductive ClientPhase.Runs (type : ProtoType) (window : UInt32) (worker : ClientWorker) :
    ClientPhase ι → Prop
  | awaiting {ntry} : worker = .start type window → Runs type window worker (.awaiting ntry)
  | receiving : Runs type window worker (.receiving worker none)

theorem ClientWorker.pass_accept {order : ByteOrder} {k k' : ClientWorker} {pack : Packet}
    {out : List AckPacket} (h : k.accept order pack = some (k',out)) (buff : Vector UInt8 520)
    (wouldBlock : Bool) (src : ι) :
    k.pass order buff wouldBlock (some (src,packetBytes pack)) =
      some (k',out.map fun a => (src,ackBytes a)) := by
  rw [accept] at h
  split at h
  · contradiction
  · next hret =>
    rw [pass,if_neg hret,Option.map_some,Deployment.receivePacket_packetBytes]
    simp only [h,Option.map_some,Option.toList_some]
    rw [← List.map_eq_flatMap]

theorem WorkerEvent.recv_of_reads {e : WorkerEvent} {a : AckPacket} (h : e.reads = some a) :
    e.recv = some (.ok a) := by
  unfold reads at h
  split at h
  · next heq => rw [heq,Option.some.inj h]
  · contradiction

namespace Session

variable {order : ByteOrder} {w w' : ServerWorker} {e : WorkerEvent} {out : List Packet}

theorem delivered_reads (e : WorkerEvent) (buff : Vector UInt8 8) (wouldBlock : Bool) (i : ι) :
    Delivered e buff wouldBlock (e.reads.map fun a => (i,ackBytes a)) := by
  cases h : e.reads with
  | none => exact h
  | some a =>
    change e.recv = some (receiveAckPacket buff wouldBlock (some (ackBytes a))).recv
    rw [Deployment.receiveAckPacket_ackBytes,WorkerEvent.recv_of_reads h]

theorem react_work (h : w.step order e = some (w',out)) (buff : Vector UInt8 8) (wouldBlock : Bool)
    (i server : ι) : (network order server).react (.child i w)
        (.work e buff wouldBlock (e.reads.map fun a => (i,ackBytes a))) =
      some ⟨.child i w',out.map fun pack => (i,packetBytes pack),none⟩ := by
  change (if Delivered _ _ _ _ then _ else none) = _
  rw [if_pos (delivered_reads e buff wouldBlock i),h]
  rfl

theorem react_client {c c' : Client ι} {e : ClientEvent ι} {out : List (ι × List UInt8)}
    (h : c.step order e = some (c',out)) (server : ι) :
    (network order server).react (.client c) (.client e) = some ⟨.client c',out,none⟩ := by
  change (c.step order e).map _ = _
  rw [h]
  rfl

end Session

namespace Deployment

variable [DecidableEq ι] (d : Deployment ι) {p i : ι} {c : Client ι}

theorem accept_run {phase : ClientPhase ι} {k k' : ClientWorker} {pack : Packet}
    {out : List AckPacket} (hphase : phase.Runs c.type c.recvWindow k)
    (h : k.accept d.order pack = some (k',out)) (p : ι) {P : ι → Option (Process ι)}
    (hi : P i = some (.client { c with phase := phase })) (F : Multiset (Datagram ι (List UInt8))) :
    d.network.RunWhere Session.Calm
      ⟨P,⟨p,i,packetBytes pack⟩ ::ₘ F⟩
      ⟨Function.update P i (some (.client { c with phase := .receiving k' none })),
        F + (out.map fun a => ⟨i,p,ackBytes a⟩ : List (Datagram ι (List UInt8)))⟩ := by
  have hpass := ClientWorker.pass_accept h (.replicate 520 0) false p
  have hout : (out.map fun a => ⟨i,p,ackBytes a⟩ : List (Datagram ι (List UInt8))) =
      (out.map fun a => (p,ackBytes a)).map fun x => ⟨i,x.1,x.2⟩ := by
    rw [List.map_map]
    rfl
  rw [hout]
  cases hphase with
  | @awaiting ntry hk =>
    subst hk
    have hstep : Client.step d.order { c with
        phase := .receiving (.start c.type c.recvWindow) (some (p,packetBytes pack)) }
        (.receivePeeked (.replicate 520 0) false) =
          some ({ c with phase := .receiving k' none },out.map fun a => (p,ackBytes a)) := by
      simp [Client.step,hpass]
    have hpeek := Network.RunWhere.act_read d.network (F := F)
      (L := Session.Calm) (e := .client (.peek p (packetBytes pack)))
      trivial hi rfl rfl
    have hread := Network.RunWhere.act_silent d.network (F := F)
      (L := Session.Calm)
      (e := .client (.receivePeeked (.replicate 520 0) false)) trivial
      (Function.update_self i _ P) rfl (Session.react_client hstep d.address)
    rw [List.map_nil,Multiset.coe_nil,add_zero] at hpeek
    have hboth := hpeek.trans hread
    rwa [Function.update_idem] at hboth
  | receiving =>
    have hstep : Client.step d.order { c with phase := .receiving k none }
        (.receive (.replicate 520 0) false (some (p,packetBytes pack))) =
          some ({ c with phase := .receiving k' none },out.map fun a => (p,ackBytes a)) := by
      simp [Client.step,hpass]
    exact Network.RunWhere.act_read d.network (L := Session.Calm)
      (e := .client (.receive (.replicate 520 0) false (some (p,packetBytes pack)))) rfl hi rfl
      (Session.react_client hstep d.address)

def host (p i : ι) (c : Client ι) : Host (pair d.order) d.network SessionEvent.Calm p i where
  server w u := u = .child i w
  client k v := ∃ phase, phase.Runs c.type c.recvWindow k ∧ v = .client { c with phase := phase }
  data := packetBytes
  ack := ackBytes
  serves := by
    rintro w u e w' out rfl hstep
    exact ⟨_,.work e (.replicate 8 0) false (e.reads.map fun a => (i,ackBytes a)),
      Session.react_work hstep _ _ i d.address,rfl,fun h => h,rfl⟩
  accepts := by
    rintro k v pack k' out ⟨phase,hphase,rfl⟩ haccept
    exact ⟨_,⟨_,.receiving,rfl⟩,fun P F hi => d.accept_run hphase haccept p hi F⟩

variable {d} {x : NetworkState ι (Process ι) (List UInt8)} {file : List UInt8}

theorem ask_run {P : ι → Option (Process ι)} {F : Multiset (Datagram ι (List UInt8))}
    (hi : P i = some (.client c)) {ntry ntrys : ℕ} (hphase : c.phase = .asking ntry ntrys)
    (hserver : c.server = d.address) {pack : Packet}
    (hpack : Client.request d.order c.filename = some pack) :
    d.network.RunWhere Session.Calm ⟨P,F⟩
      ⟨Function.update P i (some (.client { c with phase := .awaiting (ntry + 1) })),
        ⟨i,d.address,packetBytes pack⟩ ::ₘ F⟩ := by
  have hstep : c.step d.order (.request true) =
      some ({ c with phase := .awaiting (ntry + 1) },[(d.address,packetBytes pack)]) := by
    simp [Client.step,hphase,hpack,hserver]
  have hasked := Network.RunWhere.act_silent d.network (F := F) (L := Session.Calm)
    (e := .client (.request true)) rfl hi rfl (Session.react_client hstep d.address)
  rwa [List.map_singleton,Multiset.coe_singleton,add_comm F,Multiset.singleton_add] at hasked

theorem fork_run {P : ι → Option (Process ι)} {F : Multiset (Datagram ι (List UInt8))}
    (hlisten : P d.address = some (.listener d.server true)) {filename : ByteString}
    {pack : Packet} (hpack : Client.request d.order filename = some pack)
    (hfile : d.requested filename = some file) (hp : P p = none) (i : ι) :
    d.network.RunWhere Session.Calm ⟨P,⟨i,d.address,packetBytes pack⟩ ::ₘ F⟩
      ⟨Function.update P p (some (.child i
        (.start d.server.type d.server.dupAcks d.server.slideWindow (feederAt file 0)))),F⟩ := by
  let e : SessionEvent ι := .listen (.replicate 520 0) (some (i,packetBytes pack)) (some p)
  let child : Process ι := .child i
    (.start d.server.type d.server.dupAcks d.server.slideWindow (feederAt file 0))
  have hreact : d.network.react (.listener d.server true) e =
      some ⟨.listener d.server true,List.nil,some (p,child)⟩ := by
    simp [Session.network,Session.react,Session.listen,receivePacketOrExit_packetBytes,
      readFile_requested hpack hfile,child,e]
  have hcalm : Session.Calm (.act d.address e) := ⟨rfl,rfl⟩
  have hforked : d.network.Step (.act d.address e) ⟨P,d.network.incoming d.address e + F⟩ ⟨_,_⟩ :=
    .act hlisten hreact (by
      rintro q ⟨⟩
      exact hp)
  have hsame : Function.update P d.address (some (.listener d.server true)) = P := by
    rw [← hlisten,Function.update_eq_self]
  have hrun : d.network.RunWhere Session.Calm _ _ := .single ⟨_,hcalm,hforked⟩
  simpa [Network.placed,Network.incoming,Network.outgoing,hsame,e,Session.network,Session.reads,
    child] using hrun

theorem open_run (hlisten : x.parties d.address = some (.listener d.server true))
    (hi : x.parties i = some (.client c)) {ntry ntrys : ℕ} (hphase : c.phase = .asking ntry ntrys)
    (hserver : c.server = d.address) (hfile : d.requested c.filename = some file)
    (hp : x.parties p = none) :
    ∃ y, d.network.RunWhere Session.Calm x y ∧
      (d.host p i c).Stands x.parties x.flight
        ⟨.start d.server.type d.server.dupAcks d.server.slideWindow (feederAt file 0),
          .start c.type c.recvWindow,0,0⟩ y := by
  obtain ⟨P,F⟩ := x
  dsimp only at hlisten hi hp ⊢
  obtain ⟨pack,hpack,-⟩ := Option.bind_eq_some_iff.mp hfile
  have hia : d.address ≠ i := by
    rintro rfl
    rw [hlisten] at hi
    simp at hi
  have hpi : p ≠ i := by
    rintro rfl
    rw [hi] at hp
    contradiction
  let asked : Client ι := { c with phase := .awaiting (ntry + 1) }
  have hforked := fork_run (d := d) (F := F) ((Function.update_of_ne hia _ _).trans hlisten) hpack
    hfile ((Function.update_of_ne hpi (some (.client asked)) P).trans hp) i
  refine ⟨_,(ask_run hi hphase hserver hpack).trans hforked,⟨_,Function.update_self _ _ _,rfl⟩,
    ⟨.client asked,?_,_,.awaiting rfl,rfl⟩,fun j hjp hji => ?_,?_⟩
  · exact (Function.update_of_ne hpi.symm _ _).trans (Function.update_self _ _ _)
  · exact (Function.update_of_ne hjp _ _).trans (Function.update_of_ne hji _ _)
  · simp

theorem host_returned {P : ι → Option (Process ι)} {F : Multiset (Datagram ι (List UInt8))}
    {z : LinkState ServerWorker ClientWorker Packet AckPacket} (hx : (d.host p i c).Stands P F z x)
    (hret : z.client.returned = true) :
    x.parties i = some (.client { c with phase := .receiving z.client none }) := by
  obtain ⟨_,hclient,phase,hruns,rfl⟩ := hx.client
  cases hruns with
  | awaiting hstart =>
    rw [hstart,ClientWorker.start_returned] at hret
    contradiction
  | receiving => exact hclient

theorem Reaches.server_eq (hx : d.Reaches x) (hi : x.parties i = some (.client c)) :
    c.server = d.address := by
  cases hx.holds.1.party i _ hi with
  | client hne hserver => exact hserver

def smallDisk (file : List UInt8) (path : ByteString) : Option DiskFile :=
  if path = [97] then some ⟨file.length,file⟩ else none

theorem smallDisk_eq {file : List UInt8} {path : ByteString} {found : DiskFile}
    (h : smallDisk file path = some found) : found = ⟨file.length,file⟩ := by
  unfold smallDisk at h
  split at h
  · exact (Option.some.inj h).symm
  · contradiction

/-- The server at `address` has one file, and the client at `i` is going to ask for it. -/
def offering {address i : ι} (hne : address ≠ i) (file : List UInt8)
    (hfile : numSegments file < 2^32 - 1) (server client : ProtoType) (window : UInt32) :
    Deployment ι where
  order := .little
  address := address
  server := ⟨server,window,List.nil,smallDisk file⟩
  clients j := if j = i then some ⟨client,[97],address,window,.asking 0 0⟩ else none
  apart := if_neg hne
  asking j c hc := by
    split at hc
    · obtain rfl := Option.some.inj hc
      exact ⟨rfl,rfl⟩
    · contradiction
  honest path found hfound := by rw [smallDisk_eq hfound]
  small path found hfound := by
    rw [smallDisk_eq hfound]
    exact hfile

theorem offering_client {address j : ι} (hne : address ≠ i) {file : List UInt8}
    (hfile : numSegments file < 2^32 - 1) {server client : ProtoType} {window : UInt32}
    (hj : (offering hne file hfile server client window).clients j = some c) :
    c = ⟨client,[97],address,window,.asking 0 0⟩ := by
  change (if j = i then some _ else none) = some c at hj
  split at hj
  · exact (Option.some.inj hj).symm
  · contradiction

theorem offering_requested {address : ι} (hne : address ≠ i) {file : List UInt8}
    (hfile : numSegments file < 2^32 - 1) (server client : ProtoType) (window : UInt32) :
    (offering hne file hfile server client window).requested [97] = some file := by
  rw [requested,request_of_le _ (by decide)]
  simp only [Option.bind_eq_bind,Option.bind_some]
  rw [path_of_le _ (by decide)]
  rfl

/-- A file of one byte, offered at 0 to the client at 1. -/
def single (server client : ProtoType) (window : UInt32) : Deployment ℕ :=
  offering Nat.zero_ne_one [7] (by decide) server client window

theorem single_requested (server client : ProtoType) (window : UInt32) :
    (single server client window).requested [97] = some [7] :=
  offering_requested Nat.zero_ne_one _ server client window

theorem single_modest : Modest [7] 2 2 := by
  constructor <;> decide

/-- From every state of a session: a client that is about to ask can get its file without losses,
whatever protocols the two ends run, and everybody and everything else stays as it is. -/
theorem complete_run (hx : d.Reaches x)
    (hlisten : x.parties d.address = some (.listener d.server true))
    (hi : x.parties i = some (.client c)) {ntry ntrys : ℕ} (hphase : c.phase = .asking ntry ntrys)
    (hfile : d.requested c.filename = some file) (hp : x.parties p = none)
    (hsize : Modest file d.server.slideWindow c.recvWindow) :
    ∃ y s k, d.network.RunWhere Session.Calm x y ∧
      (d.host p i c).Stands x.parties x.flight ⟨s,k,0,0⟩ y ∧ s.Succeeded ∧
      k.Complete d.order file := by
  have hne : p ≠ i := by
    rintro rfl
    rw [hi] at hp
    contradiction
  obtain ⟨y₁,hopened,hy₁⟩ := open_run hlisten hi hphase (hx.server_eq hi) hfile hp
  obtain ⟨s,k,hrun,hs,hk⟩ := pair_complete d.order d.server.type c.type d.server.dupAcks hsize 0 0
  obtain ⟨y,hlifted,hy⟩ := hy₁.calmRun hne hrun
  exact ⟨y,s,k,hopened.trans hlifted,hy,hs,hk⟩

/-- From every state of a session, a client that is about to ask can get its file without losses and
its server can end, whatever protocols the two run. Nobody else notices. -/
theorem transfer_completes (hx : d.Reaches x)
    (hlisten : x.parties d.address = some (.listener d.server true))
    (hi : x.parties i = some (.client c)) {ntry ntrys : ℕ} (hphase : c.phase = .asking ntry ntrys)
    (hfile : d.requested c.filename = some file) (hp : x.parties p = none)
    (hsize : Modest file d.server.slideWindow c.recvWindow) :
    ∃ y, d.network.RunWhere Session.Calm x y ∧ y.flight = x.flight ∧
      (∀ j, j ≠ p → j ≠ i → y.parties j = x.parties j) ∧
      (∃ s, y.parties p = some (.child i s) ∧ s.Succeeded) ∧
      ∃ k, y.parties i = some (.client { c with phase := .receiving k none }) ∧
        k.returned = true ∧ k.sink.writer.written = file := by
  obtain ⟨y,s,k,hrun,hy,hs,hk⟩ := complete_run hx hlisten hi hphase hfile hp hsize
  have hret := hk.returned (requested_small hfile)
  obtain ⟨_,hchild,rfl⟩ := hy.server
  refine ⟨y,hrun,?_,hy.others,⟨s,hchild,hs⟩,k,host_returned hy hret,hret,
    hk.holds.written_all hret⟩
  rw [hy.flight]
  simp

theorem transfer_completes_single : ∃ y k,
    (single .goBackN .selectiveRepeatCC 2).network.RunWhere Session.Calm
      (single .goBackN .selectiveRepeatCC 2).start y ∧
    y.parties 1 = some (.client ⟨.selectiveRepeatCC,[97],0,2,.receiving k none⟩) ∧
    k.returned = true ∧ k.sink.writer.written = [7] := by
  obtain ⟨y,hrun,-,-,-,k,hk⟩ := transfer_completes (d := single .goBackN .selectiveRepeatCC 2)
    (i := 1) (p := 2) (c := ⟨.selectiveRepeatCC,[97],0,2,.asking 0 0⟩) .refl rfl rfl rfl
    (single_requested _ _ _) rfl single_modest
  exact ⟨y,k,hrun,hk⟩

end Deployment

end ReliableTransfer
