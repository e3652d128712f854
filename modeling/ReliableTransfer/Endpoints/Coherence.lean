import ReliableTransfer.Endpoints.Session
import ReliableTransfer.Workers.Clients
import ReliableTransfer.Workers.Servers

/-!
# What holds in every session

However many children serve a client and whatever else goes on, all that reaches it belongs to the
file it has asked for, and all it says to a child is true. So the client has got what the child
holds for acknowledged, unless the child takes an acknowledgement for more than the client says.
-/

namespace ReliableTransfer

open Framework

variable {ι : Type}

namespace Client

inductive Stepped (order : ByteOrder) (c : Client ι) :
    ClientEvent ι → Client ι → List (ι × List UInt8) → Prop
  | requested {ntry ntrys pack} : c.phase = .asking ntry ntrys →
      Client.request order c.filename = some pack →
      Stepped order c (.request true) { c with phase := .awaiting (ntry + 1) }
        [(c.server,packetBytes pack)]
  | unsent {ntry ntrys phase} : c.phase = .asking ntry ntrys →
      (phase = .asking ntry (ntrys + 1) ∨ phase = .gaveUp) →
      Stepped order c (.request false) { c with phase := phase } List.nil
  | silence {ntry phase} : c.phase = .awaiting ntry →
      (ntry < retries ∧ phase = .asking ntry 0 ∨ phase = .gaveUp) →
      Stepped order c .noResponse { c with phase := phase } List.nil
  | peeked {ntry src bytes} : c.phase = .awaiting ntry →
      Stepped order c (.peek src bytes)
        { c with phase := .receiving (.start c.type c.recvWindow) (some (src,bytes)) } List.nil
  /-- A pass of the loop in `recv_message`. -/
  | passed {worker worker' peeked e buff wouldBlock arrival out} :
      c.phase = .receiving worker peeked →
      (peeked = arrival ∧ e = .receivePeeked buff wouldBlock ∨
        peeked = none ∧ e = .receive buff wouldBlock arrival) →
      worker.pass order buff wouldBlock arrival = some (worker',out) →
      Stepped order c e { c with phase := .receiving worker' none } out

variable {order : ByteOrder} {c c' : Client ι} {e : ClientEvent ι} {out : List (ι × List UInt8)}

theorem step_stepped (h : c.step order e = some (c',out)) : Stepped order c e c' out := by
  unfold step at h
  split at h
  · next ntry ntrys sent hphase =>
    obtain ⟨pack,hpack,h⟩ := Option.bind_eq_some_iff.mp h
    cases sent with
    | true =>
      obtain ⟨rfl,rfl⟩ := Prod.mk.inj (Option.some.inj h)
      exact .requested hphase hpack
    | false =>
      rw [if_neg Bool.false_ne_true] at h
      split at h
      · obtain ⟨rfl,rfl⟩ := Prod.mk.inj (Option.some.inj h)
        exact .unsent hphase (Or.inl rfl)
      · obtain ⟨rfl,rfl⟩ := Prod.mk.inj (Option.some.inj h)
        exact .unsent hphase (Or.inr rfl)
  · next ntry hphase =>
    obtain ⟨rfl,rfl⟩ := Prod.mk.inj (Option.some.inj h)
    refine .silence hphase ?_
    split
    · next hlt => exact Or.inl ⟨hlt,rfl⟩
    · exact Or.inr rfl
  · next ntry src bytes hphase =>
    obtain ⟨rfl,rfl⟩ := Prod.mk.inj (Option.some.inj h)
    exact .peeked hphase
  · next worker d buff wouldBlock hphase =>
    obtain ⟨⟨worker',out'⟩,hpass,heq⟩ := Option.map_eq_some_iff.mp h
    obtain ⟨rfl,rfl⟩ := Prod.mk.inj heq
    exact .passed hphase (Or.inl ⟨rfl,rfl⟩) hpass
  · next worker buff wouldBlock arrival hphase =>
    obtain ⟨⟨worker',out'⟩,hpass,heq⟩ := Option.map_eq_some_iff.mp h
    obtain ⟨rfl,rfl⟩ := Prod.mk.inj heq
    exact .passed hphase (Or.inr ⟨rfl,rfl⟩) hpass
  · contradiction

def copy (c : Client ι) : Copy Packet :=
  match c.phase with
  | .receiving worker _ => worker.copy
  | _ => .empty

def Got (file : List UInt8) (c : Client ι) (n : UInt32) : Prop :=
  match c.phase with
  | .receiving worker _ => worker.Got file n
  | _ => False

end Client

namespace Session

variable {order : ByteOrder} {server : Server} {buff : Vector UInt8 520}
  {arrival : Option (ι × List UInt8)} {port : Option ι}
  {o : Outcome ι (Process ι) (List UInt8)}

theorem listen_cases (h : listen server buff arrival port = some o) :
    (∃ running, o = ⟨.listener server running,List.nil,none⟩) ∨
    ∃ src bytes pck at_ feeder, arrival = some (src,bytes) ∧
      receivePacketOrExit buff (some bytes) = some pck ∧
      Server.readFile server.disk pck = some (true,feeder) ∧
      o = ⟨.listener server true,List.nil,some (at_,.child src
        (.start server.type server.dupAcks server.slideWindow feeder))⟩ := by
  unfold listen at h
  split at h
  · next src bytes pck at_ hpck =>
    obtain ⟨⟨found,feeder⟩,hread,rfl⟩ := Option.map_eq_some_iff.mp h
    cases found with
    | true => exact Or.inr ⟨src,bytes,pck,at_,feeder,rfl,hpck,hread,rfl⟩
    | false => exact Or.inl ⟨true,rfl⟩
  · exact Or.inl ⟨true,(Option.some.inj h).symm⟩
  · exact Or.inl ⟨false,(Option.some.inj h).symm⟩

end Session

namespace ProtoType

/-- The client of this protocol takes packets in order. -/
def InOrder (c : ProtoType) : Prop := c = .waitAndStop ∨ c = .goBackN

/-- What an acknowledgement of packet `n` by a client of this type says about packet `m`. -/
def Vouches (c : ProtoType) (n m : UInt32) : Prop := m = n ∨ (c.InOrder ∧ m ≤ n)

/-- A server of type `s` takes acknowledgements for no more than a client of type `c` says. -/
def Heeds (s c : ProtoType) : Prop := s = .goBackN → c.InOrder

instance (c : ProtoType) : Decidable c.InOrder := inferInstanceAs (Decidable (_ ∨ _))

instance (s c : ProtoType) : Decidable (s.Heeds c) := inferInstanceAs (Decidable (_ → _))

end ProtoType

theorem ClientWorker.got_of_vouches {file : List UInt8} {k : ClientWorker} {n m : UInt32}
    (hn : k.Got file n) (hm : k.type.Vouches n m) : k.Got file m := by
  rcases hm with rfl | ⟨horder,hle⟩
  · exact hn
  · cases k with
    | stopWait c => exact (UInt32.le_iff_toNat_le.mp hle).trans_lt hn
    | goBackN c => exact (UInt32.le_iff_toNat_le.mp hle).trans_lt hn
    | selectiveRepeat window c => simp [type,ProtoType.InOrder] at horder
    | selectiveRepeatCC window c => simp [type,ProtoType.InOrder] at horder

theorem ServerWorker.vouches_of_credits {c : ProtoType} {w : ServerWorker} (h : w.type.Heeds c)
    {a : AckPacket} {n : UInt32} (hn : w.Credits a n) : c.Vouches a.ackno n := by
  cases w with
  | stopWait s => exact Or.inl hn
  | goBackN window s => exact Or.inr ⟨h rfl,hn⟩
  | selectiveRepeat s => exact Or.inl hn
  | selectiveRepeatCC s => exact Or.inl hn

namespace Deployment

variable (d : Deployment ι)

structure Onward (c c' : Client ι) : Prop where
  type : c'.type = c.type
  filename : c'.filename = c.filename
  server : c'.server = c.server
  recvWindow : c'.recvWindow = c.recvWindow
  got : ∀ file, d.requested c.filename = some file → ∀ n, c.Got file n → c'.Got file n
  copy : ∀ file, d.requested c.filename = some file →
    Copy.Run (filePackets d.order file 0 (numSegments file)) c.copy c'.copy

inductive Grows : Process ι → Process ι → Prop
  | listener {s r r'} : Grows (.listener s r) (.listener s r')
  | child {i w w'} : w'.type = w.type → Grows (.child i w) (.child i w')
  | client {c c'} : d.Onward c c' → Grows (.client c) (.client c')

/-- What is in flight: requests for the listener, what a child sends to its client, and what the
client answers. -/
inductive Carries (P : ι → Option (Process ι)) : Datagram ι (List UInt8) → Prop
  | request {i c pack} : P i = some (.client c) → Client.request d.order c.filename = some pack →
      Carries P ⟨i,d.address,packetBytes pack⟩
  | data {p i c w file pack} : P i = some (.client c) → P p = some (.child i w) →
      d.requested c.filename = some file → ClientWorker.Genuine d.order file pack →
      Carries P ⟨p,i,packetBytes pack⟩
  | ack {p i c w file pack} : P i = some (.client c) → P p = some (.child i w) →
      d.requested c.filename = some file →
      (verifyChecksumAck pack = true →
        ∃ n, pack = createAckPacket n ∧ ∀ m, c.type.Vouches n m → c.Got file m) →
      Carries P ⟨i,p,ackBytes pack⟩

/-- What holds of a process at `i`. -/
inductive Fits (P : ι → Option (Process ι)) (i : ι) : Process ι → Prop
  | listener {running} : i = d.address → Fits P i (.listener d.server running)
  | child {j c w file} : i ≠ d.address → P j = some (.client c) →
      d.requested c.filename = some file → w.type = d.server.type → w.Good d.order file →
      (d.server.type.Heeds c.type → ∀ n, w.Acked n → c.Got file n) → Fits P i (.child j w)
  | client {c} : i ≠ d.address → c.server = d.address →
      (∀ worker peeked, c.phase = .receiving worker peeked → worker.type = c.type ∧
        (∃ file, d.requested c.filename = some file ∧ worker.Holds d.order file) ∧
        ∀ p ∈ peeked, d.Carries P ⟨p.1,i,p.2⟩) → Fits P i (.client c)

def claim : Network.Claim ι (Process ι) (List UInt8) := ⟨d.Fits,d.Carries⟩

variable {d}

theorem Onward.refl (c : Client ι) : d.Onward c c :=
  ⟨rfl,rfl,rfl,rfl,fun _ _ _ h => h,fun _ _ => .refl⟩

theorem Onward.trans {c c' c'' : Client ι} (h : d.Onward c c') (h' : d.Onward c' c'') :
    d.Onward c c'' where
  type := h'.type.trans h.type
  filename := h'.filename.trans h.filename
  server := h'.server.trans h.server
  recvWindow := h'.recvWindow.trans h.recvWindow
  got file hfile n hn := h'.got file (h.filename ▸ hfile) n (h.got file hfile n hn)
  copy file hfile := (h.copy file hfile).trans (h'.copy file (h.filename ▸ hfile))

theorem Grows.refl (p : Process ι) : d.Grows p p := by
  cases p with
  | listener s r => exact .listener
  | child i w => exact .child rfl
  | client c => exact .client (.refl c)

theorem Grows.trans {p q r : Process ι} (h : d.Grows p q) (h' : d.Grows q r) : d.Grows p r := by
  cases h with
  | listener =>
    cases h' with
    | listener => exact .listener
  | child htype =>
    cases h' with
    | child htype' => exact .child (htype'.trans htype)
  | client hc =>
    cases h' with
    | client hc' => exact .client (hc.trans hc')

section Later

variable {P Q : ι → Option (Process ι)} (h : Network.Later d.Grows P Q)

include h

theorem later_client {i : ι} {c : Client ι} (hi : P i = some (.client c)) :
    ∃ c', Q i = some (.client c') ∧ d.Onward c c' := by
  obtain ⟨q,hq,hgrows⟩ := h i _ hi
  cases hgrows with
  | client hc => exact ⟨_,hq,hc⟩

theorem later_child {p i : ι} {w : ServerWorker} (hp : P p = some (.child i w)) :
    ∃ w', Q p = some (.child i w') ∧ w'.type = w.type := by
  obtain ⟨q,hq,hgrows⟩ := h p _ hp
  cases hgrows with
  | child htype => exact ⟨_,hq,htype⟩

theorem Carries.later {x : Datagram ι (List UInt8)} (hx : d.Carries P x) : d.Carries Q x := by
  cases hx with
  | request hi hpack =>
    obtain ⟨c',hi',hc⟩ := later_client h hi
    exact .request hi' (hc.filename ▸ hpack)
  | data hi hp hfile hgenuine =>
    obtain ⟨c',hi',hc⟩ := later_client h hi
    obtain ⟨w',hp',-⟩ := later_child h hp
    exact .data hi' hp' (hc.filename ▸ hfile) hgenuine
  | ack hi hp hfile hack =>
    obtain ⟨c',hi',hc⟩ := later_client h hi
    obtain ⟨w',hp',-⟩ := later_child h hp
    refine .ack hi' hp' (hc.filename ▸ hfile) fun hsum => ?_
    obtain ⟨n,hpack,hn⟩ := hack hsum
    exact ⟨n,hpack,fun m hm => hc.got _ hfile m (hn m (hc.type ▸ hm))⟩

theorem Fits.later {i : ι} {p : Process ι} (hp : d.Fits P i p) : d.Fits Q i p := by
  cases hp with
  | listener hi => exact .listener hi
  | child hne hj hfile htype hgood hacked =>
    obtain ⟨c',hj',hc⟩ := later_client h hj
    refine .child hne hj' (hc.filename ▸ hfile) htype hgood fun hheeds n hn => ?_
    exact hc.got _ hfile n (hacked (hc.type ▸ hheeds) n hn)
  | client hne hserver hphase =>
    refine .client hne hserver fun worker peeked heq => ?_
    obtain ⟨htype,hholds,hpeeked⟩ := hphase worker peeked heq
    exact ⟨htype,hholds,fun p hp => (hpeeked p hp).later h⟩

end Later

section Carries

variable {P : ι → Option (Process ι)} {src i : ι} {bytes : List UInt8}

theorem packetBytes_length (pack : Packet) : (packetBytes pack).length = 520 := Vector.length_toList

theorem ackBytes_length (pack : AckPacket) : (ackBytes pack).length = 8 := Vector.length_toList

theorem Carries.to_listener (h : d.Carries P ⟨src,i,bytes⟩) {s : Server} {running : Bool}
    (hi : P i = some (.listener s running)) : ∃ c pack, P src = some (.client c) ∧
      Client.request d.order c.filename = some pack ∧ bytes = packetBytes pack := by
  cases h with
  | request hc hpack => exact ⟨_,_,hc,hpack,rfl⟩
  | data hc => simp [hi] at hc
  | ack hc hp => simp [hi] at hp

theorem Carries.to_client (h : d.Carries P ⟨src,i,bytes⟩) (hne : i ≠ d.address) {c : Client ι}
    (hi : P i = some (.client c)) : ∃ w file pack, P src = some (.child i w) ∧
      d.requested c.filename = some file ∧ ClientWorker.Genuine d.order file pack ∧
      bytes = packetBytes pack := by
  cases h with
  | request => exact absurd rfl hne
  | data hc hp hfile hgenuine =>
    obtain rfl := Process.client.inj (Option.some.inj (hi.symm.trans hc))
    exact ⟨_,_,_,hp,hfile,hgenuine,rfl⟩
  | ack hc hp => simp [hi] at hp

theorem Carries.to_child (h : d.Carries P ⟨src,i,bytes⟩) (hne : i ≠ d.address) {j : ι}
    {w : ServerWorker} (hi : P i = some (.child j w)) :
    src = j ∧ ∃ c file pack, P j = some (.client c) ∧ d.requested c.filename = some file ∧
      bytes = ackBytes pack ∧ (verifyChecksumAck pack = true →
        ∃ n, pack = createAckPacket n ∧ ∀ m, c.type.Vouches n m → c.Got file m) := by
  cases h with
  | request => exact absurd rfl hne
  | data hc => simp [hi] at hc
  | ack hc hp hfile hack =>
    obtain ⟨rfl,-⟩ := Process.child.inj (Option.some.inj (hi.symm.trans hp))
    exact ⟨rfl,_,_,_,hc,hfile,rfl,hack⟩

theorem Carries.garbled {x x' : Datagram ι (List UInt8)} (h : d.Carries P x)
    (halters : Session.Garbled d.order d.address x x') : d.Carries P x' := by
  cases halters with
  | @data src dst pack pack' hne hsum =>
    generalize hbytes : packetBytes pack = bytes at h
    cases h with
    | request => exact absurd rfl hne
    | data hc hp hfile =>
      exact .data hc hp hfile fun hsum' => by simp [hsum] at hsum'
    | ack =>
      have hlen := congrArg List.length hbytes
      simp [packetBytes_length,ackBytes_length] at hlen
  | @ack src dst pack pack' hne hsum =>
    generalize hbytes : ackBytes pack = bytes at h
    cases h with
    | request => exact absurd rfl hne
    | data =>
      have hlen := congrArg List.length hbytes
      simp [packetBytes_length,ackBytes_length] at hlen
    | ack hc hp hfile =>
      exact .ack hc hp hfile fun hsum' => by simp [hsum] at hsum'

end Carries

theorem requested_small {filename : ByteString} {file : List UInt8}
    (h : d.requested filename = some file) : numSegments file + 1 < 2^32 := by
  obtain ⟨pck,-,h⟩ := Option.bind_eq_some_iff.mp h
  obtain ⟨path,-,h⟩ := Option.bind_eq_some_iff.mp h
  obtain ⟨disk,hdisk,h⟩ := Option.bind_eq_some_iff.mp h
  obtain rfl := Option.some.inj h
  have hsmall := d.small path disk hdisk
  omega

theorem requested_readFile {filename : ByteString} {pck : Packet} {feeder : DataFeeder}
    (hpck : Client.request d.order filename = some pck)
    (hread : Server.readFile d.server.disk pck = some (true,feeder)) :
    ∃ file, d.requested filename = some file ∧ feeder = feederAt file 0 := by
  obtain ⟨filePath,hpath,hread⟩ := Option.map_eq_some_iff.mp hread
  cases hdisk : d.server.disk (cString filePath) with
  | none => simp [DataFeeder.readFile,hdisk] at hread
  | some disk =>
    have hfile : d.server.disk (cString filePath) = some ⟨disk.readable.length,disk.readable⟩ := by
      rw [hdisk,← d.honest _ _ hdisk]
    rw [readFile_feederAt _ _ _ hfile] at hread
    refine ⟨disk.readable,?_,(Prod.mk.inj hread).2.symm⟩
    simp [requested,hpck,Server.path,hpath,hdisk]

theorem readFile_requested {filename : ByteString} {pck : Packet} {file : List UInt8}
    (hpck : Client.request d.order filename = some pck) (h : d.requested filename = some file) :
    Server.readFile d.server.disk pck = some (true,feederAt file 0) := by
  obtain ⟨pck',hpck',h⟩ := Option.bind_eq_some_iff.mp h
  obtain rfl := Option.some.inj (hpck.symm.trans hpck')
  obtain ⟨path,hpath,h⟩ := Option.bind_eq_some_iff.mp h
  obtain ⟨disk,hdisk,h⟩ := Option.bind_eq_some_iff.mp h
  obtain rfl := Option.some.inj h
  obtain ⟨filePath,hbuffer,rfl⟩ := Option.map_eq_some_iff.mp hpath
  have hfile : d.server.disk (cString filePath) = some ⟨disk.readable.length,disk.readable⟩ := by
    rw [hdisk,← d.honest _ _ hdisk]
  rw [Server.readFile,hbuffer,Option.map_some,readFile_feederAt _ _ _ hfile]

theorem receivePacket_packetBytes (buff : Vector UInt8 520) (wouldBlock : Bool) (pack : Packet) :
    (receivePacket buff wouldBlock (some (packetBytes pack))).recv = .ok pack :=
  receivePacket_serialized buff wouldBlock pack

theorem receiveAckPacket_ackBytes (buff : Vector UInt8 8) (wouldBlock : Bool) (pack : AckPacket) :
    (receiveAckPacket buff wouldBlock (some (ackBytes pack))).recv = .ok pack :=
  receiveAckPacket_serialized buff wouldBlock pack

theorem packetBytes_injective : Function.Injective packetBytes := by
  intro pack pack' h
  have hpack := receivePacket_packetBytes (.replicate 520 0) false pack
  rw [h,receivePacket_packetBytes] at hpack
  exact (Recv.ok.inj hpack).symm

theorem ackBytes_injective : Function.Injective ackBytes := by
  intro pack pack' h
  have hpack := receiveAckPacket_ackBytes (.replicate 8 0) false pack
  rw [h,receiveAckPacket_ackBytes] at hpack
  exact (Recv.ok.inj hpack).symm

theorem receivePacketOrExit_packetBytes (buff : Vector UInt8 520) (pack : Packet) :
    receivePacketOrExit buff (some (packetBytes pack)) = some pack := by
  have hlen : 1 ≤ (packetBytes pack).length := by
    rw [packetBytes_length]
    decide
  have hframe := overwrite_frame buff (serializePacket pack) List.nil
  rw [List.append_nil] at hframe
  rw [receivePacketOrExit_datagram buff hlen,packetBytes,hframe,deserialize_serializePacket]

theorem receivePacket_nothing (buff : Vector UInt8 520) (wouldBlock : Bool) (packet : Packet) :
    (receivePacket buff wouldBlock none).recv ≠ .ok packet := by
  cases wouldBlock <;> simp [receivePacket,receive,recvfrom,Reception.recv]

section Pass

variable {order : ByteOrder} {file : List UInt8} {worker worker' : ClientWorker}
  {arrival : Option (ι × List UInt8)}

theorem recv_genuine
    (harrival : ∀ p ∈ arrival, ∃ pack, p.2 = packetBytes pack ∧ ClientWorker.Genuine order file pack)
    (buff : Vector UInt8 520) (wouldBlock : Bool) (packet : Packet)
    (h : (receivePacket buff wouldBlock (arrival.map Prod.snd)).recv = .ok packet) :
    ClientWorker.Genuine order file packet := by
  cases arrival with
  | none => exact absurd h (receivePacket_nothing buff wouldBlock packet)
  | some p =>
    obtain ⟨pack,hbytes,hgenuine⟩ := harrival p rfl
    rw [Option.map_some,hbytes,receivePacket_packetBytes] at h
    exact Recv.ok.inj h ▸ hgenuine

theorem pass_defined (hk : worker.Holds order file) (hfile : numSegments file + 1 < 2^32)
    (hret : worker.returned = false)
    (harrival : ∀ p ∈ arrival, ∃ pack, p.2 = packetBytes pack ∧ ClientWorker.Genuine order file pack)
    (buff : Vector UInt8 520) (wouldBlock : Bool) :
    ∃ worker' out, worker.pass order buff wouldBlock arrival = some (worker',out) := by
  obtain ⟨worker',acks,hrun,-⟩ := hk.advance hret hfile (recv_genuine harrival buff wouldBlock)
  simp [ClientWorker.pass,hret,hrun]

theorem pass_advance (hk : worker.Holds order file) (hfile : numSegments file + 1 < 2^32)
    {buff : Vector UInt8 520} {wouldBlock : Bool} {out : List (ι × List UInt8)}
    (harrival : ∀ p ∈ arrival, ∃ pack, p.2 = packetBytes pack ∧ ClientWorker.Genuine order file pack)
    (h : worker.pass order buff wouldBlock arrival = some (worker',out)) :
    worker.returned = false ∧ ∃ acks, ClientWorker.Advance order file worker worker' acks ∧
      ∀ x ∈ out, ∃ p ∈ arrival, ∃ a ∈ acks, x = (p.1,ackBytes a) := by
  unfold ClientWorker.pass at h
  split at h
  · contradiction
  · next hret =>
    rw [Bool.not_eq_true] at hret
    obtain ⟨k',acks,hrun,hadvance⟩ := hk.advance hret hfile (recv_genuine harrival buff wouldBlock)
    obtain ⟨⟨k₁,acks₁⟩,hrun',heq⟩ := Option.map_eq_some_iff.mp h
    obtain ⟨rfl,rfl⟩ := Prod.mk.inj (Option.some.inj (hrun.symm.trans hrun'))
    obtain ⟨rfl,rfl⟩ := Prod.mk.inj heq
    refine ⟨hret,acks,hadvance,fun x hx => ?_⟩
    obtain ⟨a,ha,hx⟩ := List.mem_flatMap.mp hx
    rw [Option.mem_toList] at hx
    obtain ⟨p,hp,rfl⟩ := Option.map_eq_some_iff.mp hx
    exact ⟨p,hp,a,ha,rfl⟩

end Pass

theorem start_copy (type : ProtoType) (window : UInt32) :
    (ClientWorker.start type window).copy = .empty := by
  cases type <;> rfl

section Kept

variable {P Q : ι → Option (Process ι)} {i : ι}

theorem arrival_genuine {c : Client ι} (hne : i ≠ d.address) (hi : P i = some (.client c))
    {file : List UInt8} (hfile : d.requested c.filename = some file) {p : ι × List UInt8}
    (hp : d.Carries P ⟨p.1,i,p.2⟩) : (∃ w, P p.1 = some (.child i w)) ∧
      ∃ pack, p.2 = packetBytes pack ∧ ClientWorker.Genuine d.order file pack := by
  obtain ⟨w,file',pack,hw,hfile',hgenuine,hbytes⟩ := hp.to_client hne hi
  obtain rfl := Option.some.inj (hfile'.symm.trans hfile)
  exact ⟨⟨w,hw⟩,pack,hbytes,hgenuine⟩

/-- The datagram a pass of `recv_message` gets was read before, or is read now. -/
theorem passed_arrival {c : Client ι} {e : ClientEvent ι} {buff : Vector UInt8 520}
    {wouldBlock : Bool} {worker : ClientWorker} {peeked arrival : Option (ι × List UInt8)}
    (hfits : d.Fits P i (.client c)) (hphase : c.phase = .receiving worker peeked)
    (hread : ∀ x, Session.reads (.client e) = some x → d.Carries P ⟨x.1,i,x.2⟩)
    (he : peeked = arrival ∧ e = .receivePeeked buff wouldBlock ∨
      peeked = none ∧ e = .receive buff wouldBlock arrival) :
    ∀ p ∈ arrival, d.Carries P ⟨p.1,i,p.2⟩ := by
  intro p hp
  cases hfits with
  | client hne hserver hall =>
    rcases he with ⟨rfl,rfl⟩ | ⟨rfl,rfl⟩
    · exact (hall worker peeked hphase).2.2 p hp
    · exact hread p hp

theorem Onward.of_asking {c : Client ι} {phase : ClientPhase ι}
    (hcopy : c.copy = .empty) (hgot : ∀ file n, ¬c.Got file n)
    (hcopy' : Client.copy { c with phase := phase } = .empty) :
    d.Onward c { c with phase := phase } :=
  ⟨rfl,rfl,rfl,rfl,fun file _ n hn => absurd hn (hgot file n),fun file _ => by
    rw [hcopy,hcopy']
    exact .refl⟩

theorem client_onward {c c' : Client ι} {e : ClientEvent ι} {out : List (ι × List UInt8)}
    (hi : P i = some (.client c)) (hfits : d.Fits P i (.client c))
    (hread : ∀ x, Session.reads (.client e) = some x → d.Carries P ⟨x.1,i,x.2⟩)
    (h : c.step d.order e = some (c',out)) : d.Onward c c' := by
  cases Client.step_stepped h with
  | requested hphase =>
    exact .of_asking (by simp [Client.copy,hphase]) (by simp [Client.Got,hphase]) rfl
  | unsent hphase hnext =>
    refine .of_asking (by simp [Client.copy,hphase]) (by simp [Client.Got,hphase]) ?_
    rcases hnext with rfl | rfl <;> rfl
  | silence hphase hnext =>
    refine .of_asking (by simp [Client.copy,hphase]) (by simp [Client.Got,hphase]) ?_
    rcases hnext with ⟨-,rfl⟩ | rfl <;> rfl
  | peeked hphase =>
    exact .of_asking (by simp [Client.copy,hphase]) (by simp [Client.Got,hphase]) (start_copy _ _)
  | @passed worker worker' peeked e buff wouldBlock arrival out hphase he hpass =>
    have harrival := passed_arrival hfits hphase hread he
    cases hfits with
    | client hne hserver hall =>
      obtain ⟨-,⟨file,hfile,hholds⟩,-⟩ := hall worker peeked hphase
      obtain ⟨hret,acks,hadvance,-⟩ := pass_advance hholds (requested_small hfile)
        (fun p hp => (arrival_genuine hne hi hfile (harrival p hp)).2) hpass
      refine ⟨rfl,rfl,rfl,rfl,fun file' hfile' n hn => ?_,fun file' hfile' => ?_⟩
      · obtain rfl := Option.some.inj (hfile'.symm.trans hfile)
        simp only [Client.Got,hphase] at hn
        exact hadvance.got n hn
      · obtain rfl := Option.some.inj (hfile'.symm.trans hfile)
        simp only [Client.copy,hphase]
        exact hadvance.copy hholds hret

theorem client_kept {c c' : Client ι} {e : ClientEvent ι} {out : List (ι × List UInt8)}
    (hi : P i = some (.client c)) (hfits : d.Fits P i (.client c))
    (hread : ∀ x, Session.reads (.client e) = some x → d.Carries P ⟨x.1,i,x.2⟩)
    (h : c.step d.order e = some (c',out)) (hlater : Network.Later d.Grows P Q)
    (hi' : Q i = some (.client c')) :
    d.Fits Q i (.client c') ∧ ∀ x ∈ out, d.Carries Q ⟨i,x.1,x.2⟩ := by
  have hstill : ∀ phase, (∀ worker peeked, phase ≠ .receiving worker peeked) →
      d.Fits Q i (.client { c with phase := phase }) := by
    intro phase hphase
    cases hfits with
    | client hne hserver => exact .client hne hserver fun worker peeked heq => absurd heq (hphase _ _)
  cases Client.step_stepped h with
  | @requested ntry ntrys pack hphase hpack =>
    refine ⟨hstill _ (by simp),fun x hx => ?_⟩
    obtain rfl := List.mem_singleton.mp hx
    cases hfits with
    | client hne hserver =>
      rw [hserver]
      exact .request hi' hpack
  | unsent hphase hnext =>
    refine ⟨hstill _ ?_,by simp⟩
    rcases hnext with rfl | rfl <;> simp
  | silence hphase hnext =>
    refine ⟨hstill _ ?_,by simp⟩
    rcases hnext with ⟨-,rfl⟩ | rfl <;> simp
  | @peeked ntry src bytes hphase =>
    refine ⟨?_,by simp⟩
    have hread := hread (src,bytes) rfl
    cases hfits with
    | client hne hserver =>
      obtain ⟨w,file,pack,-,hfile,-⟩ := hread.to_client hne hi
      refine .client hne hserver fun worker peeked heq => ?_
      obtain ⟨rfl,rfl⟩ := ClientPhase.receiving.inj heq
      refine ⟨ClientWorker.start_type _ _,⟨file,hfile,ClientWorker.start_holds _ _ _ _⟩,?_⟩
      rintro p ⟨⟩
      exact hread.later hlater
  | @passed worker worker' peeked e buff wouldBlock arrival out hphase he hpass =>
    have harrival := passed_arrival hfits hphase hread he
    cases hfits with
    | client hne hserver hall =>
      obtain ⟨htype,⟨file,hfile,hholds⟩,-⟩ := hall worker peeked hphase
      obtain ⟨hret,acks,hadvance,hout⟩ := pass_advance hholds (requested_small hfile)
        (fun p hp => (arrival_genuine hne hi hfile (harrival p hp)).2) hpass
      refine ⟨.client hne hserver fun worker₁ peeked₁ heq => ?_,fun x hx => ?_⟩
      · obtain ⟨rfl,rfl⟩ := ClientPhase.receiving.inj heq
        exact ⟨hadvance.type.trans htype,⟨file,hfile,hadvance.holds⟩,by simp⟩
      · obtain ⟨p,hp,a,ha,rfl⟩ := hout x hx
        obtain ⟨w,hw⟩ := (arrival_genuine hne hi hfile (harrival p hp)).1
        obtain ⟨w',hw',-⟩ := later_child hlater hw
        refine .ack hi' hw' hfile fun _ => ?_
        obtain ⟨n,rfl,hn⟩ := hadvance.acks a ha
        refine ⟨n,rfl,fun m hm => ClientWorker.got_of_vouches hn ?_⟩
        rwa [hadvance.type,htype]

/-- A worker reads an acknowledgement only out of a datagram. -/
theorem delivered_ack {e : WorkerEvent} {buff : Vector UInt8 8} {wouldBlock : Bool}
    {arrival : Option (ι × List UInt8)} (h : Session.Delivered e buff wouldBlock arrival)
    {a : AckPacket} (ha : e.reads = some a) :
    ∃ x, arrival = some x ∧ (receiveAckPacket buff wouldBlock (some x.2)).recv = .ok a := by
  cases arrival with
  | none =>
    have hnone : e.reads = none := h
    rw [hnone] at ha
    contradiction
  | some x =>
    have hrecv : e.recv = some (receiveAckPacket buff wouldBlock (some x.2)).recv := h
    refine ⟨x,rfl,?_⟩
    rw [WorkerEvent.reads,hrecv] at ha
    split at ha
    · next heq =>
      obtain rfl := Option.some.inj ha
      exact Option.some.inj heq
    · contradiction

theorem child_kept {j : ι} {w w' : ServerWorker} {e : WorkerEvent} {buff : Vector UInt8 8}
    {wouldBlock : Bool} {arrival : Option (ι × List UInt8)} {out : List Packet}
    (hi : P i = some (.child j w)) (hfits : d.Fits P i (.child j w))
    (hread : ∀ x, arrival = some x → d.Carries P ⟨x.1,i,x.2⟩)
    (hdelivered : Session.Delivered e buff wouldBlock arrival)
    (h : w.step d.order e = some (w',out)) (hlater : Network.Later d.Grows P Q)
    (hi' : Q i = some (.child j w')) :
    d.Fits Q i (.child j w') ∧ ∀ pack ∈ out, d.Carries Q ⟨i,j,packetBytes pack⟩ := by
  cases hfits with
  | @child _ c _ file hne hj hfile htype hgood hacked =>
    have hadvance := hgood.advance (requested_small hfile) h
    obtain ⟨c',hj',hc⟩ := later_client hlater hj
    refine ⟨.child hne hj' (hc.filename ▸ hfile) (hadvance.type.trans htype) hadvance.good
      fun hheeds n hn => hc.got file hfile n ?_,fun pack hpack => ?_⟩
    · rw [hc.type] at hheeds
      rcases hadvance.credited n hn with hn | ⟨a,ha,hsum,hcredits⟩
      · exact hacked hheeds n hn
      · obtain ⟨x,hx,hrecv⟩ := delivered_ack hdelivered ha
        obtain ⟨-,c₁,file₁,pack,hj₁,hfile₁,hbytes,hack⟩ := (hread x hx).to_child hne hi
        obtain rfl := Process.client.inj (Option.some.inj (hj.symm.trans hj₁))
        obtain rfl := Option.some.inj (hfile.symm.trans hfile₁)
        rw [hbytes,receiveAckPacket_ackBytes] at hrecv
        obtain rfl := Recv.ok.inj hrecv
        obtain ⟨m,rfl,hm⟩ := hack hsum
        refine hm n ?_
        rw [← htype] at hheeds
        exact ServerWorker.vouches_of_credits hheeds hcredits
    · obtain ⟨n,rfl,hle,-⟩ := hadvance.out pack hpack
      exact .data hj' hi' (hc.filename ▸ hfile) fun _ => ⟨n,rfl,hle⟩

theorem listener_kept {running : Bool} {buff : Vector UInt8 520}
    {arrival : Option (ι × List UInt8)} {port : Option ι}
    {o : Outcome ι (Process ι) (List UInt8)} (hi : P i = some (.listener d.server running))
    (haddress : i = d.address) (hread : ∀ x, arrival = some x → d.Carries P ⟨x.1,i,x.2⟩)
    (h : Session.listen d.server buff arrival port = some o)
    (hunused : ∀ p ∈ o.started, P p.1 = none) (hlater : Network.Later d.Grows P Q) :
    d.Fits Q i o.state ∧ o.sent = List.nil ∧ ∀ p ∈ o.started, d.Fits Q p.1 p.2 := by
  rcases Session.listen_cases h with ⟨running',rfl⟩ | ⟨src,bytes,pck,at_,feeder,rfl,hpck,hfile,rfl⟩
  · exact ⟨.listener haddress,rfl,by simp⟩
  · refine ⟨.listener haddress,rfl,?_⟩
    rintro p ⟨⟩
    obtain ⟨c,pack,hc,hpack,rfl⟩ := (hread _ rfl).to_listener hi
    rw [receivePacketOrExit_packetBytes] at hpck
    obtain rfl := Option.some.inj hpck
    obtain ⟨file,hrequested,rfl⟩ := requested_readFile hpack hfile
    obtain ⟨c',hc',hon⟩ := later_client hlater hc
    have hnew : at_ ≠ d.address := by
      rintro rfl
      rw [haddress,hunused _ rfl] at hi
      contradiction
    exact .child hnew hc' (hon.filename ▸ hrequested) (ServerWorker.start_type _ _ _ _)
      (ServerWorker.start_good _ _ _ _ _) fun _ n hn => absurd hn (ServerWorker.start_acked _ _ _ _ n)

end Kept

variable (d) in
theorem claim_inductive : (Session.network d.order d.address).Inductive d.Grows d.claim where
  refl := Grows.refl
  trans := Grows.trans
  party h hp := hp.later h
  datagram h hx := hx.later h
  alters h hx := hx.garbled h
  grown := by
    intro P i p e o h
    obtain ⟨hi,hfits,hread,hreact,-⟩ := h
    change Session.react d.order p e = some o at hreact
    unfold Session.react at hreact
    split at hreact
    · rcases Session.listen_cases hreact with ⟨running,rfl⟩ | ⟨_,_,_,_,_,-,-,-,rfl⟩ <;>
        exact .listener
    · next j w e buff wouldBlock arrival =>
      split at hreact
      · obtain ⟨⟨w',out⟩,hstep,rfl⟩ := Option.map_eq_some_iff.mp hreact
        cases hfits with
        | child hne hj hfile htype hgood =>
          exact .child (hgood.advance (requested_small hfile) hstep).type
      · contradiction
    · obtain ⟨⟨c',out⟩,hstep,rfl⟩ := Option.map_eq_some_iff.mp hreact
      exact .client (client_onward hi hfits hread hstep)
    · contradiction
  kept := by
    intro P Q i p e o h hlater hi' hstarted
    obtain ⟨hi,hfits,hread,hreact,hunused⟩ := h
    change Session.react d.order p e = some o at hreact
    unfold Session.react at hreact
    split at hreact
    · cases hfits with
      | listener haddress =>
        obtain ⟨hfits',hsent,hchild⟩ := listener_kept hi haddress hread hreact hunused hlater
        exact ⟨hfits',by simp [hsent],hchild⟩
    · next j w e buff wouldBlock arrival =>
      split at hreact
      · next hdelivered =>
        obtain ⟨⟨w',out⟩,hstep,rfl⟩ := Option.map_eq_some_iff.mp hreact
        obtain ⟨hfits',hout⟩ := child_kept hi hfits hread hdelivered hstep hlater hi'
        refine ⟨hfits',fun x hx => ?_,by simp⟩
        obtain ⟨pack,hpack,rfl⟩ := List.mem_map.mp hx
        exact hout pack hpack
      · contradiction
    · obtain ⟨⟨c',out⟩,hstep,rfl⟩ := Option.map_eq_some_iff.mp hreact
      obtain ⟨hfits',hout⟩ := client_kept hi hfits hread hstep hlater hi'
      exact ⟨hfits',hout,by simp⟩
    · contradiction

variable [DecidableEq ι]

theorem start_client {i : ι} {c : Client ι} (hi : d.clients i = some c) :
    i ≠ d.address ∧ d.start.parties i = some (.client c) := by
  have hne : i ≠ d.address := by
    rintro rfl
    rw [d.apart] at hi
    contradiction
  exact ⟨hne,by simp [start,hne,hi]⟩

variable (d) in
theorem start_holds : d.claim.Holds d.start where
  party i p hi := by
    by_cases hne : i = d.address
    · obtain rfl : Process.listener d.server true = p := by simpa [start,hne] using hi
      exact .listener hne
    · simp only [start,hne,if_false] at hi
      obtain ⟨c,hc,rfl⟩ := Option.map_eq_some_iff.mp hi
      obtain ⟨hphase,hserver⟩ := d.asking i c hc
      exact .client hne hserver fun worker peeked heq => by simp [hphase] at heq
  datagram x hx := absurd hx (Multiset.notMem_zero x)

/-- What holds in every state of a session, and that everybody has only gone on. -/
theorem Reaches.holds {x : NetworkState ι (Process ι) (List UInt8)} (h : d.Reaches x) :
    d.claim.Holds x ∧ Network.Later d.Grows d.start.parties x.parties :=
  d.claim_inductive.run d.start_holds h

theorem Reaches.client {x : NetworkState ι (Process ι) (List UInt8)} (h : d.Reaches x) {i : ι}
    {c : Client ι} (hi : d.clients i = some c) :
    ∃ c', x.parties i = some (.client c') ∧ d.Onward c c' :=
  later_client h.holds.2 (start_client hi).2

theorem Reaches.receiving {x : NetworkState ι (Process ι) (List UInt8)} (h : d.Reaches x) {i : ι}
    {c : Client ι} (hi : x.parties i = some (.client c)) {worker : ClientWorker}
    {peeked : Option (ι × List UInt8)} (hphase : c.phase = .receiving worker peeked) :
    worker.type = c.type ∧ ∃ file, d.requested c.filename = some file ∧
      worker.Holds d.order file := by
  cases h.holds.1.party i _ hi with
  | client hne hserver hall =>
    obtain ⟨htype,hholds,-⟩ := hall worker peeked hphase
    exact ⟨htype,hholds⟩

end Deployment

end ReliableTransfer
