import ReliableTransfer.Endpoints.Request
import ReliableTransfer.Framework.Network
import ReliableTransfer.Socket.Receive
import ReliableTransfer.Workers.Factory

/-!
# Sessions

A server process listens at a well-known address and forks a child for every request. A client
sends its request until it hears something, and then takes the file from whoever sends it. All of
them exchange plain bytes.

A session takes for granted that a stream on a file delivers what `tellg` reports, that output
files take every byte, that sequence numbers do not wrap around, that no port is used twice, and
that the network alters no request, and other datagrams only so that the checksum rejects them.
Where `SelectiveRepeatServer::receive_ack` reads `it->first` after it has erased `it`, the workers
find the number that was there.
-/

namespace ReliableTransfer

open Framework

def retries : Nat := 3

/-- What `send_packet` hands to `sendto`. -/
def packetBytes (pack : Packet) : List UInt8 := (serializePacket pack).toList

/-- What `send_ack_packet` hands to `sendto`. -/
def ackBytes (pack : AckPacket) : List UInt8 := (serializeAckpacket pack).toList

/-- A server after its constructor, on its disk. `dupAcks` is what `control.cc` holds. -/
structure Server where
  type : ProtoType
  slideWindow : UInt32
  dupAcks : List UInt32
  disk : ByteString → Option DiskFile

variable {ι : Type}

inductive ClientPhase (ι : Type) where
  /-- The loop around `send_packet`. -/
  | asking (ntry ntrys : Nat)
  /-- `recv` with `MSG_PEEK`. -/
  | awaiting (ntry : Nat)
  /-- `recv_message`. The datagram that was peeked at is the next one it gets. -/
  | receiving (worker : ClientWorker) (peeked : Option (ι × List UInt8))
  | gaveUp

structure Client (ι : Type) where
  type : ProtoType
  filename : ByteString
  server : ι
  recvWindow : UInt32
  phase : ClientPhase ι

inductive ClientEvent (ι : Type) where
  /-- What `send_packet` returns. -/
  | request (sent : Bool)
  /-- `recv` returns -1. -/
  | noResponse
  | peek (src : ι) (bytes : List UInt8)
  /-- A call of `receive_packet` that gets the datagram peeked at. -/
  | receivePeeked (buff : Vector UInt8 520) (wouldBlock : Bool)
  | receive (buff : Vector UInt8 520) (wouldBlock : Bool) (arrival : Option (ι × List UInt8))

/-- One pass of the loop of `recv_message`. It answers to the address that `recvfrom` filled in. -/
def ClientWorker.pass (order : ByteOrder) (worker : ClientWorker) (buff : Vector UInt8 520)
    (wouldBlock : Bool) (arrival : Option (ι × List UInt8)) :
    Option (ClientWorker × List (ι × List UInt8)) :=
  if worker.returned then none
  else
    let recv := (receivePacket buff wouldBlock (arrival.map Prod.snd)).recv
    (worker.recvMessage order recv).map fun (worker,acks) =>
      (worker,acks.flatMap fun a => (arrival.map fun d => (d.1,ackBytes a)).toList)

/-- `Client::start`. -/
def Client.step (order : ByteOrder) (c : Client ι) (e : ClientEvent ι) :
    Option (Client ι × List (ι × List UInt8)) :=
  match c.phase,e with
  | .asking ntry ntrys,.request sent => do
    let pack ← Client.request order c.filename
    if sent then
      some ({ c with phase := .awaiting (ntry + 1) },[(c.server,packetBytes pack)])
    else if ntrys < retries then some ({ c with phase := .asking ntry (ntrys + 1) },List.nil)
    else some ({ c with phase := .gaveUp },List.nil)
  | .awaiting ntry,.noResponse =>
    let phase := if ntry < retries then .asking ntry 0 else .gaveUp
    some ({ c with phase := phase },List.nil)
  | .awaiting _,.peek src bytes =>
    some ({ c with phase := .receiving (.start c.type c.recvWindow) (some (src,bytes)) },List.nil)
  | .receiving worker (some d),.receivePeeked buff wouldBlock =>
    (worker.pass order buff wouldBlock (some d)).map fun (worker,out) =>
      ({ c with phase := .receiving worker none },out)
  | .receiving worker none,.receive buff wouldBlock arrival =>
    (worker.pass order buff wouldBlock arrival).map fun (worker,out) =>
      ({ c with phase := .receiving worker none },out)
  | _,_ => none

inductive Process (ι : Type) where
  | listener (server : Server) (running : Bool)
  /-- A child in `send_message`, or after it. -/
  | child (client : ι) (worker : ServerWorker)
  | client (client : Client ι)

inductive SessionEvent (ι : Type) where
  /-- `receive_packet` returns to the listener. If the fork succeeds, and `socket` in the child, the
  child's socket is at `port`. -/
  | listen (buff : Vector UInt8 520) (arrival : Option (ι × List UInt8)) (port : Option ι)
  /-- An event of a child's worker, and the datagram it reads into a buffer. -/
  | work (e : WorkerEvent) (buff : Vector UInt8 8) (wouldBlock : Bool)
      (arrival : Option (ι × List UInt8))
  | client (e : ClientEvent ι)

namespace Session

/-- A pass of the loop in `Server::start`. A child whose file cannot be opened exits. -/
def listen (server : Server) (buff : Vector UInt8 520) (arrival : Option (ι × List UInt8))
    (port : Option ι) : Option (Outcome ι (Process ι) (List UInt8)) :=
  match arrival,receivePacketOrExit buff (arrival.map Prod.snd),port with
  | some (src,_),some pck,some port =>
    (Server.readFile server.disk pck).map fun (found,feeder) =>
      let child := Process.child src
        (.start server.type server.dupAcks server.slideWindow feeder)
      ⟨.listener server true,List.nil,if found then some (port,child) else none⟩
  | _,some _,_ => some ⟨.listener server true,List.nil,none⟩
  | _,none,_ => some ⟨.listener server false,List.nil,none⟩

/-- The answer a worker gets is what `receive_ack_packet` makes of the datagram, if there is one. -/
def Delivered (e : WorkerEvent) (buff : Vector UInt8 8) (wouldBlock : Bool) :
    Option (ι × List UInt8) → Prop
  | some (_,bytes) => e.recv = some (receiveAckPacket buff wouldBlock (some bytes)).recv
  | none => e.reads = none

instance (e : WorkerEvent) (buff : Vector UInt8 8) (wouldBlock : Bool) :
    ∀ arrival : Option (ι × List UInt8), Decidable (Delivered e buff wouldBlock arrival)
  | some _ => inferInstanceAs (Decidable (_ = _))
  | none => inferInstanceAs (Decidable (_ = _))

def react (order : ByteOrder) :
    Process ι → SessionEvent ι → Option (Outcome ι (Process ι) (List UInt8))
  | .listener server true,.listen buff arrival port => listen server buff arrival port
  | .child client worker,.work e buff wouldBlock arrival =>
    if Delivered e buff wouldBlock arrival then
      (worker.step order e).map fun (worker,out) =>
        ⟨.child client worker,out.map fun pack => (client,packetBytes pack),none⟩
    else none
  | .client c,.client e => (c.step order e).map fun (c,out) => ⟨.client c,out,none⟩
  | _,_ => none

def reads : SessionEvent ι → Option (ι × List UInt8)
  | .listen _ arrival _ => arrival
  | .work _ _ _ arrival => arrival
  | .client (.peek src bytes) => some (src,bytes)
  | .client (.receive _ _ arrival) => arrival
  | .client _ => none

/-- A datagram between a child and a client arrives with other bytes, which the checksum rejects. A
request is never checked, so nothing is said about a session in which one is altered. -/
inductive Garbled (order : ByteOrder) (server : ι) :
    Datagram ι (List UInt8) → Datagram ι (List UInt8) → Prop
  | data {src dst pack pack'} : dst ≠ server → verifyChecksum order pack' = false →
      Garbled order server ⟨src,dst,packetBytes pack⟩ ⟨src,dst,packetBytes pack'⟩
  | ack {src dst pack pack'} : dst ≠ server → verifyChecksumAck pack' = false →
      Garbled order server ⟨src,dst,ackBytes pack⟩ ⟨src,dst,ackBytes pack'⟩

def network (order : ByteOrder) (server : ι) :
    Network ι (Process ι) (SessionEvent ι) (List UInt8) where
  react := react order
  reads := reads
  alters := Garbled order server

end Session

/-- A server, and the clients that are going to ask it for files. -/
structure Deployment (ι : Type) where
  order : ByteOrder
  address : ι
  server : Server
  clients : ι → Option (Client ι)
  /-- Nobody else is at the server's address. -/
  apart : clients address = none
  /-- The clients are at the beginning of `Client::start`, and know the server. -/
  asking : ∀ i c, clients i = some c → c.phase = .asking 0 0 ∧ c.server = address
  /-- A stream on a file delivers what `tellg` reports. -/
  honest : ∀ path file, server.disk path = some file → file.size = file.readable.length
  /-- Sequence numbers do not wrap around. -/
  small : ∀ path file, server.disk path = some file → numSegments file.readable < 2^32 - 1

namespace Deployment

variable [DecidableEq ι] (d : Deployment ι)

abbrev network : Network ι (Process ι) (SessionEvent ι) (List UInt8) :=
  Session.network d.order d.address

def start : NetworkState ι (Process ι) (List UInt8) where
  parties i := if i = d.address then some (.listener d.server true)
    else (d.clients i).map .client
  flight := 0

abbrev Reaches (x : NetworkState ι (Process ι) (List UInt8)) : Prop := d.network.Run d.start x

/-- What the server sends to a client that asks for `filename`. -/
def requested (filename : ByteString) : Option (List UInt8) := do
  let pck ← Client.request d.order filename
  let path ← Server.path pck
  let file ← d.server.disk path
  some file.readable

end Deployment

end ReliableTransfer
