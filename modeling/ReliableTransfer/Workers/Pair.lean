import ReliableTransfer.Framework.Embedding
import ReliableTransfer.Workers.Clients
import ReliableTransfer.Workers.Servers

/-!
# Any server with any client

Nothing makes the two ends run the same protocol. The systems of the four protocols are part of
the system of all servers and all clients.
-/

namespace ReliableTransfer

open Framework

def ClientWorker.accept (order : ByteOrder) (k : ClientWorker) (packet : Packet) :
    Option (ClientWorker × List AckPacket) :=
  if k.returned then none else k.recvMessage order (.ok packet)

def pair (order : ByteOrder) : Link ServerWorker ClientWorker WorkerEvent Packet AckPacket where
  serve := ServerWorker.step order
  reads := WorkerEvent.reads
  accept := ClientWorker.accept order
  calm := WorkerEvent.Calm

def pairStart (server client : ProtoType) (dupAcks : List UInt32) (window clientWindow : UInt32)
    (file : List UInt8) : LinkState ServerWorker ClientWorker Packet AckPacket :=
  ⟨.start server dupAcks window (feederAt file 0),.start client clientWindow,0,0⟩

theorem WorkerEvent.reads_windowed (e : SenderEvent) : (WorkerEvent.windowed e).reads =
    match e with
    | .ack env => match env.recv with
      | .ok a => some a
      | _ => none
    | _ => none := by
  cases e with
  | ack env => cases h : env.recv <;> simp [WorkerEvent.reads,WorkerEvent.recv,h]
  | loop => rfl
  | send tick => rfl
  | idle => rfl
  | timers ticks => rfl

theorem WorkerEvent.reads_stopWait (e : StopWaitEvent) : (WorkerEvent.stopWait e).reads =
    match e with
    | .receive _ (.ok a) => some a
    | _ => none := by
  cases e with
  | receive now recv => cases recv <;> rfl
  | stop => rfl
  | send tick => rfl
  | expire now => rfl

theorem map_unless {κ κ' α : Type} (closed : Bool) (f : κ → κ') (r : Option (κ × α)) :
    (if closed then none else r.map fun r => (f r.1,r.2)) =
      (if closed then none else r).map fun r => (f r.1,r.2) := by
  cases closed <;> rfl

namespace Pair

variable (order : ByteOrder)

def embed {σ κ : Type} {ops : SenderOps σ} {accept : κ → Packet → Option (κ × List AckPacket)}
    (server : Sending σ → ServerWorker) (client : κ → ClientWorker)
    (hserve : ∀ s e, (server s).step order (.windowed e) =
      (s.step ops order e).map fun r => (server r.1,r.2))
    (hforeign : ∀ s e, (server s).step order (.stopWait e) = none)
    (haccept : ∀ c d, (client c).accept order d = (accept c d).map fun r => (client r.1,r.2)) :
    (Sending.link ops order accept).Embedding (pair order) where
  server := server
  client := client
  event := .windowed
  reads := WorkerEvent.reads_windowed
  calm e h := by cases e <;> exact h
  serve := hserve
  foreign s e he := by
    cases e with
    | stopWait e => exact hforeign s e
    | windowed e => exact absurd rfl (he e)
  accept := haccept

abbrev windowed {σ : Type} (ops : SenderOps σ) :
    Link (Sending σ) ClientWorker SenderEvent Packet AckPacket :=
  Sending.link ops order (ClientWorker.accept order)

theorem accept_id (k : ClientWorker) (packet : Packet) :
    k.accept order packet = (k.accept order packet).map fun r => (r.1,r.2) := by
  cases k.accept order packet <;> rfl

def goBackServer (window : UInt32) :
    (windowed order (GoBackServer.ops window)).Embedding (pair order) :=
  embed order (.goBackN window) id (fun _ _ => rfl) (fun _ _ => rfl) (accept_id order)

def repeatServer : (windowed order (RepeatServer.ops SelectiveRepeat.hooks)).Embedding (pair order) :=
  embed order .selectiveRepeat id (fun _ _ => rfl) (fun _ _ => rfl) (accept_id order)

def repeatCCServer :
    (windowed order (RepeatServer.ops SelectiveRepeatCC.hooks)).Embedding (pair order) :=
  embed order .selectiveRepeatCC id (fun _ _ => rfl) (fun _ _ => rfl) (accept_id order)

def stopWait : (StopWait.link order).Embedding (pair order) where
  server := .stopWait
  client := .stopWait
  event := .stopWait
  reads := WorkerEvent.reads_stopWait
  calm e h := by
    cases e with
    | receive now recv => cases recv <;> exact h
    | stop => exact h
    | send tick => exact h
    | expire now => exact h
  serve _ _ := rfl
  foreign s e he := by
    cases e with
    | stopWait e => exact absurd rfl (he e)
    | windowed e => rfl
  accept c d := map_unless c.ended ClientWorker.stopWait (c.recvMessage order (.ok d))

def goBackN (window : UInt32) : (GoBackN.link order window).Embedding (pair order) :=
  embed order (.goBackN window) .goBackN (fun _ _ => rfl) (fun _ _ => rfl) fun c d =>
    map_unless c.ended ClientWorker.goBackN (c.recvMessage order (.ok d))

def selectiveRepeat (clientWindow : UInt32) :
    (SelectiveRepeat.link order clientWindow).Embedding (pair order) :=
  embed order .selectiveRepeat (.selectiveRepeat clientWindow) (fun _ _ => rfl) (fun _ _ => rfl)
    fun c d => map_unless c.returned (ClientWorker.selectiveRepeat clientWindow)
      (c.recvMessage order clientWindow SelectiveRepeat.room (.ok d))

def selectiveRepeatCC (clientWindow : UInt32) :
    (SelectiveRepeatCC.link order clientWindow).Embedding (pair order) :=
  embed order .selectiveRepeatCC (.selectiveRepeatCC clientWindow) (fun _ _ => rfl)
    (fun _ _ => rfl) fun c d => map_unless c.returned (ClientWorker.selectiveRepeatCC clientWindow)
      (c.recvMessage order clientWindow (SelectiveRepeatCC.room clientWindow) (.ok d))

end Pair

end ReliableTransfer
