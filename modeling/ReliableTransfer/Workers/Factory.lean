import ReliableTransfer.Workers.GoBackN.Protocol
import ReliableTransfer.Workers.SelectiveRepeatCC.Protocol
import ReliableTransfer.Workers.StopWait.Protocol

/-!
# The workers behind one interface

`WorkerFactory` makes the worker for a protocol, and the two ends call it through `ServerWorker` and
`ClientWorker`. Each end is told its protocol by its own user.
-/

namespace ReliableTransfer

inductive ProtoType where
  | waitAndStop
  | selectiveRepeat
  | goBackN
  | selectiveRepeatCC
deriving DecidableEq

def obtainType : Int → ProtoType
  | 4 => .selectiveRepeatCC
  | 3 => .goBackN
  | 2 => .selectiveRepeat
  | 1 => .waitAndStop
  | _ => .waitAndStop

/-- The protocol `main` goes on with; `none` is `exit(1)`. -/
def chosenType (id : Int) : Option ProtoType :=
  if id < 1 ∨ id > 4 then none else some (obtainType id)

inductive ServerWorker where
  | stopWait (s : StopWaitServer)
  | goBackN (window : UInt32) (s : Sending GoBackServer)
  | selectiveRepeat (s : Sending SelectiveRepeatServer)
  | selectiveRepeatCC (s : Sending SelectiveRepeatCCServer)

inductive WorkerEvent where
  | stopWait (e : StopWaitEvent)
  | windowed (e : SenderEvent)

/-- What the socket has for a worker that asks it. -/
def WorkerEvent.recv : WorkerEvent → Option (Recv AckPacket)
  | .stopWait (.receive _ recv) => some recv
  | .windowed (.ack env) => some env.recv
  | _ => none

def WorkerEvent.reads (e : WorkerEvent) : Option AckPacket :=
  match e.recv with
  | some (.ok a) => some a
  | _ => none

def WorkerEvent.Calm : WorkerEvent → Prop
  | .stopWait (.send tick) => tick.Calm
  | .stopWait (.receive _ .error) => False
  | .windowed (.send tick) => tick.Calm
  | .windowed (.ack env) => env.Calm
  | .windowed (.timers ticks) => ∀ i, (ticks i).Calm
  | _ => True

namespace ServerWorker

/-- `createServerWorker` and the beginning of `send_message`. `dupAcks` is what the constructor of
`SelectiveRepeatCCServer` has read. -/
def start (type : ProtoType) (dupAcks : List UInt32) (window : UInt32) (feeder : DataFeeder) :
    ServerWorker :=
  match type with
  | .goBackN => .goBackN window ⟨⟨0,0,List.nil,⟨0,0⟩⟩,feeder,.head⟩
  | .selectiveRepeat => .selectiveRepeat ⟨.fresh window,feeder,.head⟩
  | .waitAndStop => .stopWait ⟨0,feeder,.head⟩
  | .selectiveRepeatCC => .selectiveRepeatCC ⟨.fresh (.start dupAcks window),feeder,.head⟩

def type : ServerWorker → ProtoType
  | .stopWait _ => .waitAndStop
  | .goBackN _ _ => .goBackN
  | .selectiveRepeat _ => .selectiveRepeat
  | .selectiveRepeatCC _ => .selectiveRepeatCC

def step (order : ByteOrder) : ServerWorker → WorkerEvent → Option (ServerWorker × List Packet)
  | .stopWait s,.stopWait e => (s.step order e).map fun r => (.stopWait r.1,r.2)
  | .goBackN window s,.windowed e =>
    (s.step (GoBackServer.ops window) order e).map fun r => (.goBackN window r.1,r.2)
  | .selectiveRepeat s,.windowed e =>
    (s.step (RepeatServer.ops SelectiveRepeat.hooks) order e).map fun r => (.selectiveRepeat r.1,r.2)
  | .selectiveRepeatCC s,.windowed e =>
    (s.step (RepeatServer.ops SelectiveRepeatCC.hooks) order e).map
      fun r => (.selectiveRepeatCC r.1,r.2)
  | _,_ => none

/-- `send_message` has returned, without a failure. -/
def Succeeded : ServerWorker → Prop
  | .stopWait s => s.loc = .returned false
  | .goBackN _ s => s.loc = .returned false
  | .selectiveRepeat s => s.loc = .returned false
  | .selectiveRepeatCC s => s.loc = .returned false

end ServerWorker

inductive ClientWorker where
  | stopWait (c : StopWaitClient)
  | goBackN (c : GoBackClient)
  | selectiveRepeat (window : UInt32) (c : RepeatClient)
  | selectiveRepeatCC (window : UInt32) (c : RepeatClient)

namespace ClientWorker

/-- `createClientWorker` and the beginning of `recv_message`. -/
def start (type : ProtoType) (window : UInt32) : ClientWorker :=
  match type with
  | .goBackN => .goBackN ⟨0,false,.fresh⟩
  | .selectiveRepeat => .selectiveRepeat window .fresh
  | .waitAndStop => .stopWait ⟨0,false,⟨0,0,0⟩,false,.fresh⟩
  | .selectiveRepeatCC => .selectiveRepeatCC window .fresh

def type : ClientWorker → ProtoType
  | .stopWait _ => .waitAndStop
  | .goBackN _ => .goBackN
  | .selectiveRepeat _ _ => .selectiveRepeat
  | .selectiveRepeatCC _ _ => .selectiveRepeatCC

def returned : ClientWorker → Bool
  | .stopWait c => c.ended
  | .goBackN c => c.ended
  | .selectiveRepeat _ c => c.returned
  | .selectiveRepeatCC _ c => c.returned

def sink : ClientWorker → DataSink
  | .stopWait c => c.sink
  | .goBackN c => c.sink
  | .selectiveRepeat _ c => c.sink
  | .selectiveRepeatCC _ c => c.sink

def recvMessage (order : ByteOrder) :
    ClientWorker → Recv Packet → Option (ClientWorker × List AckPacket)
  | .stopWait c,recv => (c.recvMessage order recv).map fun r => (.stopWait r.1,r.2)
  | .goBackN c,recv => (c.recvMessage order recv).map fun r => (.goBackN r.1,r.2)
  | .selectiveRepeat window c,recv =>
    (c.recvMessage order window SelectiveRepeat.room recv).map
      fun r => (.selectiveRepeat window r.1,r.2)
  | .selectiveRepeatCC window c,recv =>
    (c.recvMessage order window (SelectiveRepeatCC.room window) recv).map
      fun r => (.selectiveRepeatCC window r.1,r.2)

end ClientWorker

end ReliableTransfer
