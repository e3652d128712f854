import ReliableTransfer.Workers.Failures
import ReliableTransfer.Workers.GoBackN.Safety
import ReliableTransfer.Workers.SelectiveRepeatCC.Safety
import ReliableTransfer.Workers.StopWait.Progress
import ReliableTransfer.Workers.StopWait.Termination

/-!
# What a finished transfer is worth

In every protocol a transfer on streams that may fail goes like one on sound streams, with zeros
for what was not read. So it is faithful when the streams suffice for the whole file, and a client
that returns after a faithful transfer had such streams.
-/

namespace ReliableTransfer

open Framework

/-- The packet carries bytes of the file up to where the feeder stands. -/
def Handed (file : List UInt8) (feeder : DataFeeder) (packet : Packet) : Prop :=
  payload packet <:+: file.take (file.length - feeder.remainSize)

section Handed

variable {file : List UInt8} {packet : Packet}

theorem take_feederAt (file : List UInt8) (i : Nat) :
    file.take (file.length - (feederAt file i).remainSize) = file.take (512 * i) := by
  change file.take (file.length - (file.length - 512 * i)) = _
  rw [List.take_eq_take_iff]
  omega

theorem handed_segment (order : ByteOrder) (file : List UInt8) {i j : Nat} (h : i < j)
    (seqNum : UInt32) :
    Handed file (feederAt file j) (createDataPacketCore order (segment file i) seqNum) := by
  have hin : (file.drop (512 * i)).take 512 = ((file.take (512 * j)).drop (512 * i)).take 512 := by
    rw [List.drop_take,List.take_take]
    congr 1
    omega
  rw [Handed,payload_createDataPacketCore,segment_bytes,take_feederAt,hin]
  exact (List.take_prefix _ _).isInfix.trans (List.drop_suffix _ _).isInfix

theorem Handed.mono {i j : Nat} (h : Handed file (feederAt file i) packet) (hij : i ≤ j) :
    Handed file (feederAt file j) packet := by
  rw [Handed,take_feederAt] at h ⊢
  exact h.trans (List.take_prefix_take_left (Nat.mul_le_mul_left 512 hij)).isInfix

end Handed

namespace Sending

variable {σ κ : Type} {ops : SenderOps σ} {order : ByteOrder} {file : List UInt8}
  {accept : κ → Packet → Option (κ × List AckPacket)} {Rel : σ → κ → Prop} {got : κ → UInt32 → Prop}

/-- The feeder has handed over every segment that is numbered. -/
def Ahead (ops : SenderOps σ) (file : List UInt8) (s : Sending σ) : Prop :=
  ∃ i, s.feeder = feederAt file i ∧ (ops.seqNo s.worker).toNat ≤ i

theorem step_ahead {I : σ → Prop} {legit : AckPacket → Prop} (hops : ops.Sound order file I legit)
    {s s' : Sending σ} {e : SenderEvent} {out : List Packet} (hs : s.Good ops file I)
    (hlegit : ∀ env a, e = .ack env → env.recv = .ok a → legit a) (hahead : s.Ahead ops file)
    (h : s.step ops order e = some (s',out)) : s'.Ahead ops file := by
  cases step_stepped h with
  | moved => exact hahead
  | @sent tick hloc hnext hopen =>
    obtain ⟨hle,hpacket,hfeeder⟩ := hs.next order (by simp [hloc]) hnext
    obtain ⟨-,hseq⟩ := hops.send tick.sendTime hs.worker hopen hle
    rw [hpacket,hfeeder]
    exact ⟨_,rfl,hseq.le⟩
  | unsent hloc hnext hopen =>
    obtain ⟨-,-,hfeeder⟩ := hs.next order (by simp [hloc]) hnext
    rw [hfeeder]
    exact ⟨_,rfl,Nat.le_succ _⟩
  | @received env noErr worker site loc hloc hrecv hl =>
    obtain ⟨i,hfeeder,hle⟩ := hahead
    obtain ⟨-,hseq⟩ := hops.ack hs.worker (fun a ha => hlegit env a rfl ha) hrecv
    exact ⟨i,hfeeder,hseq ▸ hle⟩
  | @timed ticks noErr worker out site loc hloc htimers hl =>
    obtain ⟨i,hfeeder,hle⟩ := hahead
    obtain ⟨-,hseq,-⟩ := hops.timers hs.worker htimers
    exact ⟨i,hfeeder,hseq ▸ hle⟩

theorem ahead_run (h : ops.Safe order file accept Rel got) {w : σ} {c : κ} (hRel : Rel w c)
    (hw : (ops.seqNo w).toNat = 0) {x : LinkState (Sending σ) κ Packet AckPacket}
    (hrun : (link ops order accept).Run ⟨start w file,c,0,0⟩ x) :
    (safe ops order file Rel got).Holds x ∧ x.server.Ahead ops file :=
  (safe_inductive h).runWhere (J := Ahead ops file)
    (fun _ hs hack hahead hstep => step_ahead (h.sound _) hs
      (fun env a he ha => hack a (by rw [he]; exact reads_ack ha)) hahead hstep)
    (safe_run h hRel hw .refl) ⟨0,rfl,hw.le⟩ hrun

theorem delivering {x : LinkState (Sending σ) κ Packet AckPacket}
    (hx : (safe ops order file Rel got).Holds x ∧ x.server.Ahead ops file) {sink : DataSink}
    {returned : Bool} (hfed : ∃ n, sink.Fed order file n)
    (hret : returned = true → sink.Fed order file (numSegments file) ∧
      numSegments file < (ops.seqNo x.server.worker).toNat) :
    Delivering order file x.server.feeder sink x.data returned := by
  obtain ⟨hsafe,i,hfeeder,hle⟩ := hx
  refine ⟨fun d hd => ?_,hfed,fun h => ⟨(hret h).1,?_⟩⟩
  · obtain ⟨j,rfl,hj⟩ := hsafe.data d hd
    rw [hfeeder]
    exact handed_segment order file (hj.trans_le hle) j
  · have hlt := (hret h).2
    rw [hfeeder]
    change file.length - 512 * i = 0
    unfold numSegments at hlt
    omega

end Sending

namespace StopWait

variable {order : ByteOrder} {file : List UInt8}
  {x : LinkState StopWaitServer StopWaitClient Packet AckPacket}

/-- What the server keeps and what is in flight has been handed over. -/
def handed (file : List UInt8) : Link.Claim StopWaitServer StopWaitClient Packet AckPacket where
  parties s _ := (∃ i, s.feeder = feederAt file i) ∧
    ∀ p, s.kept = some p → Handed file s.feeder p
  data s _ d := Handed file s.feeder d
  ack _ _ _ := True

theorem handed_inductive (order : ByteOrder) (file : List UInt8) :
    (link order).Inductive (handed file) where
  serve := by
    intro s s' c e out hp _ hs
    obtain ⟨⟨i,hi⟩,hkept⟩ := hp
    cases StopWaitServer.step_sends hs with
    | again hfeeder hall =>
      refine ⟨⟨⟨⟨i,hfeeder.trans hi⟩,fun p hp => ?_⟩,fun d hd => ?_,fun _ _ => trivial⟩,
        fun p hp => ?_⟩
      · rw [hfeeder]
        exact hkept p (hall p (Or.inl hp))
      · change Handed file s'.feeder d
        rwa [hfeeder]
      · change Handed file s'.feeder p
        rw [hfeeder]
        exact hkept p (hall p (Or.inr hp))
    | next hnext hfeeder hall =>
      rw [hi,hasNext_feederAt] at hnext
      rw [hi,getNextDataSegment_feederAt file hnext] at hfeeder hall
      have hnew (p : Packet) (hp : s'.kept = some p ∨ p ∈ out) : Handed file s'.feeder p := by
        rw [hfeeder,hall p hp]
        exact handed_segment order file (Nat.lt_succ_self i) _
      refine ⟨⟨⟨⟨i + 1,hfeeder⟩,fun p hp => hnew p (Or.inl hp)⟩,fun d hd => ?_,
        fun _ _ => trivial⟩,fun p hp => hnew p (Or.inr hp)⟩
      change Handed file s.feeder d at hd
      rw [hi] at hd
      change Handed file s'.feeder d
      rw [hfeeder]
      exact hd.mono (Nat.le_succ i)
  accept := by
    intro s c c' d out hp _ _
    exact ⟨⟨hp,fun _ hd => hd,fun _ _ => trivial⟩,fun _ _ => trivial⟩

theorem delivering (hsize : numSegments file < 2^32) (hrun : (link order).Run (start file) x) :
    Delivering order file x.server.feeder x.client.sink x.data x.client.ended := by
  have hhanded : (handed file).Holds x := (handed_inductive order file).run
    ⟨⟨⟨0,rfl⟩,by simp [start,StopWaitServer.kept]⟩,by simp [start],by simp [start]⟩ hrun
  have hrunning := (running_run hsize hrun).parties
  refine ⟨hhanded.data,?_,fun hended => ⟨hrunning.2 hended,?_⟩⟩
  · cases hended : x.client.ended
    · exact ⟨_,(hrunning.1 hended).2.1.sink⟩
    · exact ⟨_,hrunning.2 hended⟩
  · obtain ⟨hfeeding,-,hmarked⟩ := (marked_run hrun).parties
    obtain ⟨i,hi⟩ := hfeeding.feeder
    have hdone := hmarked hended
    rw [hi,← Bool.not_eq_true,hasNext_feederAt] at hdone
    rw [hi]
    change file.length - 512 * i = 0
    unfold numSegments at hdone
    omega

/-- The beginning of a transfer of a file of the disk to an output file. -/
def startOn (disk : DiskFile) (good : Bool) (room : Option Nat) :
    LinkState StopWaitServer StopWaitClient Packet AckPacket where
  server := ⟨0,feederOn disk 0,.head⟩
  client := ⟨0,false,⟨0,0,0⟩,false,.onto good room⟩
  data := 0
  acks := 0

theorem simulation (order : ByteOrder) (disk : DiskFile) (good : Bool) (room : Option Nat) :
    (link order).Simulation (link order) (StopWaitServer.Like disk)
      (StopWaitClient.Like good room) where
  reads _ := rfl
  serve hlike hstep := StopWaitServer.step_like hlike hstep
  accept := by
    intro c d packet c' out hlike haccept
    have hended : d.ended = c.ended := by rw [hlike.rest]
    simp only [link,hended] at haccept ⊢
    exact Link.related_unless (StopWaitClient.recvMessage_like hlike) haccept

end StopWait

namespace GoBackN

variable {order : ByteOrder} {file : List UInt8} {window : UInt32}
  {x : LinkState (Sending GoBackServer) GoBackClient Packet AckPacket}

theorem delivering (hrun : (link order window).Run (start file) x) :
    Delivering order file x.server.feeder x.client.sink x.data x.client.ended := by
  have hx := Sending.ahead_run (safe order file window) (start_coupled order file window) rfl hrun
  have hcoupled : Coupled order file window x.server.worker x.client := hx.1.parties.worker
  have hsink := hcoupled.consumed.sink
  refine Sending.delivering hx ⟨_,hsink⟩ fun hended => ?_
  have hall := hcoupled.consumed.ended.mp hended
  rw [hall,Nat.min_eq_right (Nat.le_succ _)] at hsink
  have hle := hcoupled.le_seqNo
  rw [hall] at hle
  exact ⟨hsink,hle⟩

def startOn (disk : DiskFile) (good : Bool) (room : Option Nat) :
    LinkState (Sending GoBackServer) GoBackClient Packet AckPacket :=
  ⟨⟨⟨0,0,List.nil,⟨0,0⟩⟩,feederOn disk 0,.head⟩,⟨0,false,.onto good room⟩,0,0⟩

theorem simulation (order : ByteOrder) (window : UInt32) (disk : DiskFile) (good : Bool)
    (room : Option Nat) :
    (link order window).Simulation (link order window) (Sending.Like disk)
      (GoBackClient.Like good room) where
  reads _ := rfl
  serve hlike hstep := Sending.step_like hlike hstep
  accept := by
    intro c d packet c' out hlike haccept
    have hended : d.ended = c.ended := by rw [hlike.rest]
    simp only [link,Sending.link,accept,hended] at haccept ⊢
    exact Link.related_unless (GoBackClient.recvMessage_like hlike) haccept

end GoBackN

namespace RepeatServer

variable {γ : Type} {order : ByteOrder} {file : List UInt8} {window : UInt32}
  {h : RepeatHooks γ} {space : RepeatClient → Bool} {x : RepeatLink γ}

theorem delivering (hspace : Roomy order file window space) {ctl : γ}
    (hrun : (link h order window space).Run ⟨.start (fresh ctl) file,.fresh,0,0⟩ x) :
    Delivering order file x.server.feeder x.client.sink x.data x.client.returned := by
  have hx := Sending.ahead_run (safe h hspace) (fresh_coupled order file window ctl) rfl hrun
  have hcoupled : Coupled order file window x.server.worker x.client := hx.1.parties.worker
  have hsink := hcoupled.holding.sink
  refine Sending.delivering hx ⟨_,hsink⟩ fun hret => ?_
  rw [RepeatClient.returned,Bool.and_eq_true,beq_iff_eq] at hret
  have hlast := hcoupled.holding.last hret.1
  have hgot := hcoupled.got_lt x.client.lastAckNo (Or.inr ⟨hlast,hret.1,rfl⟩)
  rw [hret.2,hlast] at hsink
  exact ⟨hsink,hlast ▸ hgot⟩

def startOn (ctl : γ) (disk : DiskFile) (good : Bool) (room : Option Nat) : RepeatLink γ :=
  ⟨⟨fresh ctl,feederOn disk 0,.head⟩,{ RepeatClient.fresh with sink := .onto good room },0,0⟩

theorem simulation (h : RepeatHooks γ) (order : ByteOrder) (window : UInt32)
    (hspace : RepeatClient.SinkFree space) (disk : DiskFile) (good : Bool) (room : Option Nat) :
    (link h order window space).Simulation (link h order window space) (Sending.Like disk)
      (RepeatClient.Like good room) where
  reads _ := rfl
  serve hlike hstep := Sending.step_like hlike hstep
  accept := by
    intro c d packet c' out hlike haccept
    have hret : d.returned = c.returned := by rw [hlike.rest]; rfl
    simp only [Sending.link,RepeatClient.accept,hret] at haccept ⊢
    exact Link.related_unless (RepeatClient.recvMessage_like hspace hlike) haccept

end RepeatServer

/-- Streams that suffice make the transfer faithful, and only they do once the client has
returned. -/
structure FaithfulIff (disk : DiskFile) (good : Bool) (room : Option Nat) (feeder : DataFeeder)
    (sink : DataSink) (data : Multiset Packet) (acks : Multiset AckPacket) (returned : Bool) :
    Prop where
  faithful : StreamsSuffice disk good room → Faithful disk feeder sink data acks returned
  suffice : returned = true → Faithful disk feeder sink data acks returned →
    StreamsSuffice disk good room

theorem Delivering.faithfulIff {order : ByteOrder} {disk : DiskFile} {good : Bool}
    {room : Option Nat} {f g : DataFeeder} {a b : DataSink} {data : Multiset Packet}
    {returned : Bool} (h : Delivering order disk.sent g b data returned)
    (hfeeder : f.Supplies disk g) (hsink : a.Like good room b) (acks : Multiset AckPacket) :
    FaithfulIff disk good room f a data acks returned :=
  ⟨fun hsuffice => h.faithful hfeeder hsink hsuffice acks,
    fun hret hfaithful => h.suffice hfeeder hsink hret hfaithful⟩

theorem supplies_start (disk : DiskFile) : (feederOn disk 0).Supplies disk (feederAt disk.sent 0) :=
  ⟨0,rfl,rfl⟩

theorem faithfulIff_of_simulation {σ κ ε : Type} {L : Link σ κ ε Packet AckPacket}
    {S : σ → σ → Prop} {K : κ → κ → Prop} {order : ByteOrder} {disk : DiskFile} {good : Bool}
    {room : Option Nat} {feeder : σ → DataFeeder} {sink : κ → DataSink} {returned : κ → Bool}
    (hsim : L.Simulation L S K) (hS : ∀ {s t}, S s t → (feeder s).Supplies disk (feeder t))
    (hK : ∀ {c d}, K c d → (sink c).Like good room (sink d) ∧ returned d = returned c)
    {x₀ y₀ x : LinkState σ κ Packet AckPacket} (hstart : Link.Related S K x₀ y₀)
    (hdelivering : ∀ y, L.Run y₀ y → Delivering order disk.sent (feeder y.server)
      (sink y.client) y.data (returned y.client))
    (hrun : L.Run x₀ x) :
    FaithfulIff disk good room (feeder x.server) (sink x.client) x.data x.acks
      (returned x.client) := by
  obtain ⟨y,hrun',hrel⟩ := hsim.run hstart hrun
  obtain ⟨hsink,hreturned⟩ := hK hrel.client
  have hy := hdelivering y hrun'
  rw [← hrel.data,hreturned] at hy
  exact hy.faithfulIff (hS hrel.server) hsink x.acks

theorem StopWait.faithfulIff (order : ByteOrder) (disk : DiskFile) (good : Bool)
    (room : Option Nat) (hsize : numSegments disk.sent < 2^32)
    {x : LinkState StopWaitServer StopWaitClient Packet AckPacket}
    (hrun : (link order).Run (startOn disk good room) x) :
    FaithfulIff disk good room x.server.feeder x.client.sink x.data x.acks x.client.ended := by
  have hstart : Link.Related (StopWaitServer.Like disk) (StopWaitClient.Like good room)
      (startOn disk good room) (start disk.sent) :=
    ⟨⟨rfl,supplies_start disk⟩,⟨rfl,DataSink.like_onto good room⟩,rfl,rfl⟩
  refine faithfulIff_of_simulation (simulation order disk good room) (fun h => h.feeder)
    (fun h => ⟨h.sink,?_⟩) hstart (fun y hy => delivering hsize hy) hrun
  rw [h.rest]

theorem GoBackN.faithfulIff (order : ByteOrder) (window : UInt32) (disk : DiskFile) (good : Bool)
    (room : Option Nat) {x : LinkState (Sending GoBackServer) GoBackClient Packet AckPacket}
    (hrun : (link order window).Run (startOn disk good room) x) :
    FaithfulIff disk good room x.server.feeder x.client.sink x.data x.acks x.client.ended := by
  have hstart : Link.Related (Sending.Like disk) (GoBackClient.Like good room)
      (startOn disk good room) (start disk.sent) :=
    ⟨⟨rfl,supplies_start disk⟩,⟨rfl,DataSink.like_onto good room⟩,rfl,rfl⟩
  refine faithfulIff_of_simulation (simulation order window disk good room) (fun h => h.feeder)
    (fun h => ⟨h.sink,?_⟩) hstart (fun y hy => delivering hy) hrun
  rw [h.rest]

theorem RepeatServer.faithfulIff {γ : Type} (h : RepeatHooks γ) (order : ByteOrder)
    (window : UInt32) {space : RepeatClient → Bool} (disk : DiskFile) (good : Bool)
    (room : Option Nat) (hspace : Roomy order disk.sent window space)
    (hfree : RepeatClient.SinkFree space) {ctl : γ} {x : RepeatLink γ}
    (hrun : (link h order window space).Run (startOn ctl disk good room) x) :
    FaithfulIff disk good room x.server.feeder x.client.sink x.data x.acks x.client.returned := by
  have hstart : Link.Related (Sending.Like disk) (RepeatClient.Like good room)
      (startOn ctl disk good room) ⟨.start (fresh ctl) disk.sent,.fresh,0,0⟩ :=
    ⟨⟨rfl,supplies_start disk⟩,⟨rfl,DataSink.like_onto good room⟩,rfl,rfl⟩
  refine faithfulIff_of_simulation (simulation h order window hfree disk good room)
    (fun hlike => hlike.feeder) (fun hlike => ⟨hlike.sink,?_⟩) hstart
    (fun y hy => delivering hspace hy) hrun
  rw [hlike.rest]
  rfl

/-- In every protocol a transfer is faithful if the stream on the file delivers all of it and the
output file takes all of it, and a client that returns after a faithful transfer had such
streams. -/
theorem transfers_faithfulIff (order : ByteOrder) (disk : DiskFile) (good : Bool)
    (room : Option Nat) (window clientWindow : UInt32) (dupAcks : List UInt32) :
    (numSegments disk.sent < 2^32 →
      ∀ x, (StopWait.link order).Run (StopWait.startOn disk good room) x →
        FaithfulIff disk good room x.server.feeder x.client.sink x.data x.acks x.client.ended) ∧
    (∀ x, (GoBackN.link order window).Run (GoBackN.startOn disk good room) x →
      FaithfulIff disk good room x.server.feeder x.client.sink x.data x.acks x.client.ended) ∧
    (∀ x, (SelectiveRepeat.link order clientWindow).Run
        (RepeatServer.startOn window disk good room) x →
      FaithfulIff disk good room x.server.feeder x.client.sink x.data x.acks x.client.returned) ∧
    ∀ x, (SelectiveRepeatCC.link order clientWindow).Run
        (RepeatServer.startOn (.start dupAcks window) disk good room) x →
      FaithfulIff disk good room x.server.feeder x.client.sink x.data x.acks x.client.returned :=
  ⟨fun hsize _ hrun => StopWait.faithfulIff order disk good room hsize hrun,
    fun _ hrun => GoBackN.faithfulIff order window disk good room hrun,
    fun _ hrun => RepeatServer.faithfulIff SelectiveRepeat.hooks order clientWindow disk good room
      (SelectiveRepeat.roomy order disk.sent clientWindow) (fun _ _ => rfl) hrun,
    fun _ hrun => RepeatServer.faithfulIff SelectiveRepeatCC.hooks order clientWindow disk good room
      (SelectiveRepeatCC.roomy order disk.sent clientWindow) (fun _ _ => rfl) hrun⟩

namespace StopWait

theorem step_sendOn (order : ByteOrder) (disk : DiskFile) {k : Nat}
    (hk : k ≤ numSegments disk.sent) (seqNo : UInt32) :
    (link order).serve ⟨seqNo,feederOn disk k,.head⟩ (.send (calmTick ⟨0,0⟩)) =
      some (⟨seqNo,feederOn disk (k + 1),
        .wait (createDataPacketCore order (segment disk.sent k) seqNo) fullTimeout ⟨0,0⟩⟩,
        [createDataPacketCore order (segment disk.sent k) seqNo]) := by
  have hnext : (feederOn disk k).hasNext = true := by
    rw [hasNext_feederOn,hasNext_feederAt]
    exact hk
  have hstep : (link order).serve ⟨seqNo,feederOn disk k,.head⟩ (.send (calmTick ⟨0,0⟩)) = _ :=
    StopWaitServer.step_next hnext (calmTick_calm ⟨0,0⟩)
  rwa [getNextDataSegment_feederOn disk hk] at hstep

theorem run_oneSegment (order : ByteOrder) (disk : DiskFile) (good : Bool) (room : Option Nat)
    (hone : numSegments disk.sent = 1) :
    ∃ x, (link order).Run (startOn disk good room) x ∧ x.client.ended = true ∧
      x.client.sink = (DataSink.onto good room).feedNextData order (segment disk.sent 0) 0 ∧
      x.server.feeder = feederOn disk 2 ∧ x.server.seqNo = 1 := by
  have hsent : (link order).Run (startOn disk good room)
      ⟨_,⟨0,false,⟨0,0,0⟩,false,.onto good room⟩,filePacket order disk.sent 0 ::ₘ 0,0⟩ :=
    Link.RunWhere.serve .refl (.send (calmTick ⟨0,0⟩)) trivial rfl
      (step_sendOn order disk (Nat.zero_le _) 0)
  have hfits : (0 : UInt32).toNat < numSegments disk.sent := by
    rw [hone]
    exact Nat.zero_lt_one
  obtain ⟨c,haccept,hack,hended,-,-,hsink⟩ := accept_segment order (i := 0)
    (c := ⟨0,false,⟨0,0,0⟩,false,.onto good room⟩) hfits rfl rfl
  have hfirst : (link order).Run (startOn disk good room) ⟨_,c,0,createAckPacket 0 ::ₘ 0⟩ :=
    hsent.accept haccept
  have hread : (link order).Run (startOn disk good room) ⟨⟨1,feederOn disk 1,.head⟩,c,0,0⟩ :=
    hfirst.read (.receive ⟨0,0⟩ (.ok (createAckPacket 0))) trivial rfl rfl
  have hpacket : createDataPacketCore order (segment disk.sent 1) 1 =
      filePacket order disk.sent 1 := by
    rw [filePacket]
    rfl
  have hstep := step_sendOn order disk hone.ge 1
  rw [hpacket] at hstep
  have hmarker := hread.serve (.send (calmTick ⟨0,0⟩)) trivial rfl hstep
  rw [zero_add,Multiset.coe_singleton] at hmarker
  have hdone : numSegments disk.sent ≤ c.ackNo.toNat := by
    rw [hone,hack]
    exact le_refl _
  have hlast := StopWaitClient.recvMessage_marker order hdone
  rw [hack] at hlast
  have hended' := hmarker.accept ((link_accept order hended _).trans hlast)
  exact ⟨_,hended',rfl,hsink,rfl,rfl⟩

theorem written_oneSegment {order : ByteOrder} {disk : DiskFile} {good : Bool} {room : Option Nat}
    {sink : DataSink}
    (h : sink = (DataSink.onto good room).feedNextData order (segment disk.sent 0) 0) :
    sink.writer.written = OfStream.takes good room (disk.sent.take 512) := by
  have hwrote : (DataSink.onto good room).Wrote good room := rfl
  rw [h,(hwrote.feed order (segment disk.sent 0) 0).written,DataSink.fed,DataSink.feedNextData]
  simp [DataSink.onto,segment_bytes]

end StopWait

theorem transfers_faithful_byte :
    let disk : DiskFile := ⟨1,[7]⟩
    (∃ x, (StopWait.link .little).Run (StopWait.startOn disk true none) x ∧
      x.client.ended = true ∧ x.client.sink.writer.written = disk.delivered x.server.feeder) ∧
    FaithfulIff disk true none (feederOn disk 0) (.onto true none) 0 0 false := by
  intro disk
  have hone : numSegments disk.sent = 1 := by decide
  obtain ⟨hstop,hback,-,-⟩ := transfers_faithfulIff .little disk true none 1 1 List.nil
  obtain ⟨x,hrun,hended,-⟩ := StopWait.run_oneSegment .little disk true none hone
  have hfaithful := (hstop (by rw [hone]; decide) x hrun).faithful
    ⟨le_refl _,Or.inr ⟨rfl,nofun⟩⟩
  exact ⟨⟨x,hrun,hended,hfaithful.complete hended⟩,hback _ .refl⟩

/-- In the first transfer the output file could not be opened, in the second the stream on the file
fails at its first byte. Both clients return. -/
theorem transfers_unfaithful :
    (∃ x, (StopWait.link .little).Run (StopWait.startOn ⟨1,[7]⟩ false none) x ∧
      x.client.ended = true ∧ x.server.seqNo = 1 ∧
      DiskFile.delivered ⟨1,[7]⟩ x.server.feeder = [7] ∧
      x.client.sink.writer.written = List.nil) ∧
    ∃ x, (StopWait.link .little).Run (StopWait.startOn ⟨1,List.nil⟩ true none) x ∧
      x.client.ended = true ∧ x.server.seqNo = 1 ∧
      DiskFile.delivered ⟨1,List.nil⟩ x.server.feeder = List.nil ∧
      x.client.sink.writer.written = [0] := by
  constructor
  · obtain ⟨x,hrun,hended,hsink,hfeeder,hseq⟩ :=
      StopWait.run_oneSegment .little ⟨1,[7]⟩ false none (by decide)
    refine ⟨x,hrun,hended,hseq,?_,?_⟩
    · rw [hfeeder]
      rfl
    · rw [StopWait.written_oneSegment hsink]
      rfl
  · obtain ⟨x,hrun,hended,hsink,hfeeder,hseq⟩ :=
      StopWait.run_oneSegment .little ⟨1,List.nil⟩ true none (by decide)
    refine ⟨x,hrun,hended,hseq,?_,?_⟩
    · rw [hfeeder]
      rfl
    · rw [StopWait.written_oneSegment hsink]
      rfl

end ReliableTransfer
