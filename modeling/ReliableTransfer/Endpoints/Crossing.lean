import ReliableTransfer.Endpoints.Containment
import ReliableTransfer.Endpoints.Transfers

/-!
# Two children of one client

A client that asks twice has two children, which send to it side by side. A stop-and-wait client
answers the one behind with an acknowledgement of what only the other one has sent.
-/

namespace ReliableTransfer

open Framework

theorem ClientWorker.Expects.answers {order : ByteOrder} {file : List UInt8} {c : StopWaitClient}
    {n : UInt32} (hk : (stopWait c).Expects order file n) (hpos : 0 < n.toNat)
    (hn : n.toNat ≤ numSegments file) {m : UInt32} (hne : m ≠ n) :
    (stopWait c).accept order (filePacket order file m) =
      some (.stopWait c,[createAckPacket (n - 1)]) := by
  have hack : c.ackNo = n := eq_of_below hk.got
  have hc : c.Consumed order file := hk.holds
  have hended : c.ended = false := by
    rw [← Bool.not_eq_true,hc.ended,hack]
    omega
  have hone : c.sentOne = true := hc.sentOne.mpr (hack.symm ▸ hpos)
  have hlast : c.lastPack = createAckPacket (n - 1) := by
    rw [← hack]
    exact hc.lastPack (hack.symm ▸ hpos)
  simp [ClientWorker.accept,returned,hended,recvMessage,StopWaitClient.recvMessage,hack,hne,hone,hlast]

namespace Deployment

variable {ι : Type} [DecidableEq ι] {d : Deployment ι} {i p q : ι} {c : Client ι}
  {file : List UInt8}

theorem twice_run (hi : d.clients i = some c) (hfile : d.requested c.filename = some file)
    (hp : d.start.parties p = none) (hq : d.start.parties q = none) (hpq : p ≠ q) :
    ∃ x, d.Reaches x ∧ x.parties q = some (.child i
        (.start d.server.type d.server.dupAcks d.server.slideWindow (feederAt file 0))) ∧
      (d.host p i c).Stands x.parties 0
        ⟨.start d.server.type d.server.dupAcks d.server.slideWindow (feederAt file 0),
          .start c.type c.recvWindow,0,0⟩ x := by
  obtain ⟨hphase,hserver⟩ := d.asking i c hi
  obtain ⟨pack,hpack,-⟩ := Option.bind_eq_some_iff.mp hfile
  have hia : i ≠ d.address := by
    rintro rfl
    rw [d.apart] at hi
    contradiction
  have hlisten : d.start.parties d.address = some (.listener d.server true) := if_pos rfl
  have hstart : d.start.parties i = some (.client c) := by
    simp [start,hia,hi]
  have hpi : p ≠ i := by
    rintro rfl
    rw [hstart] at hp
    contradiction
  have hqi : q ≠ i := by
    rintro rfl
    rw [hstart] at hq
    contradiction
  have hpa : p ≠ d.address := by
    rintro rfl
    rw [hlisten] at hp
    contradiction
  let first : Client ι := { c with phase := .awaiting 1 }
  let again : Client ι := { c with phase := .asking 1 0 }
  let second : Client ι := { c with phase := .awaiting 2 }
  have hsilence : first.step d.order .noResponse = some (again,List.nil) := rfl
  let child : Process ι := .child i
    (.start d.server.type d.server.dupAcks d.server.slideWindow (feederAt file 0))
  let P : ι → Option (Process ι) := Function.update d.start.parties i (some (.client second))
  have hP {j : ι} (hj : j ≠ i) : P j = d.start.parties j := Function.update_of_ne hj _ _
  have hasked := (ask_run (F := 0) hstart hphase hserver hpack).run
  have hsilent := Network.RunWhere.act_silent d.network (L := fun _ => True)
    (F := ⟨i,d.address,packetBytes pack⟩ ::ₘ 0) (e := .client .noResponse) trivial
    (Function.update_self i (some (Process.client first)) d.start.parties) rfl
    (Session.react_client hsilence d.address)
  rw [Function.update_idem,List.map_nil,Multiset.coe_nil,add_zero] at hsilent
  have hagain := (ask_run (c := again) (F := ⟨i,d.address,packetBytes pack⟩ ::ₘ 0)
    (Function.update_self i (some (Process.client again)) d.start.parties) rfl hserver hpack).run
  rw [Function.update_idem] at hagain
  have hforkp := (fork_run (d := d) (P := P) (F := ⟨i,d.address,packetBytes pack⟩ ::ₘ 0)
    ((hP hia.symm).trans hlisten) hpack hfile ((hP hpi).trans hp) i).run
  have hforkq := (fork_run (d := d) (F := 0) ((Function.update_of_ne hpa.symm (some child) P).trans
    ((hP hia.symm).trans hlisten)) hpack hfile
    ((Function.update_of_ne hpq.symm (some child) P).trans ((hP hqi).trans hq)) i).run
  refine ⟨_,hasked.trans (hsilent.trans (hagain.trans (hforkp.trans hforkq))),
    Function.update_self _ _ _,⟨_,?_,rfl⟩,⟨.client second,?_,_,.awaiting rfl,rfl⟩,
    fun j hjp hji => rfl,by simp⟩
  · exact (Function.update_of_ne hpq _ _).trans (Function.update_self _ _ _)
  · exact (Function.update_of_ne hqi.symm _ _).trans ((Function.update_of_ne hpi.symm _ _).trans
      (Function.update_self _ _ _))

omit [DecidableEq ι] in
theorem Runs.type {P : ι → Option (Process ι)} {phase : ClientPhase ι} {k : ClientWorker}
    (h : phase.Runs c.type c.recvWindow k)
    (hfits : d.Fits P i (.client { c with phase := phase })) : k.type = c.type := by
  cases h with
  | awaiting hk => rw [hk,ClientWorker.start_type]
  | receiving =>
    cases hfits with
    | client hne hserver hall => exact (hall k none rfl).1

theorem first_overrun (order : ByteOrder) (file : List UInt8) {window : UInt32} (h : 1 < window) :
    (GoBackServer.recordSent (filePacket order file 0) ⟨0,0⟩ ⟨0,0,List.nil,⟨0,0⟩⟩).receiveAck window
      (arrival ⟨0,0⟩ (createAckPacket 1)) = none := by
  have hstart : GoBackServer.Bookkept order file window ⟨0,0,List.nil,⟨0,0⟩⟩ :=
    ⟨le_refl _,Nat.zero_le _,rfl⟩
  have hopen : GoBackServer.windowOpen window ⟨0,0,List.nil,⟨0,0⟩⟩ = true := by
    rw [UInt32.lt_iff_toNat_lt] at h
    apply decide_eq_true
    rw [UInt32.zero_add]
    exact UInt32.lt_iff_toNat_lt.mpr (Nat.zero_lt_of_lt h)
  have hsent := (GoBackServer.recordSent_bookkept hstart hopen ⟨0,0⟩).1
  rw [hsent.receiveAck_none_iff (answer_arrival _ _ _)]
  refine ⟨⟨verifyChecksumAck_createAckPacket 1,?_,?_⟩,?_⟩
  · exact UInt32.le_iff_toNat_le.mpr (Nat.zero_le _)
  · change 1 < 0 + window
    rwa [UInt32.zero_add]
  · exact UInt32.lt_irrefl 1

/-- One child is two packets ahead of the other. -/
theorem crossing_run (htype : d.server.type = .goBackN) (hstop : c.type = .waitAndStop)
    (hi : d.clients i = some c) (hfile : d.requested c.filename = some file)
    (hp : d.start.parties p = none) (hq : d.start.parties q = none) (hpq : p ≠ q)
    (hpi : p ≠ i) (hqi : q ≠ i)
    (hsize : Modest file d.server.slideWindow c.recvWindow) (htwo : 2 ≤ numSegments file)
    (hwindow : 1 < d.server.slideWindow) :
    ∃ x s, d.Reaches x ∧ x.parties q = some (.child i (.goBackN d.server.slideWindow s)) ∧
      s.loc = .drain .afterSend ∧ ⟨i,q,ackBytes (createAckPacket 1)⟩ ∈ x.flight ∧
      s.worker.receiveAck d.server.slideWindow (arrival ⟨0,0⟩ (createAckPacket 1)) = none := by
  have hnumbers := hsize.numbers
  obtain ⟨x,hx,hxq,hstands⟩ := twice_run hi hfile hp hq hpq
  rw [htype] at hxq hstands
  have hk := ClientWorker.start_expects d.order c.type hsize
  have hrest : Sending.Resting file (fun n s =>
      GoBackServer.Bookkept d.order file d.server.slideWindow s ∧ s.baseSeqNo = n ∧ s.seqNo = n) 0
      ⟨⟨0,0,List.nil,⟨0,0⟩⟩,feederAt file 0,.head⟩ :=
    ⟨⟨⟨le_refl _,Nat.zero_le _,rfl⟩,rfl,rfl⟩,rfl,Or.inl rfl⟩
  have hsteady := GoBackServer.steady d.order hsize.window_pos hsize.window_fits
  have hone : (0 + 1 : UInt32).toNat ≤ numSegments file := Nat.le_of_succ_le htwo
  obtain ⟨s₁,k₁,hrun₁,hs₁,hk₁⟩ := hrest.round (D := 0) (A := 0) hsteady hk (Nat.zero_le _) (by omega)
  obtain ⟨s₂,k₂,hrun₂,hs₂,hk₂⟩ := hs₁.round (D := 0) (A := 0) hsteady hk₁ hone (by omega)
  obtain ⟨y,hy,hstands'⟩ := hstands.calmRun hpi
    ((Pair.goBackServer d.order d.server.slideWindow).calmRun (hrun₁.trans hrun₂))
  have hreach : d.Reaches y := hx.trans hy.run
  obtain ⟨-,⟨_,hyi,phase,hphase,rfl⟩,hothers,hflight⟩ := hstands'
  have hktype := (Runs.type hphase (hreach.holds.1.party i _ hyi)).trans hstop
  -- from here on the child behind sends, and the client answers
  have hstandsq : (d.host q i c).Stands y.parties 0
      ⟨.start .goBackN d.server.dupAcks d.server.slideWindow (feederAt file 0),k₂,0,0⟩ y :=
    ⟨⟨_,(hothers q hpq.symm hqi).trans hxq,rfl⟩,⟨_,hyi,phase,hphase,rfl⟩,fun _ _ _ => rfl,
      hflight⟩
  cases k₂ with
  | stopWait c₂ =>
    have hanswer := hk₂.answers (by decide) htwo (m := 0) (by decide)
    have hsent := Sending.reach_send d.order (ClientWorker.accept d.order)
      (c := ClientWorker.stopWait c₂) (D := 0) (A := 0) hsteady.quiet
      (hrest.good hsteady (Nat.zero_le _)) (by simp) (Nat.zero_le _)
      (hsteady.opens hrest.worker (Nat.zero_le _)) ⟨0,0⟩
    have htaken := hsent.trans (.single (.accept hanswer))
    obtain ⟨z,hz,hstandsz⟩ := hstandsq.calmRun hqi
      ((Pair.goBackServer d.order d.server.slideWindow).calmRun htaken)
    obtain ⟨⟨_,hzq,rfl⟩,-,-,hzflight⟩ := hstandsz
    refine ⟨z,_,hreach.trans hz.run,hzq,rfl,?_,first_overrun d.order file hwindow⟩
    rw [hzflight,zero_add]
    exact mem_between.mpr (Or.inr ⟨_,Multiset.mem_singleton_self _,rfl⟩)
  | goBackN c₂ => contradiction
  | selectiveRepeat window c₂ => contradiction
  | selectiveRepeatCC window c₂ => contradiction

/-- All clients run one protocol, and ask for names that fit into a packet. -/
structure Uniform (d : Deployment ι) (client : ProtoType) : Prop where
  type : ∀ i c, d.clients i = some c → c.type = client
  request : ∀ i c, d.clients i = some c → Client.request d.order c.filename ≠ none

def twoSegments : List UInt8 := List.replicate 513 7

theorem numSegments_twoSegments : numSegments twoSegments = 2 := by
  rw [numSegments,twoSegments,List.length_replicate]

def crossed : Deployment ℕ :=
  offering Nat.zero_ne_one twoSegments (by rw [numSegments_twoSegments]; decide) .goBackN
    .waitAndStop 2

theorem crossed_uniform : crossed.Uniform .waitAndStop where
  type i c hc := by rw [offering_client _ _ hc]
  request i c hc := by
    rw [offering_client _ _ hc,request_of_le _ (by decide)]
    simp

theorem crossed_modest : Modest twoSegments 2 2 := by
  constructor <;> simp [numSegments_twoSegments]

theorem crossed_overruns : ¬crossed.Contained := by
  intro hcontained
  obtain ⟨x,s,hx,hq,hloc,hack,hnone⟩ := crossing_run (d := crossed) (i := 1) (p := 2) (q := 3)
    (c := ⟨.waitAndStop,[97],0,2,.asking 0 0⟩) rfl rfl rfl
    (offering_requested Nat.zero_ne_one _ _ _ _) rfl rfl
    (by decide) (by decide) (by decide) crossed_modest numSegments_twoSegments.ge (by decide)
  refine hcontained x hx 3 _ (.work (.windowed (.ack (arrival ⟨0,0⟩ (createAckPacket 1))))
    (.replicate 8 0) false (some (1,ackBytes (createAckPacket 1)))) hq ?_ ?_
  · rintro m ⟨⟩
    exact hack
  · exact ⟨Session.delivered_reads (.windowed (.ack (arrival ⟨0,0⟩ (createAckPacket 1)))) _ _ 1,
      Or.inl ⟨⟨_,hloc⟩,hnone⟩⟩

omit [DecidableEq ι] in
theorem Uniform.civil {client : ProtoType} (hd : d.Uniform client) (hclient : client ≠ .waitAndStop) :
    d.Civil :=
  ⟨fun i c hc _ => hd.type i c hc ▸ hclient,hd.request⟩

/-- A go-back-N server is safe from exactly the clients that do not run stop-and-wait: their
answer to an old packet can make the server erase from an empty vector. -/
theorem goBackN_contained_iff (client : ProtoType) :
    (∀ (ι : Type) [DecidableEq ι] (d : Deployment ι), d.server.type = .goBackN →
      d.Uniform client → d.Contained) ↔ client ≠ .waitAndStop := by
  constructor
  · rintro hall rfl
    exact crossed_overruns (hall ℕ crossed rfl crossed_uniform)
  · intro hclient ι _ d htype hd
    exact (hd.civil hclient).contained htype

end Deployment

end ReliableTransfer
