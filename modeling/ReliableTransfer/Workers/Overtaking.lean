import ReliableTransfer.Workers.Completion

/-!
# A cumulative server with a selective client

A client of the selective-repeat family acknowledges a packet whether or not it has those before
it. A go-back-N server takes the acknowledgement for all of them.
-/

namespace ReliableTransfer

open Framework

variable {order : ByteOrder}

theorem repeat_marker {room : RepeatClient → Bool}
    (hroom : RepeatServer.Roomy order [7] 2 room) :
    ∃ c', RepeatClient.fresh.recvMessage order 2 room (.ok (filePacket order [7] 1)) =
        some (c',[createAckPacket 1]) ∧ c'.returned = false := by
  have hfresh := RepeatClient.fresh_holding order [7] 2
  have hans : RepeatClient.fresh.Answers 2 1 := Or.inr ⟨by decide,by decide⟩
  obtain ⟨c',hrun,hacc⟩ := hfresh.accept (i := 1) rfl (fun hc hpos => hroom _ hc hpos) (by decide)
    (by decide)
  rw [if_pos hans,RepeatClient.recvMessage_of_accept rfl] at hrun
  refine ⟨c',hrun,?_⟩
  by_contra hret
  rw [Bool.not_eq_false,RepeatClient.returned,Bool.and_eq_true,beq_iff_eq] at hret
  have hbase : c'.baseAckNo.toNat = 1 := by
    rw [hret.2]
    exact hacc.holding.last hret.1
  have hzero : c'.Got [7] 0 := Or.inl (Or.inl (by
    rw [hbase]
    decide))
  rcases (hacc.got 0).mp hzero with hgot | ⟨-,heq⟩
  · revert hgot
    simp [RepeatClient.Got,RepeatClient.Stored,RepeatClient.fresh]
  · contradiction

theorem selective_marker {client : ProtoType} (hsw : client ≠ .waitAndStop)
    (hgbn : client ≠ .goBackN) :
    ∃ k, (ClientWorker.start client 2).accept order (filePacket order [7] 1) =
        some (k,[createAckPacket 1]) ∧ k.returned = false := by
  cases client with
  | waitAndStop => contradiction
  | goBackN => contradiction
  | selectiveRepeat =>
    obtain ⟨c',hrun,hret⟩ := repeat_marker (SelectiveRepeat.roomy order [7] 2)
    exact ⟨.selectiveRepeat 2 c',congrArg (Option.map _) hrun,hret⟩
  | selectiveRepeatCC =>
    obtain ⟨c',hrun,hret⟩ := repeat_marker (SelectiveRepeatCC.roomy order [7] 2)
    exact ⟨.selectiveRepeatCC 2 c',congrArg (Option.map _) hrun,hret⟩

namespace GoBackServer

variable (order)

def bothSent : GoBackServer :=
  Sending.sendNext (ops 2) order [7] ⟨0,0⟩
    (Sending.sendNext (ops 2) order [7] ⟨0,0⟩ ⟨0,0,List.nil,⟨0,0⟩⟩)

theorem bothSent_good : Sending.Good (ops 2) [7] (Bookkept order [7] 2)
    ⟨bothSent order,feederAt [7] 2,.drain .afterSend⟩ := by
  have hstart : Bookkept order [7] 2 ⟨0,0,List.nil,⟨0,0⟩⟩ := ⟨le_refl _,Nat.zero_le _,rfl⟩
  have hone := (recordSent_bookkept hstart (by decide) ⟨0,0⟩).1
  have htwo := (recordSent_bookkept hone rfl ⟨0,0⟩).1
  exact ⟨htwo,le_refl 2,fun _ => rfl,False.elim,nofun⟩

theorem run_bothSent (k : ClientWorker) :
    (Pair.windowed order (ops 2)).CalmRun ⟨⟨⟨0,0,List.nil,⟨0,0⟩⟩,feederAt [7] 0,.head⟩,k,0,0⟩
      ⟨⟨bothSent order,feederAt [7] 2,.drain .afterSend⟩,k,
        filePacket order [7] 1 ::ₘ filePacket order [7] 0 ::ₘ 0,0⟩ := by
  have hstart : Bookkept order [7] 2 ⟨0,0,List.nil,⟨0,0⟩⟩ := ⟨le_refl _,Nat.zero_le _,rfl⟩
  have hone := (recordSent_bookkept hstart (by decide) ⟨0,0⟩).1
  have hgood : Sending.Good (ops 2) [7] (Bookkept order [7] 2)
      ⟨⟨0,0,List.nil,⟨0,0⟩⟩,feederAt [7] 0,.head⟩ :=
    Sending.start_good hstart rfl
  have hgood₁ : Sending.Good (ops 2) [7] (Bookkept order [7] 2)
      ⟨Sending.sendNext (ops 2) order [7] ⟨0,0⟩ ⟨0,0,List.nil,⟨0,0⟩⟩,feederAt [7] 1,
        .drain .afterSend⟩ :=
    ⟨hone,show 1 ≤ 2 by decide,fun _ => rfl,False.elim,nofun⟩
  have hfirst := Sending.reach_send order (ClientWorker.accept order) (c := k) (D := 0) (A := 0)
    (quiet 2 _) hgood (by simp) (by decide) rfl ⟨0,0⟩
  have hsecond := Sending.reach_send order (ClientWorker.accept order) (c := k)
    (D := filePacket order [7] 0 ::ₘ 0) (A := 0) (quiet 2 _) hgood₁ (by simp) (le_refl 1) rfl ⟨0,0⟩
  exact hfirst.trans hsecond

theorem run_ended (k : ClientWorker) : ∃ s,
    (Pair.windowed order (ops 2)).CalmRun
      ⟨⟨bothSent order,feederAt [7] 2,.drain .afterSend⟩,k,0,createAckPacket 1 ::ₘ 0⟩ ⟨s,k,0,0⟩ ∧
      s.loc = .returned false := by
  have hgood := bothSent_good order
  obtain ⟨s,hrecv,hbase,hseq,-⟩ := receiveAck_acceptable (i := 1) hgood.worker
    (show (1 : UInt32) ≥ 0 ∧ (1 : UInt32) < 0 + 2 by decide) (show 1 < 2 by decide) ⟨0,0⟩
  have hacked : (ops 2).receiveAck (arrival ⟨0,0⟩ (createAckPacket 1)) (bothSent order) =
      some (true,s) := hrecv
  obtain ⟨loc,hread,-,hloc⟩ := Sending.run_ack (ops 2) order (ClientWorker.accept order) (c := k)
    (D := 0) (s := ⟨bothSent order,feederAt [7] 2,.drain .afterSend⟩) rfl
    (Multiset.mem_cons_self (createAckPacket 1) 0) hacked
  obtain rfl := hloc rfl
  rw [Multiset.erase_cons_head] at hread
  have hs : Bookkept order [7] 2 s := (hgood.worker.received hrecv).1
  have hnum : s.seqNo.toNat = 2 := congrArg UInt32.toNat hseq
  have hpend : (ops 2).pending s = false := by
    rw [← Bool.not_eq_true,hs.pending_iff,hnum,hbase]
    decide
  have hdone : Sending.Good (ops 2) [7] (Bookkept order [7] 2)
      ⟨s,feederAt [7] 2,.drain .afterSend⟩ :=
    ⟨hs,hnum.le,fun _ => congrArg (feederAt [7]) hnum.symm,False.elim,nofun⟩
  have hclosed := Sending.run_close order (ClientWorker.accept order) (c := k) (D := 0) (A := 0)
    (quiet 2 _) hdone (by simp) hnum hpend
  exact ⟨_,hread.trans hclosed,rfl⟩

end GoBackServer

/-- A go-back-N server can end although its client still waits for the only segment. -/
theorem Pair.overtaken (order : ByteOrder) {client : ProtoType} (hsw : client ≠ .waitAndStop)
    (hgbn : client ≠ .goBackN) (dupAcks : List UInt32) :
    ∃ s k, (pair order).Run (pairStart .goBackN client dupAcks 2 2 [7]) ⟨s,k,0,0⟩ ∧
      s.Succeeded ∧ k.returned = false := by
  obtain ⟨k,hk,hret⟩ := selective_marker hsw hgbn
  obtain ⟨s,hended,hs⟩ := GoBackServer.run_ended order k
  have hsent := GoBackServer.run_bothSent order (.start client 2)
  rw [Multiset.cons_swap] at hsent
  have hlost : (pair order).Run (pairStart .goBackN client dupAcks 2 2 [7])
      ⟨.goBackN 2 ⟨GoBackServer.bothSent order,feederAt [7] 2,.drain .afterSend⟩,.start client 2,
        filePacket order [7] 1 ::ₘ 0,0⟩ :=
    Link.RunWhere.loseData ((goBackServer order 2).calmRun hsent).run
  have hmarker := hlost.accept hk
  rw [zero_add,Multiset.coe_singleton] at hmarker
  exact ⟨.goBackN 2 s,k,hmarker.trans ((goBackServer order 2).calmRun hended).run,hs,hret⟩

end ReliableTransfer
