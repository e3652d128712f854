import ReliableTransfer.Workers.StopWait.Termination
import ReliableTransfer.Workers.GoBackN.Termination
import ReliableTransfer.Workers.SelectiveRepeat.Termination
import ReliableTransfer.Workers.SelectiveRepeatCC.Liveness

/-!
# Whether the two sides agree on the end

None of the protocols makes the client wait for late retransmissions, and none makes the server
give up. Whether a server can return to a client that has returned is decided by the
acknowledgements in flight.
-/

namespace ReliableTransfer

open Framework

namespace SelectiveRepeatCC

variable {order : ByteOrder} {file : List UInt8} {orgWindow clientWindow : UInt32}
  {dupAcks : List UInt32} {x : RepeatLink Congestion}

theorem drainable (order : ByteOrder) (file : List UInt8) :
    RepeatServer.Drainable order file hooks fun _ => True := by
  rintro s hin - ⟨j,hj⟩
  have hlt := lt_of_le_of_lt hj.1 hj.2.1
  have hbound := lt_of_le_of_lt hlt s.seqNo.toNat_lt
  exact ⟨s.baseSeqNo,hin.base_outstanding hlt,base_admitted hbound s.ctl,fun _ _ _ _ => trivial⟩

theorem returns_iff (hrun : (link order clientWindow).Run (start dupAcks orgWindow file) x)
    (hclient : x.client.returned = true) (hne : x.server.loc ≠ .returned true) :
    (link order clientWindow).AttainableIff x (fun y => y.server.loc = .returned false)
      (∀ i, x.server.worker.Outstanding i → RepeatServer.AckInFlight x i) := by
  have hroom := roomy order file clientWindow
  have hclose := closes order file
  have hx := RepeatServer.safe_run hroom hrun
  have hs : RepeatServer.Coupled order file clientWindow x.server.worker x.client :=
    hx.parties.worker
  refine ⟨fun hacks => ?_,fun y hy hret i hi =>
    RepeatServer.ackInFlight_of_return hclose hroom hx hclient hy hret hi⟩
  refine RepeatServer.can_return hclose hroom (drainable order file) (fun s hin _ hnone => ?_) hx hne
    (hs.seqNo_of_returned hclient) trivial hacks
  have hnil : s.sendOrder.values = List.nil := by
    rw [List.eq_nil_iff_forall_not_mem]
    exact fun i hi => hnone i ((hin.mem_order i).mp hi)
  simp [hooks,hnil]

end SelectiveRepeatCC

/-- In each of the four protocols, a server that has not given up can return to a client that has
returned exactly if it has no unacknowledged packet or the acknowledgements it needs are in
flight: of the packet it waits for, of the last packet, or of every outstanding packet. -/
theorem termination_agreement (order : ByteOrder) (file : List UInt8)
    (window clientWindow : UInt32) (dupAcks : List UInt32) :
    (∀ x, (StopWait.link order).Run (StopWait.start file) x → x.client.ended = true →
      x.server.loc ≠ .returned true →
      (StopWait.link order).AttainableIff x (fun y => y.server.loc = .returned false)
        (x.server.kept = none ∨ ∃ a ∈ x.acks, a.ackno = x.server.seqNo)) ∧
    (∀ x, (GoBackN.link order window).Run (GoBackN.start file) x → x.client.ended = true →
      x.server.loc ≠ .returned true →
      (GoBackN.link order window).AttainableIff x (fun y => y.server.loc = .returned false)
        (x.server.worker.unackedPacket = List.nil ∨
          ∃ a ∈ x.acks, a.ackno + 1 = x.server.worker.seqNo ∧
            x.server.worker.Acceptable window a)) ∧
    (∀ x, (SelectiveRepeat.link order clientWindow).Run (SelectiveRepeat.start window file) x →
      x.client.returned = true → x.server.loc ≠ .returned true → x.server.worker.Tidy →
      (SelectiveRepeat.link order clientWindow).AttainableIff x
        (fun y => y.server.loc = .returned false)
        (∀ i, x.server.worker.Outstanding i →
          ∃ a ∈ x.acks, a.ackno = i ∧ x.server.worker.Acceptable SelectiveRepeat.hooks a)) ∧
    (∀ x, (SelectiveRepeatCC.link order clientWindow).Run
        (SelectiveRepeatCC.start dupAcks window file) x →
      x.client.returned = true → x.server.loc ≠ .returned true →
      (SelectiveRepeatCC.link order clientWindow).AttainableIff x
        (fun y => y.server.loc = .returned false)
        (∀ i, x.server.worker.Outstanding i → ∃ a ∈ x.acks, a.ackno = i)) :=
  ⟨fun _ hrun hclient hne => StopWait.returns_iff hrun hclient hne,
    fun _ hrun hclient hne => GoBackN.returns_iff hrun hclient hne,
    fun _ hrun hclient hne htidy => SelectiveRepeat.returns_iff hrun hclient hne htidy,
    fun _ hrun hclient hne => SelectiveRepeatCC.returns_iff hrun hclient hne⟩

theorem termination_agreement_marker :
    (∃ order x, (StopWait.link order).Run (StopWait.start List.nil) x ∧ x.client.ended = true ∧
      ∃ y, (StopWait.link order).CalmRun x y ∧ y.server.loc = .returned false) ∧
    (∃ order x, (GoBackN.link order 1).Run (GoBackN.start List.nil) x ∧ x.client.ended = true ∧
      ∃ y, (GoBackN.link order 1).CalmRun x y ∧ y.server.loc = .returned false) ∧
    (∃ order x, (SelectiveRepeat.link order 1).Run (SelectiveRepeat.start 1 List.nil) x ∧
      x.client.returned = true ∧
      ∃ y, (SelectiveRepeat.link order 1).CalmRun x y ∧ y.server.loc = .returned false) ∧
    (∃ order x, (SelectiveRepeatCC.link order 1).Run
        (SelectiveRepeatCC.start List.nil 1 List.nil) x ∧ x.client.returned = true ∧
      ∃ y, (SelectiveRepeatCC.link order 1).CalmRun x y ∧ y.server.loc = .returned false) := by
  obtain ⟨hsw,hgbn,hsr,hcc⟩ := termination_agreement .little List.nil 1 1 List.nil
  have hmem : createAckPacket 0 ∈ createAckPacket 0 ::ₘ (0 : Multiset AckPacket) :=
    Multiset.mem_cons_self _ _
  refine ⟨?_,?_,?_,?_⟩
  · obtain ⟨c,hrun,hended⟩ := StopWait.marker_delivered .little
    exact ⟨.little,_,hrun,hended,(hsw _ hrun hended (by simp)).attained
      (Or.inr ⟨createAckPacket 0,hmem,rfl⟩)⟩
  · obtain ⟨c,hrun,hconsumed,hack⟩ := GoBackN.first_consumed .little List.nil
    have hended := hconsumed.ended.mpr hack
    have hwin : (0 : UInt32) ≤ 0 ∧ (0 : UInt32) < 0 + 1 := by decide
    exact ⟨.little,_,hrun,hended,(hgbn _ hrun hended (by simp)).attained
      (Or.inr ⟨createAckPacket 0,hmem,rfl,hwin⟩)⟩
  · obtain ⟨s,c,hrun,hret,hne,htidy,hctl,hbase,hout⟩ := RepeatServer.marker_delivered .little
      SelectiveRepeat.hooks 1 (SelectiveRepeat.roomy .little List.nil 1) (by decide)
    have hacc : s.worker.Acceptable SelectiveRepeat.hooks (createAckPacket 0) := by
      rw [RepeatServer.Acceptable,hbase,hctl]
      decide
    exact ⟨.little,_,hrun,hret,(hsr _ hrun hret hne htidy).attained fun i hi =>
      ⟨createAckPacket 0,hmem,((hout i).mp hi).symm,hacc⟩⟩
  · obtain ⟨s,c,hrun,hret,hne,-,-,-,hout⟩ := RepeatServer.marker_delivered .little
      SelectiveRepeatCC.hooks (.start List.nil 1) (SelectiveRepeatCC.roomy .little List.nil 1)
      (by decide)
    exact ⟨.little,_,hrun,hret,(hcc _ hrun hret hne).attained fun i hi =>
      ⟨createAckPacket 0,hmem,((hout i).mp hi).symm⟩⟩

/-- In each protocol the acknowledgement of the marker can be lost, and then the server never
returns to a client that has. -/
theorem termination_disagreement :
    (∃ order x, (StopWait.link order).Run (StopWait.start List.nil) x ∧ x.client.ended = true ∧
      x.server.loc ≠ .returned true ∧
      ∀ y, (StopWait.link order).Run x y → y.server.loc ≠ .returned false) ∧
    (∃ order x, (GoBackN.link order 1).Run (GoBackN.start List.nil) x ∧ x.client.ended = true ∧
      x.server.loc ≠ .returned true ∧
      ∀ y, (GoBackN.link order 1).Run x y → y.server.loc ≠ .returned false) ∧
    (∃ order x, (SelectiveRepeat.link order 1).Run (SelectiveRepeat.start 1 List.nil) x ∧
      x.client.returned = true ∧ x.server.loc ≠ .returned true ∧
      ∀ y, (SelectiveRepeat.link order 1).Run x y → y.server.loc ≠ .returned false) ∧
    (∃ order x, (SelectiveRepeatCC.link order 1).Run
        (SelectiveRepeatCC.start List.nil 1 List.nil) x ∧ x.client.returned = true ∧
      x.server.loc ≠ .returned true ∧
      ∀ y, (SelectiveRepeatCC.link order 1).Run x y → y.server.loc ≠ .returned false) := by
  refine ⟨?_,?_,?_,?_⟩
  · obtain ⟨c,hrun,hended⟩ := StopWait.marker_delivered .little
    refine ⟨.little,_,hrun.loseAck,hended,by simp,fun y hy hret => ?_⟩
    rcases (StopWait.returns_iff hrun.loseAck hended (by simp)).needed y hy hret with
      hnone | ⟨a,ha,-⟩
    · simp [StopWaitServer.kept] at hnone
    · exact Multiset.notMem_zero a ha
  · obtain ⟨c,hrun,hconsumed,hack⟩ := GoBackN.first_consumed .little List.nil
    have hended := hconsumed.ended.mpr hack
    refine ⟨.little,_,hrun.loseAck,hended,by simp,fun y hy hret => ?_⟩
    rcases (GoBackN.returns_iff hrun.loseAck hended (by simp)).needed y hy hret with
      hnil | ⟨a,ha,-⟩
    · exact absurd hnil (List.cons_ne_nil _ _)
    · exact Multiset.notMem_zero a ha
  · obtain ⟨s,c,hrun,hret,hne,htidy,-,-,hout⟩ := RepeatServer.marker_delivered .little
      SelectiveRepeat.hooks 1 (SelectiveRepeat.roomy .little List.nil 1) (by decide)
    refine ⟨.little,_,hrun.loseAck,hret,hne,fun y hy hret' => ?_⟩
    obtain ⟨a,ha,-⟩ := (SelectiveRepeat.returns_iff hrun.loseAck hret hne htidy).needed y hy hret' 0
      ((hout 0).mpr rfl)
    exact Multiset.notMem_zero a ha
  · obtain ⟨s,c,hrun,hret,hne,-,-,-,hout⟩ := RepeatServer.marker_delivered .little
      SelectiveRepeatCC.hooks (.start List.nil 1) (SelectiveRepeatCC.roomy .little List.nil 1)
      (by decide)
    refine ⟨.little,_,hrun.loseAck,hret,hne,fun y hy hret' => ?_⟩
    obtain ⟨a,ha,-⟩ := (SelectiveRepeatCC.returns_iff hrun.loseAck hret hne).needed y hy hret' 0
      ((hout 0).mpr rfl)
    exact Multiset.notMem_zero a ha

end ReliableTransfer
