import ReliableTransfer.Endpoints.Validation
import ReliableTransfer.Workers.SelectiveRepeatCC.Receivers

/-!
# Datagrams of other senders

The clients fill `src_addr` on every receive and never look at it. A datagram of another sender
is as good as one of the server, so it does no harm only where the client has no use for its
number.
-/

namespace ReliableTransfer

open Framework

/-- The datagram is a checksum-valid packet with the awaited number. -/
def TakesNext (order : ByteOrder) (awaited : UInt32) : Recv Packet → Prop
  | .ok packet => verifyChecksum order packet = true ∧ packet.seqno = awaited
  | _ => False

/-- The datagram is a checksum-valid packet of the window, and a segment that is not buffered yet,
a segment whose copy would leave the buffers, or a marker that is not recorded yet. -/
def RepeatClient.Takes (order : ByteOrder) (window : UInt32) (c : RepeatClient) :
    Recv Packet → Prop
  | .ok packet => verifyChecksum order packet = true ∧ c.InWindow window packet.seqno ∧
      if packet.len = 8 then ¬(c.ended = true ∧ c.lastAckNo = packet.seqno)
      else packet.seqno ∉ c.dataReceived ∨ ¬packet.LenFits
  | _ => False

theorem StopWaitClient.recvMessage_skip {order : ByteOrder} {c : StopWaitClient}
    {recv : Recv Packet} (h : ¬TakesNext order c.ackNo recv) :
    ∃ out, c.recvMessage order recv = some (c,out) := by
  rw [recvMessage_inOrder]
  cases recv with
  | timeOut => exact ⟨_,rfl⟩
  | error => exact ⟨_,rfl⟩
  | ok packet => exact ⟨_,inOrder_other h⟩

theorem GoBackClient.recvMessage_skip {order : ByteOrder} {c : GoBackClient}
    {recv : Recv Packet} (h : ¬TakesNext order c.baseAckNo recv) :
    ∃ out, c.recvMessage order recv = some (c,out) := by
  rw [recvMessage_inOrder]
  cases recv with
  | timeOut => exact ⟨_,rfl⟩
  | error => exact ⟨_,rfl⟩
  | ok packet => exact ⟨_,inOrder_other h⟩

theorem RepeatClient.recvMessage_skip {order : ByteOrder} {window : UInt32}
    {room : RepeatClient → Bool} {c : RepeatClient} (hc : c.Confined window) {recv : Recv Packet}
    (h : ¬c.Takes order window recv) :
    ∃ out, c.recvMessage order window room recv = some (c,out) := by
  cases recv with
  | timeOut => exact ⟨_,rfl⟩
  | error => exact ⟨_,rfl⟩
  | ok packet =>
    rw [recvMessage]
    by_cases hsum : verifyChecksum order packet = true
    · rw [if_pos hsum]
      by_cases hold : c.Old window packet.seqno
      · rw [if_pos hold]
        exact ⟨_,rfl⟩
      · rw [if_neg hold]
        by_cases hwin : c.InWindow window packet.seqno
        · rw [if_pos hwin]
          by_cases hlen : packet.len = 8
          · have hsame : c.ended = true ∧ c.lastAckNo = packet.seqno := by
              by_contra hnew
              exact h ⟨hsum,hwin,by rwa [if_pos hlen]⟩
            rw [if_neg (not_not.mpr hlen),← hsame.1,← hsame.2]
            exact ⟨_,rfl⟩
          · have hknown : packet.seqno ∈ c.dataReceived ∧ packet.LenFits := by
              by_contra hnew
              rw [not_and_or] at hnew
              exact h ⟨hsum,hwin,by rwa [if_neg hlen]⟩
            obtain ⟨coreData,hdata⟩ :=
              Option.isSome_iff_exists.mp ((extractPureData_isSome packet).mpr hknown.2)
            rw [if_pos hlen,hdata]
            refine ⟨[createAckPacket packet.seqno],?_⟩
            have hstored : ¬(packet.seqno ∉ c.dataReceived ∧ room c = true) :=
              fun hnew => hnew.1 hknown.1
            simp only [Option.bind_eq_bind,Option.bind_some,if_neg hstored,
              handleWindow_of_notMem hc.base_notMem]
        · rw [if_neg hwin]
          exact ⟨_,rfl⟩
    · rw [if_neg hsum]
      exact ⟨_,rfl⟩

/-- In every protocol the client ends in the same state, with the same bytes written, as without
the datagrams of other senders, if none of them arrives when the client takes it. -/
theorem foreign_ignored {ι : Type} [DecidableEq ι] (own : ι) (order : ByteOrder)
    (window : UInt32) (rs : List (ι × Recv Packet)) :
    let ownOnly := (rs.filter fun r => r.1 = own).map Prod.snd
    (∀ c, (StopWaitClient.receiver order).Untaken (fun c => TakesNext order c.ackNo) own c rs →
      ((StopWaitClient.receiver order).run c (rs.map Prod.snd)).state =
        ((StopWaitClient.receiver order).run c ownOnly).state) ∧
    (∀ c, (GoBackClient.receiver order).Untaken (fun c => TakesNext order c.baseAckNo) own c rs →
      ((GoBackClient.receiver order).run c (rs.map Prod.snd)).state =
        ((GoBackClient.receiver order).run c ownOnly).state) ∧
    ∀ room, (RepeatClient.receiver order window room).Untaken
        (RepeatClient.Takes order window) own .fresh rs →
      ((RepeatClient.receiver order window room).run .fresh (rs.map Prod.snd)).state =
        ((RepeatClient.receiver order window room).run .fresh ownOnly).state := by
  intro ownOnly
  refine ⟨fun c h => ?_,fun c h => ?_,fun room h => ?_⟩
  · exact Receiver.run_untaken (I := fun _ => True) (fun _ _ _ => trivial)
      (fun _ _ _ hskip => StopWaitClient.recvMessage_skip hskip) trivial h
  · exact Receiver.run_untaken (I := fun _ => True) (fun _ _ _ => trivial)
      (fun _ _ _ hskip => GoBackClient.recvMessage_skip hskip) trivial h
  · exact Receiver.run_untaken (RepeatClient.keeps_confined order window room)
      (fun _ _ hc hskip => RepeatClient.recvMessage_skip hc hskip)
      (RepeatClient.fresh_confined window) h

theorem marker_len : (filePacket .little List.nil 0).len = 8 :=
  (filePacket_len .little List.nil 0).mpr (le_refl _)

/-- A foreign marker numbered 1 changes nothing while packet 0 is awaited, with a receiving window
of 1. -/
theorem foreign_ignored_marker :
    let rs := [((1 : Fin 2),Recv.ok (filePacket .little List.nil 1))]
    ((StopWaitClient.receiver .little).run ⟨0,false,⟨0,0,0⟩,false,.fresh⟩ (rs.map Prod.snd)).state =
        ((StopWaitClient.receiver .little).run ⟨0,false,⟨0,0,0⟩,false,.fresh⟩ List.nil).state ∧
    ((GoBackClient.receiver .little).run ⟨0,false,.fresh⟩ (rs.map Prod.snd)).state =
        ((GoBackClient.receiver .little).run ⟨0,false,.fresh⟩ List.nil).state ∧
    ((RepeatClient.receiver .little 1 SelectiveRepeat.room).run .fresh (rs.map Prod.snd)).state =
      ((RepeatClient.receiver .little 1 SelectiveRepeat.room).run .fresh List.nil).state := by
  intro rs
  have hnext : ¬TakesNext .little 0 (.ok (filePacket .little List.nil 1)) := fun h =>
    absurd h.2 (by decide)
  have hwin : ¬RepeatClient.fresh.Takes .little 1 (.ok (filePacket .little List.nil 1)) := fun h =>
    absurd (show RepeatClient.fresh.InWindow 1 1 from h.2.1) (by decide)
  obtain ⟨hstop,hback,hrepeat⟩ := foreign_ignored (0 : Fin 2) .little 1 rs
  exact ⟨hstop _ (Or.inr ⟨fun _ => hnext,fun _ _ _ => trivial⟩),
    hback _ (Or.inr ⟨fun _ => hnext,fun _ _ _ => trivial⟩),
    hrepeat SelectiveRepeat.room (Or.inr ⟨fun _ => hwin,fun _ _ _ => trivial⟩)⟩

/-- A single marker numbered 0 from another sender makes every client return, with nothing from
its own server. -/
theorem foreign_ends :
    let own := (List.nil : List (Recv Packet))
    let both := [Recv.ok (filePacket .little List.nil 0)]
    (((StopWaitClient.receiver .little).run ⟨0,false,⟨0,0,0⟩,false,.fresh⟩ own).state.map
        StopWaitClient.ended = some false ∧
      ((StopWaitClient.receiver .little).run ⟨0,false,⟨0,0,0⟩,false,.fresh⟩ both).state.map
        StopWaitClient.ended = some true) ∧
    (((GoBackClient.receiver .little).run ⟨0,false,.fresh⟩ own).state.map
        GoBackClient.ended = some false ∧
      ((GoBackClient.receiver .little).run ⟨0,false,.fresh⟩ both).state.map
        GoBackClient.ended = some true) ∧
    ∀ room, ((RepeatClient.receiver .little 1 room).run .fresh own).state.map
        RepeatClient.returned = some false ∧
      ((RepeatClient.receiver .little 1 room).run .fresh both).state.map
        RepeatClient.returned = some true := by
  intro own both
  have hmarker := marker_len
  refine ⟨⟨rfl,?_⟩,⟨rfl,?_⟩,fun room => ⟨rfl,?_⟩⟩
  · simp [both,Receiver.run,StopWaitClient.receiver,StopWaitClient.recvMessage,hmarker]
  · simp [both,Receiver.run,GoBackClient.receiver,GoBackClient.recvMessage,hmarker]
  · have hwin : RepeatClient.fresh.InWindow 1 0 := by decide
    have hold : ¬RepeatClient.fresh.Old 1 0 := by decide
    have hopen : RepeatClient.fresh.returned = false := by decide
    have hdone : RepeatClient.returned { RepeatClient.fresh with ended := true, lastAckNo := 0 } =
        true := by decide
    simp [both,Receiver.run,RepeatClient.receiver,RepeatClient.recvMessage,hmarker,hwin,hold,
      hopen,hdone]

end ReliableTransfer
