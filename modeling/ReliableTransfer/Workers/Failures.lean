import ReliableTransfer.Files.Failures
import ReliableTransfer.Framework.Simulation
import ReliableTransfer.Workers.InOrder
import ReliableTransfer.Workers.SelectiveRepeat.Protocol
import ReliableTransfer.Workers.StopWait.Safety

/-!
# Workers on failing streams

No worker looks at its streams. A server behaves as on the file its feeder hands over, and a
client as if its output file were sound.
-/

namespace ReliableTransfer

open Framework

variable {order : ByteOrder} {disk : DiskFile} {good : Bool} {room : Option Nat}

/-- Two servers that differ in their feeders, which supply the same. -/
structure StopWaitServer.Like (disk : DiskFile) (s t : StopWaitServer) : Prop where
  rest : t = { s with feeder := t.feeder }
  feeder : s.feeder.Supplies disk t.feeder

theorem StopWaitServer.badPack_like {s t s' : StopWaitServer} {tv sendTime : Timeval}
    {again : Timeval → Timeval → StopWaitLoc} {onTimeout onError : StopWaitLoc} {e : StopWaitEvent}
    (hlike : s.Like disk t) (h : s.badPack tv sendTime again onTimeout onError e = some s') :
    ∃ t', t.badPack tv sendTime again onTimeout onError e = some t' ∧ s'.Like disk t' := by
  obtain ⟨hrest,hfeeder⟩ := hlike
  rw [hrest]
  unfold badPack at h ⊢
  split at h
  · split at h
    · next hover =>
      obtain rfl := Option.some.inj h
      exact ⟨_,if_pos hover,rfl,hfeeder⟩
    · contradiction
  · next now recv =>
    dsimp only at h ⊢
    split at h
    · contradiction
    · next hover =>
      rw [if_neg hover]
      cases recv with
      | timeOut =>
        obtain rfl := Option.some.inj h
        exact ⟨_,rfl,rfl,hfeeder⟩
      | error =>
        obtain rfl := Option.some.inj h
        exact ⟨_,rfl,rfl,hfeeder⟩
      | ok a =>
        dsimp only at h ⊢
        split at h
        · next hack =>
          obtain rfl := Option.some.inj h
          exact ⟨_,if_pos hack,rfl,hfeeder⟩
        · next hack =>
          obtain rfl := Option.some.inj h
          exact ⟨_,if_neg hack,rfl,hfeeder⟩
  · contradiction

theorem StopWaitServer.step_like {s t s' : StopWaitServer} {e : StopWaitEvent} {out : List Packet}
    (hlike : s.Like disk t) (h : s.step order e = some (s',out)) :
    ∃ t', t.step order e = some (t',out) ∧ s'.Like disk t' := by
  obtain ⟨_,feeder,_⟩ := s
  obtain ⟨seqNo,feeder',loc⟩ := t
  obtain ⟨hrest,hfeeder⟩ := hlike
  obtain ⟨rfl,-,rfl⟩ := StopWaitServer.mk.inj hrest
  have hnext := hfeeder.hasNext
  dsimp only at hfeeder hnext
  cases loc with
  | head =>
    cases e with
    | stop =>
      simp only [step] at h ⊢
      rw [← hnext]
      split at h
      · contradiction
      · next hdone =>
        simp only [Option.some.injEq,Prod.mk.injEq] at h
        obtain ⟨rfl,rfl⟩ := h
        exact ⟨_,if_neg hdone,rfl,hfeeder⟩
    | send tick =>
      simp only [step] at h ⊢
      rw [← hnext]
      split at h
      · next hmore =>
        obtain ⟨hdata,hfeeder'⟩ := hfeeder.next hmore
        simp only [Option.some.injEq,Prod.mk.injEq] at h
        obtain ⟨rfl,rfl⟩ := h
        rw [if_pos hmore,← hdata]
        exact ⟨_,rfl,rfl,hfeeder'⟩
      · contradiction
    | expire now => simp [step] at h
    | receive now recv => simp [step] at h
  | wait packet tv sendTime =>
    obtain ⟨next,hbad,heq⟩ := Option.map_eq_some_iff.mp h
    obtain ⟨rfl,rfl⟩ := Prod.mk.inj heq
    obtain ⟨t',ht',hlike'⟩ := badPack_like (t := ⟨seqNo,feeder',.wait packet tv sendTime⟩)
      ⟨rfl,hfeeder⟩ hbad
    exact ⟨t',congrArg (Option.map (·,List.nil)) ht',hlike'⟩
  | resend packet =>
    cases e with
    | send tick =>
      simp only [step,Option.some.injEq,Prod.mk.injEq] at h
      obtain ⟨rfl,rfl⟩ := h
      exact ⟨_,rfl,rfl,hfeeder⟩
    | stop => simp [step] at h
    | expire now => simp [step] at h
    | receive now recv => simp [step] at h
  | rewait packet tv sendTime =>
    obtain ⟨next,hbad,heq⟩ := Option.map_eq_some_iff.mp h
    obtain ⟨rfl,rfl⟩ := Prod.mk.inj heq
    obtain ⟨t',ht',hlike'⟩ := badPack_like (t := ⟨seqNo,feeder',.rewait packet tv sendTime⟩)
      ⟨rfl,hfeeder⟩ hbad
    exact ⟨t',congrArg (Option.map (·,List.nil)) ht',hlike'⟩
  | returned failed => simp [step] at h

structure Sending.Like {σ : Type} (disk : DiskFile) (s t : Sending σ) : Prop where
  rest : t = { s with feeder := t.feeder }
  feeder : s.feeder.Supplies disk t.feeder

theorem Sending.step_like {σ : Type} {ops : SenderOps σ} {s t s' : Sending σ} {e : SenderEvent}
    {out : List Packet} (hlike : s.Like disk t) (h : s.step ops order e = some (s',out)) :
    ∃ t', t.step ops order e = some (t',out) ∧ s'.Like disk t' := by
  obtain ⟨_,feeder,_⟩ := s
  obtain ⟨worker,feeder',loc⟩ := t
  obtain ⟨hrest,hfeeder⟩ := hlike
  obtain ⟨rfl,-,rfl⟩ := Sending.mk.inj hrest
  have hnext := hfeeder.hasNext
  dsimp only at hfeeder hnext
  unfold step at h ⊢
  dsimp only at h ⊢
  rw [← hnext]
  split at h
  · split at h
    · next hmore =>
      split at h
      · contradiction
      · next hfull =>
        simp only [Option.some.injEq,Prod.mk.injEq] at h
        obtain ⟨rfl,rfl⟩ := h
        exact ⟨_,by rw [if_pos hmore,if_neg hfull],rfl,hfeeder⟩
    · next hdone =>
      simp only [Option.some.injEq,Prod.mk.injEq] at h
      obtain ⟨rfl,rfl⟩ := h
      exact ⟨_,if_neg hdone,rfl,hfeeder⟩
  · next tick =>
    split at h
    · next hboth =>
      obtain ⟨hdata,hfeeder'⟩ := hfeeder.next (Bool.and_eq_true _ _ ▸ hboth).1
      rw [if_pos hboth,← hdata]
      split at h
      · next hsent =>
        simp only [Option.some.injEq,Prod.mk.injEq] at h
        obtain ⟨rfl,rfl⟩ := h
        exact ⟨_,if_pos hsent,rfl,hfeeder'⟩
      · next hsent =>
        simp only [Option.some.injEq,Prod.mk.injEq] at h
        obtain ⟨rfl,rfl⟩ := h
        exact ⟨_,if_neg hsent,rfl,hfeeder'⟩
    · contradiction
  · obtain ⟨next,hrecv,heq⟩ := Option.map_eq_some_iff.mp h
    obtain ⟨rfl,rfl⟩ := Prod.mk.inj heq
    exact ⟨_,by rw [hrecv]; rfl,rfl,hfeeder⟩
  · simp only [Option.some.injEq,Prod.mk.injEq] at h
    obtain ⟨rfl,rfl⟩ := h
    exact ⟨_,rfl,rfl,hfeeder⟩
  · obtain ⟨next,htimers,heq⟩ := Option.map_eq_some_iff.mp h
    obtain ⟨rfl,rfl⟩ := Prod.mk.inj heq
    exact ⟨_,by rw [htimers]; rfl,rfl,hfeeder⟩
  · simp only [Option.some.injEq,Prod.mk.injEq] at h
    obtain ⟨rfl,rfl⟩ := h
    exact ⟨_,rfl,rfl,hfeeder⟩
  · contradiction

structure StopWaitClient.Like (good : Bool) (room : Option Nat) (c d : StopWaitClient) : Prop where
  rest : d = { c with sink := d.sink }
  sink : c.sink.Like good room d.sink

theorem StopWaitClient.recvMessage_like {c d c' : StopWaitClient} {recv : Recv Packet}
    {out : List AckPacket} (hlike : c.Like good room d)
    (h : c.recvMessage order recv = some (c',out)) :
    ∃ d', d.recvMessage order recv = some (d',out) ∧ c'.Like good room d' := by
  obtain ⟨hrest,hsink⟩ := hlike
  rw [recvMessage_inOrder] at h
  rw [hrest,recvMessage_inOrder]
  refine inOrder_related (R := Like good room) (fun data => ?_) ?_ ?_ ?_ h
  · exact ⟨⟨rfl,hsink.feed order data c.ackNo⟩,rfl⟩
  · exact ⟨⟨rfl,hsink⟩,rfl⟩
  · exact ⟨⟨rfl,hsink⟩,rfl⟩
  · exact ⟨⟨rfl,hsink⟩,rfl⟩

structure GoBackClient.Like (good : Bool) (room : Option Nat) (c d : GoBackClient) : Prop where
  rest : d = { c with sink := d.sink }
  sink : c.sink.Like good room d.sink

theorem GoBackClient.recvMessage_like {c d c' : GoBackClient} {recv : Recv Packet}
    {out : List AckPacket} (hlike : c.Like good room d)
    (h : c.recvMessage order recv = some (c',out)) :
    ∃ d', d.recvMessage order recv = some (d',out) ∧ c'.Like good room d' := by
  obtain ⟨hrest,hsink⟩ := hlike
  rw [recvMessage_inOrder] at h
  rw [hrest,recvMessage_inOrder]
  refine inOrder_related (R := Like good room) (fun data => ?_) ?_ ?_ ?_ h
  · exact ⟨⟨rfl,hsink.feed order data c.baseAckNo⟩,rfl⟩
  · exact ⟨⟨rfl,hsink⟩,rfl⟩
  · exact ⟨⟨rfl,hsink⟩,rfl⟩
  · exact ⟨⟨rfl,hsink⟩,rfl⟩

structure RepeatClient.Like (good : Bool) (room : Option Nat) (c d : RepeatClient) : Prop where
  rest : d = { c with sink := d.sink }
  sink : c.sink.Like good room d.sink

theorem RepeatClient.drainBuffer_like (order : ByteOrder) (n : Nat) {c d : RepeatClient}
    (hlike : c.Like good room d) :
    (c.drainBuffer order n).Like good room (d.drainBuffer order n) := by
  induction n generalizing c d with
  | zero => exact hlike
  | succ n ih =>
    obtain ⟨hrest,hsink⟩ := hlike
    rw [hrest,drainBuffer,drainBuffer]
    cases hdata : c.dataReceived[c.baseAckNo]? with
    | none => exact ⟨rfl,hsink⟩
    | some data => exact ih ⟨rfl,hsink.feed order data c.baseAckNo⟩

/-- A test of the buffer that does not look at the sink. -/
def RepeatClient.SinkFree (space : RepeatClient → Bool) : Prop :=
  ∀ (c : RepeatClient) (sink : DataSink), space { c with sink := sink } = space c

theorem RepeatClient.recvMessage_like {window : UInt32} {space : RepeatClient → Bool}
    (hspace : SinkFree space) {c d c' : RepeatClient} {recv : Recv Packet} {out : List AckPacket}
    (hlike : c.Like good room d) (h : c.recvMessage order window space recv = some (c',out)) :
    ∃ d', d.recvMessage order window space recv = some (d',out) ∧ c'.Like good room d' := by
  obtain ⟨hrest,hsink⟩ := hlike
  rw [hrest]
  cases recv with
  | timeOut =>
    obtain ⟨rfl,rfl⟩ := Prod.mk.inj (Option.some.inj h)
    exact ⟨_,rfl,rfl,hsink⟩
  | error =>
    obtain ⟨rfl,rfl⟩ := Prod.mk.inj (Option.some.inj h)
    exact ⟨_,rfl,rfl,hsink⟩
  | ok packet =>
    simp only [recvMessage] at h ⊢
    split at h
    · next hsum =>
      rw [if_pos hsum]
      split at h
      · next hold =>
        obtain ⟨rfl,rfl⟩ := Prod.mk.inj (Option.some.inj h)
        exact ⟨_,if_pos hold,rfl,hsink⟩
      · next hold =>
        rw [if_neg (by exact hold)]
        split at h
        · next hwin =>
          rw [if_pos (by exact hwin)]
          split at h
          · next hlen =>
            obtain ⟨data,hdata,heq⟩ := Option.bind_eq_some_iff.mp h
            obtain ⟨rfl,rfl⟩ := Prod.mk.inj (Option.some.inj heq)
            rw [if_pos hlen,hdata]
            refine ⟨_,rfl,?_⟩
            rw [hspace c d.sink]
            split
            · exact drainBuffer_like order _ ⟨rfl,hsink⟩
            · exact drainBuffer_like order _ ⟨rfl,hsink⟩
          · next hlen =>
            obtain ⟨rfl,rfl⟩ := Prod.mk.inj (Option.some.inj h)
            exact ⟨_,if_neg hlen,rfl,hsink⟩
        · next hwin =>
          obtain ⟨rfl,rfl⟩ := Prod.mk.inj (Option.some.inj h)
          exact ⟨_,if_neg hwin,rfl,hsink⟩
    · next hsum =>
      obtain ⟨rfl,rfl⟩ := Prod.mk.inj (Option.some.inj h)
      exact ⟨_,if_neg hsum,rfl,hsink⟩

end ReliableTransfer
