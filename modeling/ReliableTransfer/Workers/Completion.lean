import ReliableTransfer.Workers.Lockstep

/-!
# Transfers without losses

Whatever protocols the two ends run, a transfer in which nothing is lost can be completed.
-/

namespace ReliableTransfer

open Framework

variable {order : ByteOrder} {file : List UInt8} {window clientWindow : UInt32}

/-- The windows are not 0, and no number wraps around. -/
structure Modest (file : List UInt8) (window clientWindow : UInt32) : Prop where
  window_pos : 0 < window.toNat
  clientWindow_pos : 0 < clientWindow.toNat
  numbers : 2 * numSegments file + 1 < 2^32
  window_fits : numSegments file + window.toNat < 2^32
  clientWindow_fits : numSegments file + clientWindow.toNat < 2^32

theorem ClientWorker.start_expects (order : ByteOrder) (client : ProtoType)
    (h : Modest file window clientWindow) :
    (start client clientWindow).Expects order file 0 where
  holds := start_holds order file client clientWindow
  got m := by
    have hfresh : ¬RepeatClient.fresh.Got file m := by
      simp [RepeatClient.Got,RepeatClient.Stored,RepeatClient.fresh]
    cases client with
    | waitAndStop => exact Iff.rfl
    | goBackN => exact Iff.rfl
    | selectiveRepeat => exact iff_of_false hfresh (Nat.not_lt_zero _)
    | selectiveRepeatCC => exact iff_of_false hfresh (Nat.not_lt_zero _)
  opens m hm := by
    have hfits := h.clientWindow_fits
    have hlt : m < m + clientWindow := lt_add_of_fits h.clientWindow_pos (by omega)
    cases client with
    | waitAndStop => trivial
    | goBackN => trivial
    | selectiveRepeat => exact hlt
    | selectiveRepeatCC => exact hlt

namespace StopWaitServer

theorem serve_pair {s s' : StopWaitServer} {e : StopWaitEvent} {out : List Packet}
    (h : s.step order e = some (s',out)) :
    (pair order).serve (.stopWait s) (.stopWait e) = some (.stopWait s',out) := by
  simp [pair,ServerWorker.step,h]

variable {n : UInt32} {k : ClientWorker} {D : Multiset Packet} {A : Multiset AckPacket}

theorem taken (hk : k.Expects order file n) (hn : n.toNat ≤ numSegments file)
    (hfile : numSegments file + 1 < 2^32) :
    ∃ k', (pair order).CalmRun ⟨.stopWait ⟨n,feederAt file n.toNat,.head⟩,k,D,A⟩
        ⟨.stopWait ⟨n,feederAt file (n.toNat + 1),.wait (filePacket order file n) fullTimeout ⟨0,0⟩⟩,
          k',D,createAckPacket n ::ₘ A⟩ ∧
      k'.Expects order file (n + 1) := by
  obtain ⟨k',hk',hexpects⟩ := hk.accept hn hfile
  have hsend := serve_pair (StopWait.step_send order file hn n ⟨0,0⟩)
  have hsent : (pair order).CalmRun ⟨.stopWait ⟨n,feederAt file n.toNat,.head⟩,k,D,A⟩ _ :=
    .serve (e := WorkerEvent.stopWait (.send (calmTick ⟨0,0⟩))) (calmTick_calm ⟨0,0⟩) rfl hsend
  rw [Multiset.coe_singleton,add_comm D,Multiset.singleton_add] at hsent
  have htaken := hsent.trans (.single (.accept hk'))
  rw [Multiset.coe_singleton,add_comm A,Multiset.singleton_add] at htaken
  exact ⟨k',htaken,hexpects⟩

theorem round (hk : k.Expects order file n) (hn : n.toNat ≤ numSegments file)
    (hfile : numSegments file + 1 < 2^32) :
    ∃ k', (pair order).CalmRun ⟨.stopWait ⟨n,feederAt file n.toNat,.head⟩,k,D,A⟩
        ⟨.stopWait ⟨n + 1,feederAt file (n + 1).toNat,.head⟩,k',D,A⟩ ∧
      k'.Expects order file (n + 1) := by
  have hsucc : (n + 1).toNat = n.toNat + 1 := toNat_add_one (by omega)
  obtain ⟨k',htaken,hexpects⟩ := taken (D := D) (A := A) hk hn hfile
  have hread (s : StopWaitServer) (packet : Packet) (hloc : s.Waits packet fullTimeout ⟨0,0⟩)
      (hseq : s.seqNo = n) : s.step order (.receive ⟨0,0⟩ (.ok (createAckPacket n))) =
        some ({ s with seqNo := s.seqNo + 1, loc := .head },List.nil) :=
    step_acked hloc (by decide)
      ⟨verifyChecksumAck_createAckPacket n,(createAckPacket_ackno n).trans hseq.symm⟩
  have hdone := htaken.trans (.single (.read
    (e := WorkerEvent.stopWait (.receive ⟨0,0⟩ (.ok (createAckPacket n)))) trivial rfl
    (serve_pair (hread _ _ (Or.inl rfl) rfl))))
  rw [Multiset.coe_nil,add_zero,← hsucc] at hdone
  exact ⟨k',hdone,hexpects⟩

theorem complete (hk : k.Expects order file n) (hn : n.toNat ≤ numSegments file + 1)
    (hfile : numSegments file + 1 < 2^32) :
    ∃ s' k', (pair order).CalmRun ⟨.stopWait ⟨n,feederAt file n.toNat,.head⟩,k,D,A⟩
        ⟨.stopWait s',k',D,A⟩ ∧ s'.loc = .returned false ∧ k'.Complete order file := by
  obtain ⟨rest,hrest⟩ := Nat.exists_eq_add_of_le hn
  induction rest generalizing n k with
  | zero =>
    have hnext : (feederAt file n.toNat).hasNext = false := by
      rw [← Bool.not_eq_true,hasNext_feederAt]
      omega
    have hserve : step order ⟨n,feederAt file n.toNat,.head⟩ .stop =
        some (⟨n,feederAt file n.toNat,.returned false⟩,List.nil) := by
      simp [step,hnext]
    have hstop : (pair order).CalmRun ⟨.stopWait ⟨n,feederAt file n.toNat,.head⟩,k,D,A⟩ _ :=
      .serve (e := WorkerEvent.stopWait .stop) trivial rfl (serve_pair hserve)
    rw [Multiset.coe_nil,add_zero] at hstop
    exact ⟨_,k,hstop,rfl,hk.complete hrest.symm⟩
  | succ rest ih =>
    have hsucc : (n + 1).toNat = n.toNat + 1 := toNat_add_one (by omega)
    obtain ⟨k₁,hrun,hk₁⟩ := round (D := D) (A := A) hk (by omega) hfile
    obtain ⟨s',k',hrun',hret,hall⟩ := ih hk₁ (by omega) (by omega)
    exact ⟨s',k',hrun.trans hrun',hret,hall⟩

end StopWaitServer

variable (order) in
/-- Without losses every server with every client gets to the end of the transfer, and leaves
alone whatever else is in flight. -/
theorem pair_complete (server client : ProtoType) (dupAcks : List UInt32)
    (h : Modest file window clientWindow) (D : Multiset Packet) (A : Multiset AckPacket) :
    ∃ s k, (pair order).CalmRun
        ⟨.start server dupAcks window (feederAt file 0),.start client clientWindow,D,A⟩ ⟨s,k,D,A⟩ ∧
      s.Succeeded ∧ k.Complete order file := by
  have hk := ClientWorker.start_expects order client h
  have hnumbers := h.numbers
  have hfile : numSegments file + 1 < 2^32 := by omega
  cases server with
  | waitAndStop =>
    obtain ⟨s,k,hrun,hret,hall⟩ := StopWaitServer.complete (D := D) (A := A) hk (Nat.zero_le _) hfile
    exact ⟨_,k,hrun,hret,hall⟩
  | goBackN =>
    have hrest : Sending.Resting file (fun n s =>
        GoBackServer.Bookkept order file window s ∧ s.baseSeqNo = n ∧ s.seqNo = n) 0
        ⟨⟨0,0,List.nil,⟨0,0⟩⟩,feederAt file 0,.head⟩ :=
      ⟨⟨⟨le_refl _,Nat.zero_le _,rfl⟩,rfl,rfl⟩,rfl,Or.inl rfl⟩
    obtain ⟨s,k,hrun,hret,hall⟩ := hrest.complete (D := D) (A := A)
      (GoBackServer.steady order h.window_pos h.window_fits) hk (Nat.zero_le _) hfile
    exact ⟨_,k,(Pair.goBackServer order window).calmRun hrun,hret,hall⟩
  | selectiveRepeat =>
    have hrest : Sending.Resting file (fun n s =>
        RepeatServer.Clear order file (SelectiveRepeat.Spanned window) n s) 0
        ⟨.fresh window,feederAt file 0,.head⟩ :=
      ⟨⟨RepeatServer.fresh_inStep order file window,
        fun i hi => absurd hi Std.ExtTreeMap.not_mem_empty,rfl,rfl,
        ⟨RepeatServer.fresh_numbered window,rfl,Nat.zero_le _⟩⟩,rfl,Or.inl rfl⟩
    obtain ⟨s,k,hrun,hret,hall⟩ := hrest.complete (D := D) (A := A)
      (SelectiveRepeat.steady order h.window_pos h.window_fits) hk (Nat.zero_le _) hfile
    exact ⟨_,k,(Pair.repeatServer order).calmRun hrun,hret,hall⟩
  | selectiveRepeatCC =>
    have hrest : Sending.Resting file (fun n s =>
        RepeatServer.Clear order file SelectiveRepeatCC.Sound n s) 0
        ⟨.fresh (.start dupAcks window),feederAt file 0,.head⟩ :=
      ⟨⟨RepeatServer.fresh_inStep order file _,
        fun i hi => absurd hi Std.ExtTreeMap.not_mem_empty,rfl,rfl,
        ⟨Congestion.start_healthy dupAcks (UInt32.le_iff_toNat_le.mpr h.window_pos),le_refl _⟩⟩,
        rfl,Or.inl rfl⟩
    obtain ⟨s,k,hrun,hret,hall⟩ := hrest.complete (D := D) (A := A)
      (SelectiveRepeatCC.steady order hnumbers) hk (Nat.zero_le _) hfile
    exact ⟨_,k,(Pair.repeatCCServer order).calmRun hrun,hret,hall⟩

end ReliableTransfer
