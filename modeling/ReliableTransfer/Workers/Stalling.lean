import ReliableTransfer.Workers.Recovery

/-!
# When a transfer can get stuck

A sender whose window is too small sends packets that are all delivered, and every acknowledgement
is lost. What it resends from then on is of no use to its client.
-/

namespace ReliableTransfer

open Framework

variable {order : ByteOrder} {file : List UInt8}

namespace GoBackN

variable {window : UInt32}

theorem run_unheard (order : ByteOrder) (hsize : numSegments file < 2^32) {k : Nat}
    (hwindow : k ≤ window.toNat) (hk : k ≤ numSegments file) :
    ∃ s c, (link order window).Run (start file) ⟨s,c,0,0⟩ ∧ (∀ failed, s.loc ≠ .returned failed) ∧
      s.worker.baseSeqNo = 0 ∧ s.worker.seqNo.toNat = k ∧ c.baseAckNo.toNat = k := by
  induction k with
  | zero => exact ⟨_,_,.refl,by simp [Sending.start],rfl,rfl,rfl⟩
  | succ k ih =>
    obtain ⟨s,c,hrun,hloc,hbase,hseq,hack⟩ := ih (by omega) (by omega)
    have hx := safe_run hrun
    have hgood : s.Good (GoBackServer.ops window) file (Coupled order file window · c) := hx.parties
    have hs := hgood.worker
    have hopen : s.worker.windowOpen window = true := by
      refine decide_eq_true ?_
      rw [hbase,zero_add,gt_iff_lt,UInt32.lt_iff_toNat_lt]
      omega
    have hended : c.ended = false := by
      rw [← Bool.not_eq_true,hs.consumed.ended]
      omega
    have heq : c.baseAckNo = s.worker.seqNo := UInt32.toNat_inj.mp (hack.trans hseq.symm)
    obtain ⟨c',hc',-,hsucc⟩ := hs.consumed.expected (by omega) hended
    have hsent : (link order window).Run (start file) _ :=
      hrun.trans (Sending.reach_send order (accept order) (c := c) (D := 0) (A := 0)
        (GoBackServer.quiet window _) hgood hloc (by change s.worker.seqNo.toNat ≤ _; omega) hopen
        ⟨0,0⟩).run
    rw [heq] at hc'
    have htaken : (link order window).Run (start file)
        ⟨_,c',0,createAckPacket s.worker.seqNo ::ₘ 0⟩ := hsent.accept hc'
    refine ⟨_,c',htaken.loseAck,by simp,hbase,?_,by omega⟩
    exact (GoBackServer.recordSent_bookkept hs.bookkept hopen ⟨0,0⟩).2.trans (congrArg _ hseq)

/-- A window that does not hold the whole file can fill up with packets the client has consumed. -/
theorem stalls (order : ByteOrder) (hsize : numSegments file < 2^32)
    (hwindow : window.toNat ≤ numSegments file) :
    ∃ x, (link order window).Run (start file) x ∧ x.server.loc ≠ .returned true ∧
      ∀ y, (link order window).Run x y → y.client.ended = false := by
  obtain ⟨s,c,hrun,hloc,hbase,hseq,hack⟩ := run_unheard order hsize (le_refl _) hwindow
  have hx := safe_run hrun
  have hcan : ¬CanProgress window ⟨s,c,0,0⟩ := by
    rintro (⟨d,hd,-⟩ | ⟨-,hlt | hopen | ⟨a,ha,-⟩⟩)
    · exact Multiset.notMem_zero d hd
    · dsimp only at hlt
      omega
    · have hlt := UInt32.lt_iff_toNat_lt.mp (of_decide_eq_true hopen)
      dsimp only at hlt
      rw [hbase,zero_add] at hlt
      omega
    · exact Multiset.notMem_zero a ha
  refine ⟨_,hrun,hloc true,fun y hy => ?_⟩
  have hnot := not_or.mp (not_progress hx hcan hy)
  have hle : y.client.baseAckNo.toNat ≤ c.baseAckNo.toNat := not_lt.mp hnot.1
  have hc : Coupled order file window y.server.worker y.client :=
    ((coupling_inductive order file window).run hx hy).parties.worker
  rw [← Bool.not_eq_true,hc.consumed.ended]
  omega

end GoBackN

namespace SelectiveRepeat

variable {window clientWindow : UInt32}

theorem run_unheard (order : ByteOrder) (hsize : Modest file window clientWindow) {k : Nat}
    (hwindow : k ≤ window.toNat) (hk : k ≤ numSegments file) :
    ∃ s c, (link order clientWindow).Run (start window file) ⟨s,c,0,0⟩ ∧ s.loc ≠ .returned true ∧
      s.worker.baseSeqNo = 0 ∧ s.worker.seqNo.toNat = k ∧ c.baseAckNo = s.worker.seqNo := by
  have hroom := roomy order file clientWindow
  have hfits := hsize.window_fits
  have hfits' := hsize.clientWindow_fits
  induction k with
  | zero => exact ⟨_,_,.refl,by simp [Sending.start],rfl,rfl,rfl⟩
  | succ k ih =>
    obtain ⟨s,c,hrun,hloc,hbase,hseq,hack⟩ := ih (by omega) (by omega)
    obtain ⟨hx,hctl,-⟩ := window_run hrun
    have hopen : s.worker.windowOpen hooks = true := by
      refine decide_eq_true ?_
      change s.worker.seqNo < s.worker.baseSeqNo + s.worker.ctl
      rw [hctl,hbase,zero_add,UInt32.lt_iff_toNat_lt]
      omega
    obtain ⟨c',hnext,hack'⟩ := RepeatServer.run_unacked (closes order file) hroom hx hloc hack
      (by omega) hopen (lt_add_of_fits hsize.clientWindow_pos (by omega))
    refine ⟨_,c',hrun.trans hnext,by simp,hbase,?_,hack'⟩
    change (s.worker.seqNo + 1).toNat = k + 1
    rw [toNat_add_one (by omega),hseq]

/-- A sender whose window is larger than the client's, but does not hold the whole file, can wait
for ever for what the client does not answer any more. -/
theorem stalls (order : ByteOrder) (hsize : Modest file window clientWindow)
    (hlt : clientWindow < window) (hwindow : window.toNat ≤ numSegments file) :
    ∃ x, (link order clientWindow).Run (start window file) x ∧ x.server.loc ≠ .returned true ∧
      ∀ y, (link order clientWindow).Run x y → y.client.returned = false := by
  have hlt' := UInt32.lt_iff_toNat_lt.mp hlt
  obtain ⟨s,c,hrun,hloc,hbase,hseq,hack⟩ := run_unheard order hsize (k := clientWindow.toNat + 1)
    (by omega) (by omega)
  have hroom := roomy order file clientWindow
  have hx := RepeatServer.safe_run hroom hrun
  refine ⟨_,hrun,hloc,fun y hy => ?_⟩
  have hstill := RepeatServer.not_progress_of_deaf hroom hx (Or.inl (by
    dsimp only
    rw [hbase,hack,hseq,UInt32.toNat_zero]
    omega)) (by simp) hy
  obtain ⟨hy',-,hspan⟩ := window_run (hrun.trans hy)
  have hzero : y.server.worker.baseSeqNo.toNat ≤ s.worker.baseSeqNo.toNat := not_lt.mp hstill
  rw [hbase,UInt32.toNat_zero] at hzero
  have hs : RepeatServer.Coupled order file clientWindow y.server.worker y.client :=
    hy'.parties.worker
  rw [← Bool.not_eq_true]
  intro hret
  have hlast := hs.seqNo_of_returned hret
  omega

end SelectiveRepeat

theorem Pair.stalls {σ κ ε : Type} {L : Link σ κ ε Packet AckPacket}
    (f : L.Embedding (pair order)) {x₀ x : LinkState σ κ Packet AckPacket} (hrun : L.Run x₀ x)
    (hend : ∀ y, L.Run x y → (f.client y.client).returned = false) :
    (pair order).Run (f.state x₀) (f.state x) ∧
      ¬∃ z, (pair order).CalmRun (f.state x) z ∧ z.client.returned = true := by
  refine ⟨Link.Embedding.run hrun,?_⟩
  rintro ⟨z,hz,hret⟩
  obtain ⟨y,rfl,hy⟩ := Link.Embedding.run_back hz.run
  exact Bool.noConfusion ((hend y hy).symm.trans hret)

/-- Stop-and-wait recovers from whatever is lost. Go-back-N does so exactly if the sender's window
holds the whole file, and selective repeat exactly if it does or the client's window is not the
smaller one. -/
theorem recoverable_iff (order : ByteOrder) (type : ProtoType) (htype : type ≠ .selectiveRepeatCC)
    (dupAcks : List UInt32) (window clientWindow : UInt32)
    (hsize : Sized type file window clientWindow) :
    Recoverable order type dupAcks window clientWindow file ↔
      Robust type file window clientWindow := by
  refine ⟨fun hall => ?_,fun h => h.recoverable order dupAcks hsize⟩
  cases type with
  | waitAndStop => trivial
  | goBackN =>
    by_contra hwindow
    obtain ⟨x,hrun,hne,hend⟩ := GoBackN.stalls order ((Nat.le_add_right _ _).trans_lt hsize)
      (not_lt.mp hwindow)
    obtain ⟨hrun',hnot⟩ := Pair.stalls (Pair.goBackN order window) hrun hend
    exact hnot (hall _ hrun' hne)
  | selectiveRepeat =>
    by_contra hwindow
    obtain ⟨hlt,hle⟩ := not_or.mp hwindow
    obtain ⟨x,hrun,hne,hend⟩ := SelectiveRepeat.stalls order hsize (UInt32.not_le.mp hlt)
      (not_lt.mp hle)
    obtain ⟨hrun',hnot⟩ := Pair.stalls (Pair.selectiveRepeat order clientWindow) hrun hend
    exact hnot (hall _ hrun' hne)
  | selectiveRepeatCC => exact absurd rfl htype

theorem recoverable_iff_small : Recoverable .little .goBackN List.nil 2 1 [7] :=
  (recoverable_iff .little .goBackN (by decide) List.nil 2 1 (by
    change numSegments [7] + 2 < 2^32
    decide)).mpr (by
      change numSegments [7] < 2
      decide)

end ReliableTransfer
