import ReliableTransfer.Workers.GoBackN.Safety

/-!
# Go-back-N and any acknowledgement

`receive_ack` tests a number against the end of the window and not against what has been sent. A
number between the two makes the trimming loop run past the end of the vector.
-/

namespace ReliableTransfer

open Framework

namespace GoBackServer

variable {order : ByteOrder} {file : List UInt8} {window : UInt32} {s : GoBackServer}

theorem trim_overrun {ackno base : UInt32} {unacked : List Packet}
    (h : base.toNat + unacked.length ≤ ackno.toNat) : trim ackno unacked base = none := by
  have hle : base ≤ ackno := UInt32.le_iff_toNat_le.mpr (by omega)
  induction unacked generalizing base with
  | nil => rw [trim,if_pos hle]
  | cons packet unacked ih =>
    rw [List.length_cons] at h
    have hlt := ackno.toNat_lt
    have hsucc : (base + 1).toNat = base.toNat + 1 := toNat_add_one (by omega)
    rw [trim,if_pos hle]
    apply ih
    · omega
    · rw [UInt32.le_iff_toNat_le]
      omega

theorem Bookkept.trim_eq (hs : s.Bookkept order file window) {ackno : UInt32}
    (hle : s.baseSeqNo ≤ ackno) : trim ackno s.unackedPacket s.baseSeqNo =
      if ackno < s.seqNo then
        some (filePackets order file (ackno.toNat + 1) s.seqNo.toNat,ackno + 1)
      else none := by
  rw [UInt32.le_iff_toNat_le] at hle
  have hbase := hs.base_le
  have hmax := s.seqNo.toNat_lt
  split
  · next hlt =>
    rw [UInt32.lt_iff_toNat_lt] at hlt
    rw [hs.unacked]
    exact trim_filePackets order file hmax hlt (by omega)
  · next hge =>
    rw [UInt32.not_lt,UInt32.le_iff_toNat_le] at hge
    apply trim_overrun
    rw [hs.unacked,filePackets_length]
    omega

theorem Bookkept.trimmed (hs : s.Bookkept order file window) {ackno : UInt32}
    (hle : s.baseSeqNo ≤ ackno) (hlt : ackno < s.seqNo) (sendTime : Timeval) :
    Bookkept order file window ⟨ackno + 1,s.seqNo,
      filePackets order file (ackno.toNat + 1) s.seqNo.toNat,sendTime⟩ := by
  have hsucc := toNat_add_one_of_lt hlt
  have hspan := hs.seqNo_le
  rw [UInt32.lt_iff_toNat_lt] at hlt
  rw [UInt32.le_iff_toNat_le] at hle
  refine ⟨?_,?_,?_⟩
  · change (ackno + 1).toNat ≤ s.seqNo.toNat
    omega
  · change s.seqNo.toNat ≤ (ackno + 1).toNat + window.toNat
    omega
  · change _ = filePackets order file (ackno + 1).toNat s.seqNo.toNat
    rw [hsucc]

def Accepts (window : UInt32) (s : GoBackServer) (a : AckPacket) : Prop :=
  verifyChecksumAck a ∧ a.ackno ≥ s.baseSeqNo ∧ a.ackno < s.baseSeqNo + window

theorem Bookkept.received (hs : s.Bookkept order file window) {env : AckEnv} {noErr : Bool}
    {s' : GoBackServer} (hrun : s.receiveAck window env = some (noErr,s')) :
    s'.Bookkept order file window ∧ s'.seqNo = s.seqNo := by
  unfold receiveAck at hrun
  split at hrun
  · obtain ⟨-,rfl⟩ := hrun
    exact ⟨hs,rfl⟩
  · obtain ⟨-,rfl⟩ := hrun
    exact ⟨hs,rfl⟩
  · next a hanswer =>
    split at hrun
    · next htest =>
      rw [hs.trim_eq htest.2.1] at hrun
      by_cases hlt : a.ackno < s.seqNo
      · rw [if_pos hlt] at hrun
        obtain ⟨-,rfl⟩ := hrun
        exact ⟨hs.trimmed htest.2.1 hlt _,rfl⟩
      · rw [if_neg hlt] at hrun
        contradiction
    · obtain ⟨-,rfl⟩ := hrun
      exact ⟨hs,rfl⟩

theorem Bookkept.receiveAck_none_iff (hs : s.Bookkept order file window) {env : AckEnv}
    {a : AckPacket} (hanswer : env.answer s.sendTime = .ok a) :
    s.receiveAck window env = none ↔ s.Accepts window a ∧ ¬a.ackno < s.seqNo := by
  unfold receiveAck Accepts
  simp only [hanswer]
  by_cases htest : verifyChecksumAck a ∧ a.ackno ≥ s.baseSeqNo ∧ a.ackno < s.baseSeqNo + window
  · rw [if_pos htest,hs.trim_eq htest.2.1]
    by_cases hlt : a.ackno < s.seqNo
    · simp [hlt]
    · simp [hlt,htest]
  · rw [if_neg htest]
    simp [htest]

theorem sound_bookkept (order : ByteOrder) (file : List UInt8) (window : UInt32) :
    (ops window).Sound order file (Bookkept order file window) fun _ => True where
  send := by
    intro s t hs hopen _
    exact recordSent_bookkept hs hopen t
  ack := by
    intro s env noErr s' hs _ hrun
    exact hs.received hrun
  timers := by
    intro s ticks noErr s' out hs hrun
    obtain ⟨hs',hseq,-,hout⟩ := hs.timed hrun
    exact ⟨hs',hseq,hout⟩

end GoBackServer

namespace GoBackN

abbrev Reaches (order : ByteOrder) (file : List UInt8) (window : UInt32)
    (s : Sending GoBackServer) : Prop :=
  Sending.RunsTo (GoBackServer.ops window) order (fun _ _ => True)
    (.start ⟨0,0,List.nil,⟨0,0⟩⟩ file) s

theorem good_of_reaches {order : ByteOrder} {file : List UInt8} {window : UInt32}
    {s : Sending GoBackServer} (hrun : Reaches order file window s) :
    s.Good (GoBackServer.ops window) file (GoBackServer.Bookkept order file window) := by
  have hstart : GoBackServer.Bookkept order file window ⟨0,0,List.nil,⟨0,0⟩⟩ :=
    ⟨le_refl _,Nat.zero_le _,rfl⟩
  exact Sending.good_runsTo (GoBackServer.sound_bookkept order file window)
    (fun _ _ _ _ _ => trivial) (Sending.start_good hstart rfl) hrun

/-- An intact acknowledgement keeps the vector exact, and the code inside it, exactly when its
number has been sent or fails the window test. -/
theorem ack_harmless_iff (order : ByteOrder) (file : List UInt8) (window : UInt32)
    (s : Sending GoBackServer) (hrun : Reaches order file window s) (env : AckEnv) (a : AckPacket)
    (hread : env.answer s.worker.sendTime = .ok a) (hsum : verifyChecksumAck a = true) :
    (∃ noErr w, s.worker.receiveAck window env = some (noErr,w) ∧ w.baseSeqNo ≤ w.seqNo ∧
      w.unackedPacket = filePackets order file w.baseSeqNo.toNat w.seqNo.toNat) ↔
      a.ackno < s.worker.seqNo ∨ ¬a.ackno < s.worker.baseSeqNo + window := by
  have hs := (good_of_reaches hrun).worker
  have hnone := hs.receiveAck_none_iff hread
  constructor
  · rintro ⟨noErr,w,hrecv,-⟩
    by_contra hcond
    obtain ⟨hsent,hwin⟩ := not_or.mp hcond
    have hbase : a.ackno ≥ s.worker.baseSeqNo := by
      have hle := hs.base_le
      rw [UInt32.not_lt,UInt32.le_iff_toNat_le] at hsent
      exact UInt32.le_iff_toNat_le.mpr (hle.trans hsent)
    rw [hnone.mpr ⟨⟨hsum,hbase,not_not.mp hwin⟩,hsent⟩] at hrecv
    contradiction
  · intro hcond
    have hsome : s.worker.receiveAck window env ≠ none := by
      rw [Ne,hnone]
      rintro ⟨hacc,hsent⟩
      exact hcond.elim hsent fun hwin => hwin hacc.2.2
    obtain ⟨⟨noErr,w⟩,hrecv⟩ := Option.ne_none_iff_exists'.mp hsome
    have hw := (hs.received hrecv).1
    exact ⟨noErr,w,hrecv,UInt32.le_iff_toNat_le.mpr hw.base_le,hw.unacked⟩

theorem marker_sent : ∃ s, Reaches .little List.nil 4 s ∧ s.loc = .drain .afterSend ∧
    s.worker.baseSeqNo = 0 ∧ s.worker.seqNo = 1 :=
  Sending.run_reaches [.send (calmTick ⟨0,0⟩)] (by decide +kernel)

theorem ack_harmless_marker : ∃ (s : Sending GoBackServer) (env : AckEnv) (a : AckPacket),
    a.ackno = 0 ∧ env.answer s.worker.sendTime = .ok a ∧
    ((∃ noErr w, s.worker.receiveAck 4 env = some (noErr,w) ∧ w.baseSeqNo ≤ w.seqNo ∧
      w.unackedPacket = filePackets .little List.nil w.baseSeqNo.toNat w.seqNo.toNat) ↔
      a.ackno < s.worker.seqNo ∨ ¬a.ackno < s.worker.baseSeqNo + 4) := by
  obtain ⟨s,hrun,-⟩ := marker_sent
  have hread : (arrival ⟨0,0⟩ (createAckPacket 0)).answer s.worker.sendTime =
      .ok (createAckPacket 0) := answer_arrival _ _ _
  exact ⟨s,_,_,rfl,hread,ack_harmless_iff .little List.nil 4 s hrun _ _ hread
    (verifyChecksumAck_createAckPacket 0)⟩

/-- In the same state an acknowledgement of packet 1, which has not been sent, makes the loop erase
from an empty vector. -/
theorem ack_overruns : ∃ (s : Sending GoBackServer) (env : AckEnv) (a : AckPacket),
    Reaches .little List.nil 4 s ∧ s.loc = .drain .afterSend ∧
    env.answer s.worker.sendTime = .ok a ∧ verifyChecksumAck a = true ∧
    s.worker.receiveAck 4 env = none := by
  obtain ⟨s,hrun,hloc,hbase,hseq⟩ := marker_sent
  have hread : (arrival ⟨0,0⟩ (createAckPacket 1)).answer s.worker.sendTime =
      .ok (createAckPacket 1) := answer_arrival _ _ _
  have hsum := verifyChecksumAck_createAckPacket 1
  refine ⟨s,_,_,hrun,hloc,hread,hsum,?_⟩
  rw [(good_of_reaches hrun).worker.receiveAck_none_iff hread,GoBackServer.Accepts,hbase,hseq]
  exact ⟨⟨hsum,by decide⟩,by decide⟩

end GoBackN

end ReliableTransfer
