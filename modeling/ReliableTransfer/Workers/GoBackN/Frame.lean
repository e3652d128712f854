import ReliableTransfer.Workers.GoBackN.Protocol

/-!
# Go-back-N in any environment

How the numbers of the sender and its vector hang together when nothing is known of the
acknowledgements that arrive.
-/

namespace ReliableTransfer

namespace GoBackServer

variable {window : UInt32} {s : GoBackServer}

/-- The vector has one packet for every number from `base_seq_no` to `seq_no - 1`, and the window
spans them. -/
structure Spanned (window : UInt32) (s : GoBackServer) : Prop where
  count : s.seqNo.toNat = s.baseSeqNo.toNat + s.unackedPacket.length
  seqNo_le : s.seqNo.toNat ≤ s.baseSeqNo.toNat + window.toNat

theorem trim_count {ackno base base' : UInt32} {unacked unacked' : List Packet}
    (h : trim ackno unacked base = some (unacked',base'))
    (hfit : base.toNat + unacked.length < 2^32) :
    base'.toNat + unacked'.length = base.toNat + unacked.length ∧ base.toNat ≤ base'.toNat := by
  induction unacked generalizing base with
  | nil =>
    rw [trim] at h
    split at h
    · contradiction
    · obtain ⟨rfl,rfl⟩ := Prod.mk.inj (Option.some.inj h)
      exact ⟨rfl,le_refl _⟩
  | cons packet unacked ih =>
    rw [trim] at h
    split at h
    · have hsucc : (base + 1).toNat = base.toNat + 1 := by
        apply toNat_add_one
        rw [List.length_cons] at hfit
        omega
      have hrest := ih h (by rw [hsucc]; rw [List.length_cons] at hfit; omega)
      rw [hsucc] at hrest
      rw [List.length_cons]
      omega
    · obtain ⟨rfl,rfl⟩ := Prod.mk.inj (Option.some.inj h)
      exact ⟨rfl,le_refl _⟩

theorem keeps_spanned (window : UInt32) (P : Sending GoBackServer → SenderEvent → Prop) :
    (ops window).Keeps P (Spanned window) where
  send := by
    intro s packet t hs hopen
    have htest : s.seqNo < s.baseSeqNo + window := of_decide_eq_true hopen
    have hlt := toNat_lt_window htest
    have hcount := hs.count
    have hsucc : (s.recordSent packet t).seqNo.toNat = s.seqNo.toNat + 1 :=
      toNat_add_one_of_lt htest
    constructor
    · change (s.recordSent packet t).seqNo.toNat =
        s.baseSeqNo.toNat + (s.unackedPacket ++ [packet]).length
      rw [hsucc,List.length_append,List.length_singleton]
      omega
    · change (s.recordSent packet t).seqNo.toNat ≤ s.baseSeqNo.toNat + window.toNat
      omega
  ack := by
    intro s env noErr w _ hs hrun
    change s.worker.receiveAck window env = some (noErr,w) at hrun
    unfold receiveAck at hrun
    split at hrun
    · obtain ⟨-,rfl⟩ := hrun
      exact hs
    · obtain ⟨-,rfl⟩ := hrun
      exact hs
    · split at hrun
      · obtain ⟨⟨unacked,base⟩,htrim,heq⟩ := Option.map_eq_some_iff.mp hrun
        obtain ⟨-,rfl⟩ := Prod.mk.inj heq
        have hcount := hs.count
        have hle := hs.seqNo_le
        have hfit := s.worker.seqNo.toNat_lt
        obtain ⟨hkept,hbase⟩ := trim_count htrim (by omega)
        constructor
        · change s.worker.seqNo.toNat = base.toNat + unacked.length
          omega
        · change s.worker.seqNo.toNat ≤ base.toNat + window.toNat
          omega
      · obtain ⟨-,rfl⟩ := hrun
        exact hs
  timers := by
    intro s ticks noErr s' out hs hrun
    have hpass : s.updateTimer ticks = (noErr,s',out) := Option.some.inj hrun
    have hs' : s' = (s.updateTimer ticks).2.1 := by rw [hpass]
    rw [hs']
    unfold updateTimer
    split
    · exact ⟨hs.count,hs.seqNo_le⟩
    · exact hs

end GoBackServer

end ReliableTransfer
