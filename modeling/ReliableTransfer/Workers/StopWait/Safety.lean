import ReliableTransfer.Workers.StopWait.Protocol

/-!
# Stop-and-wait delivers the file

The server waits for the packet it numbered last, so the client is never more than one packet
ahead of it, and every acknowledgement in flight names a packet the client has consumed.
-/

namespace ReliableTransfer

open Framework

namespace StopWaitServer

variable (order : ByteOrder) (file : List UInt8)

def kept (s : StopWaitServer) : Option Packet :=
  match s.loc with
  | .wait packet _ _ | .resend packet | .rewait packet _ _ => some packet
  | _ => none

def numbered (s : StopWaitServer) : Nat :=
  match s.loc with
  | .head => s.seqNo.toNat
  | .returned false => s.seqNo.toNat
  | _ => s.seqNo.toNat + 1

/-- The feeder and the packet kept at each place fit the server's number. -/
def Good (s : StopWaitServer) : Prop :=
  match s.loc with
  | .head => s.feeder = feederAt file s.seqNo.toNat ∧ s.seqNo.toNat ≤ numSegments file + 1
  | .wait packet _ _ | .resend packet | .rewait packet _ _ =>
    s.feeder = feederAt file (s.seqNo.toNat + 1) ∧ s.seqNo.toNat ≤ numSegments file ∧
      packet = filePacket order file s.seqNo
  | .returned false => s.seqNo.toNat = numSegments file + 1
  | .returned true => s.seqNo.toNat ≤ numSegments file

structure Advance (s : StopWaitServer) (e : StopWaitEvent) (s' : StopWaitServer)
    (out : List Packet) : Prop where
  good : s'.Good order file
  numbered_le : s.numbered ≤ s'.numbered
  seqNo : s'.seqNo = s.seqNo ∨
    (s'.seqNo.toNat = s.seqNo.toNat + 1 ∧ ∃ now a, e = .receive now (.ok a) ∧ a.ackno = s.seqNo)
  out : ∀ d ∈ out, d = filePacket order file s.seqNo ∧ s.seqNo.toNat < s'.numbered

variable {order file}

theorem badPack_cases {s s' : StopWaitServer} {tv sendTime : Timeval}
    {again : Timeval → Timeval → StopWaitLoc} {onTimeout onError : StopWaitLoc} {e : StopWaitEvent}
    (h : s.badPack tv sendTime again onTimeout onError e = some s') :
    (∃ loc, s' = { s with loc := loc } ∧
      (loc = onTimeout ∨ loc = onError ∨ ∃ tv t, loc = again tv t)) ∨
    (s' = { s with seqNo := s.seqNo + 1, loc := .head } ∧
      ∃ now a, e = .receive now (.ok a) ∧ a.ackno = s.seqNo) := by
  unfold badPack at h
  split at h
  · split at h
    · simp only [Option.some.injEq] at h
      exact Or.inl ⟨_,h.symm,Or.inl rfl⟩
    · contradiction
  · next now recv =>
    dsimp only at h
    split at h
    · contradiction
    · cases recv with
      | timeOut =>
        simp only [Option.some.injEq] at h
        exact Or.inl ⟨_,h.symm,Or.inl rfl⟩
      | error =>
        simp only [Option.some.injEq] at h
        exact Or.inl ⟨_,h.symm,Or.inr (Or.inl rfl)⟩
      | ok a =>
        dsimp only at h
        split at h
        · next hack =>
          simp only [Bool.and_eq_true,beq_iff_eq] at hack
          simp only [Option.some.injEq] at h
          exact Or.inr ⟨h.symm,now,a,rfl,hack.2⟩
        · simp only [Option.some.injEq] at h
          exact Or.inl ⟨_,h.symm,Or.inr (Or.inr ⟨_,_,rfl⟩)⟩
  · contradiction

inductive Stepped (order : ByteOrder) (s : StopWaitServer) (e : StopWaitEvent) :
    StopWaitServer → List Packet → Prop
  | returned : s.loc = .head → s.feeder.hasNext = false →
      Stepped order s e { s with loc := .returned false } List.nil
  | next {packet loc out} : s.loc = .head → s.feeder.hasNext = true →
      packet = createDataPacketCore order s.feeder.getNextDataSegment.1 s.seqNo →
      (kept { s with loc := loc } = some packet ∨ loc = .returned true) →
      (∀ d ∈ out, d = packet) →
      Stepped order s e { s with feeder := s.feeder.getNextDataSegment.2, loc := loc } out
  /-- The kept packet is waited for or sent again. -/
  | again {packet loc out} : s.kept = some packet →
      (kept { s with loc := loc } = some packet ∨ loc = .returned true) →
      (∀ d ∈ out, d = packet) → Stepped order s e { s with loc := loc } out
  | acked {packet now a} : s.kept = some packet → e = .receive now (.ok a) → a.ackno = s.seqNo →
      Stepped order s e { s with seqNo := s.seqNo + 1, loc := .head } List.nil

theorem badPack_stepped {s s' : StopWaitServer} {packet : Packet} {tv sendTime : Timeval}
    {again : Timeval → Timeval → StopWaitLoc} {onTimeout onError : StopWaitLoc} {e : StopWaitEvent}
    (hkept : s.kept = some packet)
    (hloc : ∀ loc, (loc = onTimeout ∨ loc = onError ∨ ∃ tv t, loc = again tv t) →
      kept { s with loc := loc } = some packet ∨ loc = .returned true)
    (h : s.badPack tv sendTime again onTimeout onError e = some s') :
    Stepped order s e s' List.nil := by
  rcases badPack_cases h with ⟨loc,rfl,hl⟩ | ⟨rfl,now,a,he,hack⟩
  · exact .again hkept (hloc loc hl) (by simp)
  · exact .acked hkept he hack

theorem step_stepped {s s' : StopWaitServer} {e : StopWaitEvent} {out : List Packet}
    (h : s.step order e = some (s',out)) : Stepped order s e s' out := by
  obtain ⟨seqNo,feeder,loc⟩ := s
  cases loc with
  | head =>
    cases e with
    | stop =>
      simp only [step] at h
      split at h
      · contradiction
      · next hdone =>
        simp only [Option.some.injEq,Prod.mk.injEq] at h
        obtain ⟨rfl,rfl⟩ := h
        exact .returned rfl (Bool.not_eq_true _ ▸ hdone)
    | send tick =>
      simp only [step] at h
      split at h
      · next hnext =>
        simp only [Option.some.injEq,Prod.mk.injEq] at h
        obtain ⟨rfl,rfl⟩ := h
        refine .next rfl hnext rfl ?_ (fun d hd => Tick.mem_transmit hd)
        split
        · exact Or.inl rfl
        · exact Or.inr rfl
      · contradiction
    | expire now => simp [step] at h
    | receive now recv => simp [step] at h
  | wait packet tv sendTime =>
    obtain ⟨next,hnext,heq⟩ := Option.map_eq_some_iff.mp h
    obtain ⟨rfl,rfl⟩ := Prod.mk.inj heq
    refine badPack_stepped rfl ?_ hnext
    rintro loc (rfl | rfl | ⟨tv,t,rfl⟩)
    · exact Or.inl rfl
    · exact Or.inr rfl
    · exact Or.inl rfl
  | resend packet =>
    cases e with
    | send tick =>
      simp only [step,Option.some.injEq,Prod.mk.injEq] at h
      obtain ⟨rfl,rfl⟩ := h
      refine .again rfl ?_ (fun d hd => Tick.mem_transmit hd)
      split
      · exact Or.inl rfl
      · exact Or.inr rfl
    | stop => simp [step] at h
    | expire now => simp [step] at h
    | receive now recv => simp [step] at h
  | rewait packet tv sendTime =>
    obtain ⟨next,hnext,heq⟩ := Option.map_eq_some_iff.mp h
    obtain ⟨rfl,rfl⟩ := Prod.mk.inj heq
    refine badPack_stepped rfl ?_ hnext
    rintro loc (rfl | rfl | ⟨tv,t,rfl⟩) <;> exact Or.inl rfl
  | returned failed => simp [step] at h

theorem numbered_of_kept {s : StopWaitServer} {packet : Packet} (h : s.kept = some packet) :
    s.numbered = s.seqNo.toNat + 1 := by
  obtain ⟨seqNo,feeder,loc⟩ := s
  cases loc with
  | head => contradiction
  | returned failed => contradiction
  | wait _ tv sendTime => rfl
  | resend _ => rfl
  | rewait _ tv sendTime => rfl

theorem good_of_kept {s : StopWaitServer} {packet : Packet} (h : s.kept = some packet) :
    s.Good order file ↔ s.feeder = feederAt file (s.seqNo.toNat + 1) ∧
      s.seqNo.toNat ≤ numSegments file ∧ packet = filePacket order file s.seqNo := by
  obtain ⟨seqNo,feeder,loc⟩ := s
  cases loc with
  | head => contradiction
  | returned failed => contradiction
  | wait _ tv sendTime => exact Option.some.inj h ▸ Iff.rfl
  | resend _ => exact Option.some.inj h ▸ Iff.rfl
  | rewait _ tv sendTime => exact Option.some.inj h ▸ Iff.rfl

/-- The acknowledgement the server waits for does not take its number round. -/
def NoWrap (s : StopWaitServer) (e : StopWaitEvent) : Prop :=
  ∀ now a, e = .receive now (.ok a) → a.ackno = s.seqNo → s.seqNo.toNat + 1 < 2^32

theorem good_kept {s : StopWaitServer} {loc : StopWaitLoc}
    (hfeeder : s.feeder = feederAt file (s.seqNo.toNat + 1)) (hle : s.seqNo.toNat ≤ numSegments file)
    (hloc : kept { s with loc := loc } = some (filePacket order file s.seqNo) ∨
      loc = .returned true) :
    Good order file { s with loc := loc } ∧ numbered { s with loc := loc } = s.seqNo.toNat + 1 := by
  rcases hloc with hkept | rfl
  · exact ⟨(good_of_kept hkept).mpr ⟨hfeeder,hle,rfl⟩,numbered_of_kept hkept⟩
  · exact ⟨hle,rfl⟩

theorem step_advance {s s' : StopWaitServer} {e : StopWaitEvent} {out : List Packet}
    (hwrap : s.NoWrap e) (hs : s.Good order file)
    (h : s.step order e = some (s',out)) : Advance order file s e s' out := by
  cases step_stepped h with
  | returned hloc hdone =>
    rw [Good,hloc] at hs
    rw [hs.1,← Bool.not_eq_true,hasNext_feederAt] at hdone
    have hle := hs.2
    refine ⟨?_,?_,Or.inl rfl,by simp⟩
    · change s.seqNo.toNat = numSegments file + 1
      omega
    · rw [numbered,hloc]
      exact le_refl _
  | next hloc hnext hpacket hkeep hout =>
    rw [Good,hloc] at hs
    rw [hs.1,hasNext_feederAt] at hnext
    rw [hs.1,getNextDataSegment_feederAt file hnext] at hpacket ⊢
    have hfile : _ = filePacket order file s.seqNo := hpacket
    subst hfile
    obtain ⟨hgood,hnum⟩ := good_kept
      (s := { s with feeder := feederAt file (s.seqNo.toNat + 1) }) rfl hnext hkeep
    refine ⟨hgood,?_,Or.inl rfl,fun d hd => ⟨hout d hd,?_⟩⟩
    · rw [hnum,numbered,hloc]
      exact Nat.le_succ _
    · rw [hnum]
      exact Nat.lt_succ_self _
  | again hkept hkeep hout =>
    obtain ⟨hfeeder,hle,rfl⟩ := (good_of_kept hkept).mp hs
    obtain ⟨hgood,hnum⟩ := good_kept hfeeder hle hkeep
    refine ⟨hgood,?_,Or.inl rfl,fun d hd => ⟨hout d hd,?_⟩⟩
    · rw [hnum,numbered_of_kept hkept]
    · rw [hnum]
      exact Nat.lt_succ_self _
  | @acked packet now a hkept he hack =>
    obtain ⟨hfeeder,hle,-⟩ := (good_of_kept hkept).mp hs
    have hsucc : (s.seqNo + 1).toNat = s.seqNo.toNat + 1 := toNat_add_one (hwrap now a he hack)
    refine ⟨⟨?_,?_⟩,?_,Or.inr ⟨hsucc,now,a,he,hack⟩,by simp⟩
    · change s.feeder = feederAt file (s.seqNo + 1).toNat
      rw [hsucc]
      exact hfeeder
    · change (s.seqNo + 1).toNat ≤ _
      omega
    · rw [numbered_of_kept hkept]
      exact hsucc.ge

theorem step_next {feeder : DataFeeder} {seqNo : UInt32} {tick : Tick}
    (hnext : feeder.hasNext = true) (htick : tick.Calm) :
    step order ⟨seqNo,feeder,.head⟩ (.send tick) =
      some (⟨seqNo,feeder.getNextDataSegment.2,
        .wait (createDataPacketCore order feeder.getNextDataSegment.1 seqNo) fullTimeout
          tick.sendTime⟩,
        [createDataPacketCore order feeder.getNextDataSegment.1 seqNo]) := by
  simp [step,hnext,htick.transmit]

end StopWaitServer

namespace StopWaitClient

structure Consumed (order : ByteOrder) (file : List UInt8) (c : StopWaitClient) : Prop where
  ackNo_le : c.ackNo.toNat ≤ numSegments file + 1
  ended : c.ended = true ↔ c.ackNo.toNat = numSegments file + 1
  sentOne : c.sentOne = true ↔ 0 < c.ackNo.toNat
  lastPack : 0 < c.ackNo.toNat → c.lastPack = createAckPacket (c.ackNo - 1)
  sink : c.sink.Fed order file (min c.ackNo.toNat (numSegments file))

variable {order : ByteOrder} {file : List UInt8} {c : StopWaitClient}

theorem Consumed.ackNo_le_segments (hc : c.Consumed order file) (hended : c.ended = false) :
    c.ackNo.toNat ≤ numSegments file := by
  have hne : c.ackNo.toNat ≠ numSegments file + 1 := fun h => by simp [hc.ended.mpr h] at hended
  have hle := hc.ackNo_le
  omega

theorem recvMessage_segment (order : ByteOrder) (hlt : c.ackNo.toNat < numSegments file) :
    c.recvMessage order (.ok (filePacket order file c.ackNo)) =
      some ({ c with
        sentOne := true
        sink := c.sink.feedNextData order (segment file c.ackNo.toNat) c.ackNo
        lastPack := createAckPacket c.ackNo
        ackNo := c.ackNo + 1 },[createAckPacket c.ackNo]) := by
  have hdata : (filePacket order file c.ackNo).len ≠ 8 := fun h =>
    (not_le.mpr hlt) ((filePacket_len order file c.ackNo).mp h)
  simp [recvMessage,hdata,extractPureData_filePacket]

theorem recvMessage_marker (order : ByteOrder) (hle : numSegments file ≤ c.ackNo.toNat) :
    c.recvMessage order (.ok (filePacket order file c.ackNo)) =
      some ({ c with
        sentOne := true
        lastPack := createAckPacket c.ackNo
        ackNo := c.ackNo + 1
        ended := true },[createAckPacket c.ackNo]) := by
  simp [recvMessage,(filePacket_len order file c.ackNo).mpr hle]

theorem Consumed.expected (hc : c.Consumed order file) (hlt : c.ackNo.toNat + 1 < 2^32)
    (hended : c.ended = false) :
    ∃ c', c.recvMessage order (.ok (filePacket order file c.ackNo)) =
        some (c',[createAckPacket c.ackNo]) ∧
      c'.Consumed order file ∧ c'.ackNo.toNat = c.ackNo.toNat + 1 := by
  have hle := hc.ackNo_le_segments hended
  have hsucc : (c.ackNo + 1).toNat = c.ackNo.toNat + 1 := toNat_add_one hlt
  have hlast : c.ackNo + 1 - 1 = c.ackNo := UInt32.add_sub_cancel _ _
  by_cases hend : numSegments file ≤ c.ackNo.toNat
  · refine ⟨_,recvMessage_marker order hend,⟨?_,?_,?_,?_,?_⟩,hsucc⟩
    · change (c.ackNo + 1).toNat ≤ _
      omega
    · change true = true ↔ (c.ackNo + 1).toNat = _
      simp only [true_iff]
      omega
    · change true = true ↔ 0 < (c.ackNo + 1).toNat
      simp [hsucc]
    · intro _
      change createAckPacket c.ackNo = createAckPacket (c.ackNo + 1 - 1)
      rw [hlast]
    · change c.sink.Fed order file (min (c.ackNo + 1).toNat (numSegments file))
      rw [hsucc]
      exact hc.sink.marker_next hend
  · refine ⟨_,recvMessage_segment order (not_le.mp hend),⟨?_,?_,?_,?_,?_⟩,hsucc⟩
    · change (c.ackNo + 1).toNat ≤ _
      omega
    · change c.ended = true ↔ (c.ackNo + 1).toNat = _
      simp only [hended,Bool.false_eq_true,false_iff]
      omega
    · change true = true ↔ 0 < (c.ackNo + 1).toNat
      simp [hsucc]
    · intro _
      change createAckPacket c.ackNo = createAckPacket (c.ackNo + 1 - 1)
      rw [hlast]
    · change (c.sink.feedNextData order (segment file c.ackNo.toNat) c.ackNo).Fed order file
        (min (c.ackNo + 1).toNat (numSegments file))
      rw [hsucc]
      exact hc.sink.segment_next c.ackNo rfl (not_le.mp hend)

theorem recvMessage_other (c : StopWaitClient) {i : UInt32} (hi : i ≠ c.ackNo) :
    c.recvMessage order (.ok (filePacket order file i)) =
      some (c,if c.sentOne then [c.lastPack] else List.nil) := by
  simp [recvMessage,hi]

end StopWaitClient

namespace StopWait

/-- The two counters are at most one apart, packets in flight have been numbered, and an
acknowledgement in flight names a consumed packet. -/
def safe (order : ByteOrder) (file : List UInt8) :
    Link.Claim StopWaitServer StopWaitClient Packet AckPacket where
  parties s c := s.Good order file ∧ c.Consumed order file ∧
    s.seqNo.toNat ≤ c.ackNo.toNat ∧ c.ackNo.toNat ≤ s.numbered
  data s _ d := ∃ i, d = filePacket order file i ∧ i.toNat < s.numbered
  ack _ c a := ∃ i, a = createAckPacket i ∧ i.toNat < c.ackNo.toNat

variable {order : ByteOrder} {file : List UInt8}

theorem link_accept (order : ByteOrder) {c : StopWaitClient} (hended : c.ended = false)
    (packet : Packet) : (link order).accept c packet = c.recvMessage order (.ok packet) := by
  simp [link,hended]

theorem safe_other {s : StopWaitServer} {c c' : StopWaitClient} {i : UInt32} {out : List AckPacket}
    (hp : (safe order file).parties s c) (hi : i ≠ c.ackNo)
    (h : c.recvMessage order (.ok (filePacket order file i)) = some (c',out)) :
    c' = c ∧ ∀ a ∈ out, (safe order file).ack s c a := by
  obtain ⟨-,hc,-,-⟩ := hp
  rw [c.recvMessage_other hi] at h
  obtain ⟨rfl,rfl⟩ := Prod.mk.inj (Option.some.inj h)
  refine ⟨rfl,fun a ha => ?_⟩
  by_cases hone : c.sentOne = true
  · have hpos := hc.sentOne.mp hone
    simp only [hone,if_true,List.mem_singleton] at ha
    refine ⟨c.ackNo - 1,ha.trans (hc.lastPack hpos),?_⟩
    have hle : (1 : UInt32) ≤ c.ackNo := UInt32.le_iff_toNat_le.mpr hpos
    rw [UInt32.toNat_sub_of_le _ _ hle]
    change c.ackNo.toNat - 1 < c.ackNo.toNat
    omega
  · simp [hone] at ha

theorem safe_accept {s : StopWaitServer} {c c' : StopWaitClient} {d : Packet} {out : List AckPacket}
    (hlt : c.ended = false → c.ackNo.toNat + 1 < 2^32)
    (hp : (safe order file).parties s c) (hd : (safe order file).data s c d)
    (h : (link order).accept c d = some (c',out)) :
    (safe order file).Kept s c s c' ∧ ∀ a ∈ out, (safe order file).ack s c' a := by
  obtain ⟨i,rfl,hi⟩ := hd
  cases hended : c.ended
  · rw [link_accept order hended] at h
    by_cases hack : i = c.ackNo
    · obtain ⟨hgood,hc,hlo,hhi⟩ := hp
      subst hack
      obtain ⟨c₁,h₁,hc₁,hsucc⟩ := hc.expected (hlt hended) hended
      obtain ⟨rfl,rfl⟩ := Prod.mk.inj (Option.some.inj (h₁.symm.trans h))
      refine ⟨⟨⟨hgood,hc₁,by omega,by omega⟩,fun _ h => h,?_⟩,?_⟩
      · rintro a ⟨j,rfl,hj⟩
        exact ⟨j,rfl,by omega⟩
      · intro a ha
        obtain rfl := List.mem_singleton.mp ha
        exact ⟨c.ackNo,rfl,by omega⟩
    · obtain ⟨rfl,hout⟩ := safe_other hp hack h
      exact ⟨.refl hp,hout⟩
  · simp [link,hended] at h

theorem safe_serve {s s' : StopWaitServer} {c : StopWaitClient} {e : StopWaitEvent}
    {out : List Packet} (hp : (safe order file).parties s c)
    (hack : ∀ a, (link order).reads e = some a → (safe order file).ack s c a)
    (hs : (link order).serve s e = some (s',out)) :
    (safe order file).Kept s c s' c ∧ ∀ d ∈ out, (safe order file).data s' c d := by
  obtain ⟨hgood,hc,hlo,hhi⟩ := hp
  have hbelow (now : Timeval) (a : AckPacket) (he : e = .receive now (.ok a))
      (hseq : a.ackno = s.seqNo) : s.seqNo.toNat < c.ackNo.toNat := by
    subst he
    obtain ⟨i,rfl,hi⟩ := hack a rfl
    rw [createAckPacket_ackno] at hseq
    rwa [← hseq]
  have hmax := c.ackNo.toNat_lt
  have hadv := StopWaitServer.step_advance (fun now a he hseq => by
    have := hbelow now a he hseq
    omega) hgood hs
  have hmono := hadv.numbered_le
  refine ⟨⟨⟨hadv.good,hc,?_,by omega⟩,?_,fun _ h => h⟩,?_⟩
  · rcases hadv.seqNo with heq | ⟨heq,now,a,he,hseq⟩
    · rwa [heq]
    · have := hbelow now a he hseq
      omega
  · rintro d ⟨i,rfl,hi⟩
    exact ⟨i,rfl,by omega⟩
  · intro d hd
    obtain ⟨rfl,hlt⟩ := hadv.out d hd
    exact ⟨s.seqNo,rfl,hlt⟩

theorem safe_inductive (hsize : numSegments file < 2^32 - 1) :
    (link order).Inductive (safe order file) where
  serve := safe_serve
  accept := fun hp hd h => safe_accept (fun hended => by
    have := hp.2.1.ackNo_le_segments hended
    omega) hp hd h

theorem safe_start (order : ByteOrder) (file : List UInt8) :
    (safe order file).Holds (start file) where
  parties :=
    ⟨⟨rfl,Nat.zero_le _⟩,⟨Nat.zero_le _,by simp [start],by simp [start],by simp [start],
      DataSink.fed_fresh order file⟩,le_refl _,le_refl _⟩
  data := by simp [start]
  ack := by simp [start]

theorem safe_run (hsize : numSegments file < 2^32 - 1)
    {x : LinkState StopWaitServer StopWaitClient Packet AckPacket}
    (hrun : (link order).Run (start file) x) : (safe order file).Holds x :=
  (safe_inductive hsize).run (safe_start order file) hrun

/-- Stop-and-wait delivers the file exactly. -/
theorem stopWait_delivers (order : ByteOrder) (file : List UInt8) (hsize : numSegments file < 2^32 - 1)
    {x : LinkState StopWaitServer StopWaitClient Packet AckPacket}
    (hrun : (link order).Run (start file) x) :
    (x.client.ackNo = x.server.seqNo ∨ x.client.ackNo = x.server.seqNo + 1) ∧
      x.client.sink.Fed order file (min x.client.ackNo.toNat (numSegments file)) ∧
      (x.client.ended = true → x.client.sink.writer.written = file) ∧
      (x.server.loc = .returned false →
        x.client.ackNo.toNat = numSegments file + 1 ∧ x.client.ended = true) := by
  obtain ⟨⟨hgood,hc,hlo,hhi⟩,-,-⟩ := safe_run hsize hrun
  have hle := hc.ackNo_le
  refine ⟨?_,hc.sink,?_,?_⟩
  · have hnum : x.server.numbered ≤ x.server.seqNo.toNat + 1 := by
      unfold StopWaitServer.numbered
      split <;> omega
    by_cases heq : x.client.ackNo.toNat = x.server.seqNo.toNat
    · exact Or.inl (UInt32.toNat_inj.mp heq)
    · right
      apply UInt32.toNat_inj.mp
      rw [toNat_add_one (by omega)]
      omega
  · intro hended
    have hsink := hc.sink
    rw [hc.ended.mp hended,Nat.min_eq_right (Nat.le_succ _)] at hsink
    exact hsink.complete
  · intro hret
    unfold StopWaitServer.Good at hgood
    simp only [hret] at hgood
    have hack : x.client.ackNo.toNat = numSegments file + 1 := by omega
    exact ⟨hack,hc.ended.mpr hack⟩

theorem step_send (order : ByteOrder) (file : List UInt8) {k : Nat} (hk : k ≤ numSegments file)
    (seqNo : UInt32) (t : Timeval) :
    StopWaitServer.step order ⟨seqNo,feederAt file k,.head⟩ (.send (calmTick t)) =
      some (⟨seqNo,feederAt file (k + 1),
        .wait (createDataPacketCore order (segment file k) seqNo) fullTimeout t⟩,
        [createDataPacketCore order (segment file k) seqNo]) := by
  rw [StopWaitServer.step_next ((hasNext_feederAt file k).mpr hk) (calmTick_calm t),
    getNextDataSegment_feederAt file hk]
  rfl

theorem packet_delivered {x : LinkState StopWaitServer StopWaitClient Packet AckPacket}
    {i : UInt32} {c : StopWaitClient}
    (hrun : (link order).Run x ⟨⟨i,feederAt file i.toNat,.head⟩,c,0,0⟩)
    (hc : c.Consumed order file) (hack : c.ackNo = i) (hi : i.toNat ≤ numSegments file)
    (hlt : i.toNat + 1 < 2^32) :
    ∃ c', (link order).Run x
        ⟨⟨i,feederAt file (i.toNat + 1),.wait (filePacket order file i) fullTimeout ⟨0,0⟩⟩,c',0,
          createAckPacket i ::ₘ 0⟩ ∧
      c'.Consumed order file ∧ c'.ackNo.toNat = i.toNat + 1 := by
  subst hack
  have hended : c.ended = false := by
    rw [← Bool.not_eq_true,hc.ended]
    omega
  obtain ⟨c',hc',hconsumed,hsucc⟩ := hc.expected hlt hended
  have hsent : (link order).Run x ⟨_,c,filePacket order file c.ackNo ::ₘ 0,0⟩ :=
    hrun.serve (.send (calmTick ⟨0,0⟩)) trivial rfl (step_send order file hi c.ackNo ⟨0,0⟩)
  exact ⟨c',hsent.accept ((link_accept order hended _).trans hc'),hconsumed,hsucc⟩

theorem packet_exchanged {x : LinkState StopWaitServer StopWaitClient Packet AckPacket}
    {i : UInt32} {c : StopWaitClient}
    (hrun : (link order).Run x ⟨⟨i,feederAt file i.toNat,.head⟩,c,0,0⟩)
    (hc : c.Consumed order file) (hack : c.ackNo = i) (hi : i.toNat ≤ numSegments file)
    (hlt : i.toNat + 1 < 2^32) :
    ∃ c', (link order).Run x ⟨⟨i + 1,feederAt file (i + 1).toNat,.head⟩,c',0,0⟩ ∧
      c'.Consumed order file ∧ c'.ackNo = i + 1 := by
  have hnext : (i + 1).toNat = i.toNat + 1 := toNat_add_one hlt
  obtain ⟨c',hdelivered,hconsumed,hsucc⟩ := packet_delivered hrun hc hack hi hlt
  refine ⟨c',?_,hconsumed,UInt32.toNat_inj.mp (hsucc.trans hnext.symm)⟩
  rw [hnext]
  have hremains : (updateRemainingTimeout fullTimeout ⟨0,0⟩ ⟨0,0⟩).1 = false := rfl
  refine hdelivered.read (.receive ⟨0,0⟩ (.ok (createAckPacket i))) trivial rfl ?_
  simp [link,StopWaitServer.step,StopWaitServer.badPack,hremains]

theorem marker_delivered (order : ByteOrder) :
    ∃ c, (link order).Run (start List.nil)
        ⟨⟨0,feederAt List.nil 1,.wait (filePacket order List.nil 0) fullTimeout ⟨0,0⟩⟩,c,0,
          createAckPacket 0 ::ₘ 0⟩ ∧ c.ended = true := by
  obtain ⟨c,hrun,hconsumed,hack⟩ := packet_delivered .refl
    (safe_start order List.nil).parties.2.1 rfl (Nat.zero_le _) (by decide)
  exact ⟨c,hrun,hconsumed.ended.mpr hack⟩

/-- The transfer of one byte: its packet, the marker, and both sides return. -/
theorem stopWait_delivers_byte :
    ∃ order x, (link order).Run (start [7]) x ∧ x.server.loc = .returned false ∧
      x.client.sink.writer.written = [7] := by
  obtain ⟨order⟩ : Nonempty ByteOrder := ⟨.little⟩
  obtain ⟨c₁,hrun₁,hc₁,hack₁⟩ := packet_exchanged .refl
    (safe_start order [7]).parties.2.1 rfl (Nat.zero_le _) (by decide)
  obtain ⟨c₂,hrun₂,-,-⟩ := packet_exchanged hrun₁ hc₁ hack₁ (by decide) (by decide)
  have hdone : (link order).Run (start [7]) ⟨⟨2,feederAt [7] 2,.returned false⟩,c₂,0,0⟩ :=
    hrun₂.serve .stop trivial rfl rfl
  have hd := stopWait_delivers order [7] (by decide) hdone
  exact ⟨order,_,hdone,rfl,hd.2.2.1 (hd.2.2.2 rfl).2⟩

end StopWait

end ReliableTransfer
