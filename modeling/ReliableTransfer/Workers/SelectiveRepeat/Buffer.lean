import ReliableTransfer.Workers.SelectiveRepeat.Receiver

/-!
# What the receivers hold

Everything below `base_ack_no` has been written, the buffer holds segments above it and inside
the window, and the end marker is recorded under its own number.
-/

namespace ReliableTransfer

namespace RepeatClient

/-- The client holds genuine segments; the base itself may be one of them. -/
structure Filling (order : ByteOrder) (file : List UInt8) (window : UInt32) (c : RepeatClient) :
    Prop where
  base_le : c.baseAckNo.toNat ≤ numSegments file
  sink : c.sink.Fed order file c.baseAckNo.toNat
  buffer : ∀ (i : UInt32) (d : PacketCoreData), c.dataReceived[i]? = some d →
    c.baseAckNo.toNat ≤ i.toNat ∧ i.toNat < numSegments file ∧ d = segment file i.toNat
  inWindow : ∀ i ∈ c.dataReceived,
    i.toNat < c.baseAckNo.toNat + window.toNat ∧ i.toNat + 1 < 2^32
  last : c.ended = true → c.lastAckNo.toNat = numSegments file

/-- The same between two datagrams, when the base is not in the buffer. -/
structure Holding (order : ByteOrder) (file : List UInt8) (window : UInt32) (c : RepeatClient) :
    Prop extends Filling order file window c where
  base_notMem : c.baseAckNo ∉ c.dataReceived

def Stored (c : RepeatClient) (i : UInt32) : Prop :=
  i.toNat < c.baseAckNo.toNat ∨ i ∈ c.dataReceived

/-- Stored, or the end marker that was recorded. -/
def Got (file : List UInt8) (c : RepeatClient) (i : UInt32) : Prop :=
  c.Stored i ∨ (i.toNat = numSegments file ∧ c.ended = true ∧ c.lastAckNo = i)

def Answers (window : UInt32) (c : RepeatClient) (i : UInt32) : Prop :=
  c.Old window i ∨ c.InWindow window i

instance (window : UInt32) (c : RepeatClient) (i : UInt32) : Decidable (c.Answers window i) :=
  inferInstanceAs (Decidable (_ ∨ _))

variable {order : ByteOrder} {file : List UInt8} {window : UInt32} {c : RepeatClient}

theorem fresh_holding (order : ByteOrder) (file : List UInt8) (window : UInt32) :
    fresh.Holding order file window where
  base_le := Nat.zero_le _
  sink := DataSink.fed_fresh order file
  buffer := by simp [fresh]
  inWindow := by simp [fresh]
  last := nofun
  base_notMem := by simp [fresh]

def deliver (order : ByteOrder) (c : RepeatClient) (data : PacketCoreData) : RepeatClient :=
  { c with
    sink := c.sink.feedNextData order data c.baseAckNo
    baseAckNo := c.baseAckNo + 1
    dataReceived := c.dataReceived.erase c.baseAckNo }

/-- What every pass preserves holds after the loop, and the base is not in the buffer any more. -/
theorem drainBuffer_rule {I : RepeatClient → Prop}
    (hstep : ∀ c data, I c → c.dataReceived[c.baseAckNo]? = some data → I (c.deliver order data))
    {n : Nat} (hI : I c) (hsize : c.dataReceived.size ≤ n) :
    I (c.drainBuffer order n) ∧
      (c.drainBuffer order n).baseAckNo ∉ (c.drainBuffer order n).dataReceived := by
  induction n generalizing c with
  | zero =>
    refine ⟨hI,?_⟩
    change c.baseAckNo ∉ c.dataReceived
    rw [Std.ExtTreeMap.eq_empty_iff_size_eq_zero.mpr (Nat.le_zero.mp hsize)]
    exact Std.ExtTreeMap.not_mem_empty
  | succ n ih =>
    cases hdata : c.dataReceived[c.baseAckNo]? with
    | none =>
      have hstop : c.drainBuffer order (n + 1) = c := by simp [RepeatClient.drainBuffer,hdata]
      rw [hstop,Std.ExtTreeMap.mem_iff_isSome_getElem?,hdata]
      exact ⟨hI,by simp⟩
    | some data =>
      have hgo : c.drainBuffer order (n + 1) = (c.deliver order data).drainBuffer order n := by
        simp [RepeatClient.drainBuffer,hdata,deliver]
      have hmem : c.baseAckNo ∈ c.dataReceived :=
        (Std.ExtTreeMap.getElem?_eq_some_iff.mp hdata).fst
      have hsize' : (c.deliver order data).dataReceived.size ≤ n := by
        change (c.dataReceived.erase c.baseAckNo).size ≤ n
        rw [Std.ExtTreeMap.size_erase,if_pos (Std.ExtTreeMap.mem_iff_contains.mp hmem)]
        omega
      rw [hgo]
      exact ih (hstep c data hI hdata) hsize'

theorem handleWindow_of_notMem (hnot : c.baseAckNo ∉ c.dataReceived) : c.handleWindow order = c := by
  have hnone : c.dataReceived[c.baseAckNo]? = none := by
    rwa [← Option.not_isSome_iff_eq_none,← Std.ExtTreeMap.mem_iff_isSome_getElem?]
  rw [handleWindow]
  cases c.dataReceived.size with
  | zero => rfl
  | succ n => simp [RepeatClient.drainBuffer,hnone]

/-- The buffered numbers lie in the window, and below the last 32-bit number. -/
def Within (window : UInt32) (c : RepeatClient) : Prop :=
  ∀ i ∈ c.dataReceived, c.baseAckNo.toNat ≤ i.toNat ∧
    i.toNat < c.baseAckNo.toNat + window.toNat ∧ i.toNat + 1 < 2^32

/-- The same between two datagrams, when the base is not in the buffer. -/
structure Confined (window : UInt32) (c : RepeatClient) : Prop where
  within : c.Within window
  base_notMem : c.baseAckNo ∉ c.dataReceived

theorem fresh_confined (window : UInt32) : fresh.Confined window :=
  ⟨by simp [Within,fresh],by simp [fresh]⟩

theorem Within.base_succ (hc : c.Within window) (hmem : c.baseAckNo ∈ c.dataReceived) :
    (c.baseAckNo + 1).toNat = c.baseAckNo.toNat + 1 :=
  toNat_add_one (hc _ hmem).2.2

theorem Within.deliver (hc : c.Within window) (hmem : c.baseAckNo ∈ c.dataReceived)
    (data : PacketCoreData) : (c.deliver order data).Within window := by
  intro i hi
  rw [RepeatClient.deliver,Std.ExtTreeMap.mem_erase,Ne,Std.compare_eq_iff_eq] at hi
  have hne : c.baseAckNo.toNat ≠ i.toNat := fun heq => hi.1 (UInt32.toNat_inj.mp heq)
  have hin := hc i hi.2
  change (c.baseAckNo + 1).toNat ≤ i.toNat ∧ i.toNat < (c.baseAckNo + 1).toNat + window.toNat ∧ _
  rw [hc.base_succ hmem]
  omega

theorem Within.store (hc : c.Within window) {i : UInt32} (hi : c.InWindow window i)
    (data : PacketCoreData) :
    Within window { c with dataReceived := c.dataReceived.insert i data } := by
  have hlo := UInt32.le_iff_toNat_le.mp (UInt32.not_lt.mp hi.1)
  have hhi := UInt32.not_le.mp hi.2
  intro j hj
  rw [Std.ExtTreeMap.mem_insert,Std.compare_eq_iff_eq] at hj
  rcases hj with rfl | hj
  · have hmax := (c.baseAckNo + window).toNat_lt
    exact ⟨hlo,toNat_lt_window hhi,(Nat.succ_le_of_lt (UInt32.lt_iff_toNat_lt.mp hhi)).trans_lt hmax⟩
  · exact hc j hj

/-- The buffer never fills up: its numbers lie strictly between the base and the end of the
window. -/
theorem Confined.size_lt (hc : c.Confined window) (hpos : 0 < window.toNat) :
    c.dataReceived.size < window.toNat := by
  have hkeys : c.dataReceived.keys.map UInt32.toNat ⊆
      List.range' (c.baseAckNo.toNat + 1) (window.toNat - 1) := by
    intro n hn
    obtain ⟨i,hi,rfl⟩ := List.mem_map.mp hn
    rw [Std.ExtTreeMap.mem_keys] at hi
    have hin := hc.within i hi
    have hne : c.baseAckNo.toNat ≠ i.toNat := fun h =>
      hc.base_notMem (UInt32.toNat_inj.mp h ▸ hi)
    rw [List.mem_range'_1]
    omega
  have hnodup : (c.dataReceived.keys.map UInt32.toNat).Nodup :=
    Std.ExtTreeMap.nodup_keys.map fun _ _ h => UInt32.toNat_inj.mp h
  have hlen := (hnodup.subperm hkeys).length_le
  rw [List.length_map,List.length_range',Std.ExtTreeMap.length_keys] at hlen
  omega

theorem InWindow.pos {i : UInt32} (hi : c.InWindow window i) : 0 < window.toNat := by
  have hlo := UInt32.le_iff_toNat_le.mp (UInt32.not_lt.mp hi.1)
  have hhi := toNat_lt_window (UInt32.not_le.mp hi.2)
  omega

theorem Confined.recvMessage (hc : c.Confined window) {room : RepeatClient → Bool}
    {recv : Recv Packet} {c' : RepeatClient} {out : List AckPacket}
    (h : c.recvMessage order window room recv = some (c',out)) : c'.Confined window := by
  unfold RepeatClient.recvMessage at h
  split at h
  · simp only [Option.some.injEq,Prod.mk.injEq] at h
    exact h.1 ▸ hc
  · simp only [Option.some.injEq,Prod.mk.injEq] at h
    exact h.1 ▸ hc
  · next packet =>
    split at h
    · split at h
      · simp only [Option.some.injEq,Prod.mk.injEq] at h
        exact h.1 ▸ hc
      · split at h
        · next hin =>
          split at h
          · obtain ⟨coreData,-,h⟩ := Option.bind_eq_some_iff.mp h
            simp only [Option.some.injEq,Prod.mk.injEq] at h
            obtain ⟨rfl,-⟩ := h
            have hdrain (stored : RepeatClient) (hs : stored.Within window) :
                (stored.handleWindow order).Confined window := by
              obtain ⟨hw,hnot⟩ := drainBuffer_rule (I := Within window)
                (fun c data hc hdata => hc.deliver
                  (Std.ExtTreeMap.getElem?_eq_some_iff.mp hdata).fst data) hs (le_refl _)
              exact ⟨hw,hnot⟩
            apply hdrain
            split
            · exact hc.within.store hin coreData
            · exact hc.within
          · simp only [Option.some.injEq,Prod.mk.injEq] at h
            exact h.1 ▸ ⟨hc.within,hc.base_notMem⟩
        · simp only [Option.some.injEq,Prod.mk.injEq] at h
          exact h.1 ▸ hc
    · simp only [Option.some.injEq,Prod.mk.injEq] at h
      exact h.1 ▸ hc

theorem Filling.within (hc : c.Filling order file window) : c.Within window := by
  intro i hi
  obtain ⟨d,hd⟩ := Option.isSome_iff_exists.mp (Std.ExtTreeMap.mem_iff_isSome_getElem?.mp hi)
  exact ⟨(hc.buffer i d hd).1,hc.inWindow i hi⟩

theorem Filling.deliver (hc : c.Filling order file window) {data : PacketCoreData}
    (hdata : c.dataReceived[c.baseAckNo]? = some data) :
    (c.deliver order data).Filling order file window ∧
      (c.deliver order data).baseAckNo.toNat = c.baseAckNo.toNat + 1 := by
  obtain ⟨-,hlt,rfl⟩ := hc.buffer _ _ hdata
  have hmem : c.baseAckNo ∈ c.dataReceived := (Std.ExtTreeMap.getElem?_eq_some_iff.mp hdata).fst
  have hsucc := hc.within.base_succ hmem
  have hwithin : (c.deliver order (segment file c.baseAckNo.toNat)).Within window :=
    hc.within.deliver hmem _
  refine ⟨⟨?_,?_,fun i d hd => ?_,fun i hi => (hwithin i hi).2,hc.last⟩,hsucc⟩
  · change (c.baseAckNo + 1).toNat ≤ _
    omega
  · change (c.sink.feedNextData order (segment file c.baseAckNo.toNat) c.baseAckNo).Fed order
      file (c.baseAckNo + 1).toNat
    rw [hsucc]
    exact hc.sink.feed c.baseAckNo rfl
  · have hlo := (hwithin i (Std.ExtTreeMap.getElem?_eq_some_iff.mp hd).fst).1
    change (c.dataReceived.erase c.baseAckNo)[i]? = some d at hd
    simp only [Std.ExtTreeMap.getElem?_erase,Std.compare_eq_iff_eq] at hd
    split at hd
    · contradiction
    · exact ⟨hlo,(hc.buffer i d hd).2⟩

theorem stored_deliver {data : PacketCoreData} (hmem : c.baseAckNo ∈ c.dataReceived)
    (hsucc : (c.baseAckNo + 1).toNat = c.baseAckNo.toNat + 1) (i : UInt32) :
    (c.deliver order data).Stored i ↔ c.Stored i := by
  change i.toNat < (c.baseAckNo + 1).toNat ∨ i ∈ c.dataReceived.erase c.baseAckNo ↔
    i.toNat < c.baseAckNo.toNat ∨ i ∈ c.dataReceived
  rw [hsucc,Std.ExtTreeMap.mem_erase,Ne,Std.compare_eq_iff_eq]
  by_cases heq : c.baseAckNo = i
  · subst heq
    simp [hmem]
  · have hne : c.baseAckNo.toNat ≠ i.toNat := fun h => heq (UInt32.toNat_inj.mp h)
    have hlt : i.toNat < c.baseAckNo.toNat + 1 ↔ i.toNat < c.baseAckNo.toNat := by omega
    simp [heq,hlt]

theorem Filling.drainBuffer (hc : c.Filling order file window) (n : Nat)
    (hsize : c.dataReceived.size ≤ n) :
    (c.drainBuffer order n).Holding order file window ∧
      (c.drainBuffer order n).ended = c.ended ∧
      (c.drainBuffer order n).lastAckNo = c.lastAckNo ∧
      c.baseAckNo.toNat ≤ (c.drainBuffer order n).baseAckNo.toNat ∧
      ∀ i, (c.drainBuffer order n).Stored i ↔ c.Stored i := by
  obtain ⟨⟨hfill,hrest⟩,hnot⟩ := drainBuffer_rule (I := fun d =>
      d.Filling order file window ∧ d.ended = c.ended ∧ d.lastAckNo = c.lastAckNo ∧
        c.baseAckNo.toNat ≤ d.baseAckNo.toNat ∧ ∀ i, d.Stored i ↔ c.Stored i)
    (fun d data hd hdata => by
      obtain ⟨hfill,hended,hlast,hle,hstored⟩ := hd
      obtain ⟨hfill',hbase⟩ := hfill.deliver hdata
      have hmem : d.baseAckNo ∈ d.dataReceived :=
        (Std.ExtTreeMap.getElem?_eq_some_iff.mp hdata).fst
      exact ⟨hfill',hended,hlast,hle.trans (by omega),
        fun i => (stored_deliver hmem hbase i).trans (hstored i)⟩)
    ⟨hc,rfl,rfl,le_refl _,fun _ => Iff.rfl⟩ hsize
  exact ⟨⟨hfill,hnot⟩,hrest⟩

theorem Filling.not_returned (hc : c.Filling order file window)
    (hlt : c.baseAckNo.toNat < numSegments file) : c.returned = false := by
  cases hended : c.ended
  · simp [returned,hended]
  · have hne : c.baseAckNo ≠ c.lastAckNo := fun heq => by
      rw [heq,hc.last hended] at hlt
      exact lt_irrefl _ hlt
    simp [returned,hne]

theorem Filling.recorded (hc : c.Filling order file window) {i : UInt32}
    (hi : i.toNat = numSegments file) (hgot : c.Got file i) : c.ended = true ∧ c.lastAckNo = i := by
  rcases hgot with (hlt | hmem) | ⟨-,hended⟩
  · have hle := hc.base_le
    omega
  · obtain ⟨d,hd⟩ := Option.isSome_iff_exists.mp (Std.ExtTreeMap.mem_iff_isSome_getElem?.mp hmem)
    have hlt := (hc.buffer i d hd).2.1
    omega
  · exact hended

theorem Holding.store (hc : c.Holding order file window) {i : UInt32} (hi : c.InWindow window i)
    (hseg : i.toNat < numSegments file) (hmax : i.toNat + 1 < 2^32) :
    Filling order file window
      { c with dataReceived := c.dataReceived.insert i (segment file i.toNat) } := by
  have hlo := UInt32.le_iff_toNat_le.mp (UInt32.not_lt.mp hi.1)
  have hhi := toNat_lt_window (UInt32.not_le.mp hi.2)
  refine ⟨hc.base_le,hc.sink,fun j d hd => ?_,fun j hj => ?_,hc.last⟩
  · simp only [Std.ExtTreeMap.getElem?_insert,Std.compare_eq_iff_eq] at hd
    split at hd
    · next heq =>
      subst heq
      exact ⟨hlo,hseg,(Option.some.inj hd).symm⟩
    · exact hc.buffer j d hd
  · rw [Std.ExtTreeMap.mem_insert,Std.compare_eq_iff_eq] at hj
    rcases hj with rfl | hj
    · exact ⟨hhi,hmax⟩
    · exact hc.inWindow j hj

theorem Holding.confined (hc : c.Holding order file window) : c.Confined window :=
  ⟨hc.within,hc.base_notMem⟩

structure Accepted (order : ByteOrder) (file : List UInt8) (window : UInt32) (i : UInt32)
    (c c' : RepeatClient) : Prop where
  holding : c'.Holding order file window
  base_le : c.baseAckNo.toNat ≤ c'.baseAckNo.toNat
  got : ∀ j, c'.Got file j ↔ c.Got file j ∨ (c.InWindow window i ∧ j = i)
  other : ¬c.InWindow window i → c' = c

theorem Accepted.base_lt {i : UInt32} {c' : RepeatClient}
    (h : Accepted order file window i c c') (hwin : c.InWindow window i)
    (hbase : c.baseAckNo = i) (hseg : i.toNat < numSegments file) :
    i.toNat < c'.baseAckNo.toNat := by
  have hle := h.base_le
  rw [hbase] at hle
  refine lt_of_le_of_ne hle fun heq => ?_
  rcases (h.got i).mpr (Or.inr ⟨hwin,rfl⟩) with (hlt | hmem) | ⟨hnum,-⟩
  · omega
  · exact h.holding.base_notMem (UInt32.toNat_inj.mp heq ▸ hmem)
  · omega

theorem Holding.accept_data (hc : c.Holding order file window) {room : RepeatClient → Bool}
    (hroom : room c = true) {i : UInt32} (hwin : c.InWindow window i)
    (hseg : i.toNat < numSegments file) (hmax : i.toNat + 1 < 2^32) :
    let stored := if i ∉ c.dataReceived ∧ room c = true then
        { c with dataReceived := c.dataReceived.insert i (segment file i.toNat) }
      else c
    Accepted order file window i c (stored.handleWindow order) := by
  intro stored
  have hstored : stored.Filling order file window ∧ stored.ended = c.ended ∧
      stored.lastAckNo = c.lastAckNo ∧ stored.baseAckNo = c.baseAckNo ∧
      ∀ j, stored.Stored j ↔ c.Stored j ∨ j = i := by
    by_cases hmem : i ∈ c.dataReceived
    · have hsame : stored = c := if_neg fun h => h.1 hmem
      rw [hsame]
      refine ⟨hc.toFilling,rfl,rfl,rfl,fun j => ⟨Or.inl,fun h => h.elim id ?_⟩⟩
      rintro rfl
      exact Or.inr hmem
    · have hinsert : stored =
          { c with dataReceived := c.dataReceived.insert i (segment file i.toNat) } :=
        if_pos ⟨hmem,hroom⟩
      rw [hinsert]
      refine ⟨hc.store hwin hseg hmax,rfl,rfl,rfl,fun j => ?_⟩
      change j.toNat < c.baseAckNo.toNat ∨ j ∈ c.dataReceived.insert i (segment file i.toNat) ↔
        (j.toNat < c.baseAckNo.toNat ∨ j ∈ c.dataReceived) ∨ j = i
      rw [Std.ExtTreeMap.mem_insert,Std.compare_eq_iff_eq,eq_comm,or_assoc,or_comm (b := j = i)]
  obtain ⟨hfill,hended,hlast,hbase,hst⟩ := hstored
  obtain ⟨hhold,hended',hlast',hle,hst'⟩ := hfill.drainBuffer stored.dataReceived.size (le_refl _)
  refine ⟨hhold,hbase ▸ hle,fun j => ?_,fun hnot => absurd hwin hnot⟩
  rw [handleWindow,Got,Got,hst',hst,hended',hended,hlast',hlast]
  tauto

theorem Holding.accept (hc : c.Holding order file window) (hret : c.returned = false)
    {room : RepeatClient → Bool}
    (hroom : c.Holding order file window → 0 < window.toNat → room c = true)
    {i : UInt32} (hi : i.toNat ≤ numSegments file) (hmax : i.toNat + 1 < 2^32) :
    ∃ c', RepeatClient.accept order window room c (filePacket order file i) =
        some (c',if c.Answers window i then [createAckPacket i] else List.nil) ∧
      Accepted order file window i c c' := by
  have hlen := filePacket_len order file i
  by_cases hold : c.Old window i
  · have hnot : ¬c.InWindow window i := fun h => h.1 hold.1
    have hans : c.Answers window i := Or.inl hold
    refine ⟨c,by simp [RepeatClient.accept,hret,recvMessage,hold,hans],hc,le_refl _,?_,fun _ => rfl⟩
    simp [hnot]
  by_cases hwin : c.InWindow window i
  · have hans : c.Answers window i := Or.inr hwin
    by_cases hseg : i.toNat < numSegments file
    · have hdata : (filePacket order file i).len ≠ 8 := fun h => by
        rw [hlen] at h
        omega
      exact ⟨_,by simp [RepeatClient.accept,hret,recvMessage,hold,hwin,hans,hdata,
        extractPureData_filePacket]; rfl,hc.accept_data (hroom hc hwin.pos) hwin hseg hmax⟩
    · have hmark := hlen.mpr (Nat.not_lt.mp hseg)
      have hnum : i.toNat = numSegments file := le_antisymm hi (Nat.not_lt.mp hseg)
      refine ⟨{ c with ended := true, lastAckNo := i },
        by simp [RepeatClient.accept,hret,recvMessage,hold,hwin,hans,hmark],
        ⟨⟨hc.base_le,hc.sink,hc.buffer,hc.inWindow,fun _ => hnum⟩,hc.base_notMem⟩,le_refl _,
        fun j => ⟨?_,?_⟩,fun hnot => absurd hwin hnot⟩
      · rintro (hst | ⟨-,-,hj⟩)
        · exact Or.inl (Or.inl hst)
        · exact Or.inr ⟨hwin,hj.symm⟩
      · rintro ((hst | ⟨hj,-,-⟩) | ⟨-,rfl⟩)
        · exact Or.inl hst
        · exact Or.inr ⟨hj,rfl,UInt32.toNat_inj.mp (hnum.trans hj.symm)⟩
        · exact Or.inr ⟨hnum,rfl,rfl⟩
  · have hans : ¬c.Answers window i := fun h => h.elim hold hwin
    refine ⟨c,by simp [RepeatClient.accept,hret,recvMessage,hold,hwin,hans],hc,le_refl _,?_,
      fun _ => rfl⟩
    simp [hwin]

end RepeatClient

end ReliableTransfer
