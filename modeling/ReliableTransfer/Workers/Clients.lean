import ReliableTransfer.Framework.Copying
import ReliableTransfer.Workers.Factory
import ReliableTransfer.Workers.GoBackN.Safety
import ReliableTransfer.Workers.SelectiveRepeatCC.Safety
import ReliableTransfer.Workers.StopWait.Safety

/-!
# What all clients do

On packets of the file and on packets the checksum rejects, a client worker copies the file
forwards and acknowledges only what it has got.
-/

namespace ReliableTransfer

open Framework

variable {order : ByteOrder} {file : List UInt8}

theorem filePackets_append (order : ByteOrder) (file : List UInt8) {lo mid hi : Nat}
    (hlo : lo ≤ mid) (hhi : mid ≤ hi) :
    filePackets order file lo hi = filePackets order file lo mid ++ filePackets order file mid hi := by
  have hlen : hi - lo = (mid - lo) + (hi - mid) := by omega
  have hmid : mid = lo + 1 * (mid - lo) := by omega
  rw [filePackets,hlen,← List.range'_append,List.map_append,← hmid]
  rfl

theorem StopWaitClient.Consumed.resent {c : StopWaitClient} (hc : c.Consumed order file)
    {a : AckPacket} (ha : a ∈ if c.sentOne then [c.lastPack] else List.nil) :
    ∃ n, a = createAckPacket n ∧ n.toNat < c.ackNo.toNat := by
  by_cases hone : c.sentOne = true
  · have hpos := hc.sentOne.mp hone
    rw [if_pos hone,List.mem_singleton] at ha
    refine ⟨c.ackNo - 1,ha.trans (hc.lastPack hpos),?_⟩
    have hle : (1 : UInt32) ≤ c.ackNo := UInt32.le_iff_toNat_le.mpr hpos
    rw [UInt32.toNat_sub_of_le _ _ hle]
    change c.ackNo.toNat - 1 < c.ackNo.toNat
    omega
  · simp [hone] at ha

theorem GoBackClient.recvMessage_of_accept {c : GoBackClient} (hended : c.ended = false)
    (packet : Packet) : GoBackN.accept order c packet = c.recvMessage order (.ok packet) := by
  simp [GoBackN.accept,hended]

theorem RepeatClient.recvMessage_of_accept {window : UInt32} {room : RepeatClient → Bool}
    {c : RepeatClient} (hret : c.returned = false) (packet : Packet) :
    RepeatClient.accept order window room c packet =
      c.recvMessage order window room (.ok packet) := by
  simp [RepeatClient.accept,hret]

namespace ClientWorker

/-- What the worker has written and what it buffers is the file's. -/
def Holds (order : ByteOrder) (file : List UInt8) : ClientWorker → Prop
  | .stopWait c => c.Consumed order file
  | .goBackN c => c.Consumed order file
  | .selectiveRepeat window c => c.Holding order file window
  | .selectiveRepeatCC window c => c.Holding order file window

def Got (file : List UInt8) : ClientWorker → UInt32 → Prop
  | .stopWait c,n => n.toNat < c.ackNo.toNat
  | .goBackN c,n => n.toNat < c.baseAckNo.toNat
  | .selectiveRepeat _ c,n => c.Got file n
  | .selectiveRepeatCC _ c,n => c.Got file n

def written (file : List UInt8) : ClientWorker → Nat
  | .stopWait c => min c.ackNo.toNat (numSegments file)
  | .goBackN c => min c.baseAckNo.toNat (numSegments file)
  | .selectiveRepeat _ c => c.baseAckNo.toNat
  | .selectiveRepeatCC _ c => c.baseAckNo.toNat

structure Advance (order : ByteOrder) (file : List UInt8) (k k' : ClientWorker)
    (out : List AckPacket) : Prop where
  holds : k'.Holds order file
  type : k'.type = k.type
  got : ∀ n, k.Got file n → k'.Got file n
  written_le : k.written file ≤ k'.written file
  acks : ∀ a ∈ out, ∃ n, a = createAckPacket n ∧ k'.Got file n

variable {k k' : ClientWorker}

@[simp] theorem start_type (type : ProtoType) (window : UInt32) : (start type window).type = type := by
  cases type <;> rfl

theorem start_returned (type : ProtoType) (window : UInt32) :
    (start type window).returned = false := by
  cases type <;> rfl

theorem start_holds (order : ByteOrder) (file : List UInt8) (type : ProtoType) (window : UInt32) :
    (start type window).Holds order file := by
  cases type with
  | waitAndStop =>
    exact ⟨Nat.zero_le _,by simp,by simp,fun h => absurd h (lt_irrefl _),
      DataSink.fed_fresh order file⟩
  | goBackN => exact ⟨Nat.zero_le _,by simp,DataSink.fed_fresh order file⟩
  | selectiveRepeat => exact RepeatClient.fresh_holding order file window
  | selectiveRepeatCC => exact RepeatClient.fresh_holding order file window

theorem Holds.fed (hk : k.Holds order file) : k.sink.Fed order file (k.written file) := by
  cases k with
  | stopWait c => exact StopWaitClient.Consumed.sink hk
  | goBackN c => exact GoBackClient.Consumed.sink hk
  | selectiveRepeat window c => exact hk.sink
  | selectiveRepeatCC window c => exact hk.sink

theorem Holds.written_le (hk : k.Holds order file) : k.written file ≤ numSegments file := by
  cases k with
  | stopWait c => exact min_le_right _ _
  | goBackN c => exact min_le_right _ _
  | selectiveRepeat window c => exact hk.base_le
  | selectiveRepeatCC window c => exact hk.base_le

theorem Holds.unchanged (hk : k.Holds order file) : Advance order file k k List.nil :=
  ⟨hk,rfl,fun _ hn => hn,le_refl _,by simp⟩

theorem stopWait_genuine {c : StopWaitClient} (hc : c.Consumed order file)
    (hended : c.ended = false) (hfile : numSegments file + 1 < 2^32) (n : UInt32) :
    ∃ c' out, c.recvMessage order (.ok (filePacket order file n)) = some (c',out) ∧
      Advance order file (.stopWait c) (.stopWait c') out := by
  by_cases hn : n = c.ackNo
  · subst hn
    have hle := hc.ackNo_le_segments hended
    obtain ⟨c',hrun,hc',hsucc⟩ := hc.expected (by omega) hended
    refine ⟨c',_,hrun,hc',rfl,fun m hm => ?_,?_,fun a ha => ⟨c.ackNo,List.mem_singleton.mp ha,?_⟩⟩
    · exact (Nat.lt_succ_of_lt hm).trans_eq hsucc.symm
    · change min c.ackNo.toNat _ ≤ min c'.ackNo.toNat _
      omega
    · exact (Nat.lt_succ_self _).trans_eq hsucc.symm
  · refine ⟨c,_,c.recvMessage_other hn,hc,rfl,fun _ hm => hm,le_refl _,fun a ha => hc.resent ha⟩

theorem goBackN_genuine {c : GoBackClient} (hc : c.Consumed order file)
    (hended : c.ended = false) (hfile : numSegments file + 1 < 2^32) (n : UInt32) :
    ∃ c' out, c.recvMessage order (.ok (filePacket order file n)) = some (c',out) ∧
      Advance order file (.goBackN c) (.goBackN c') out := by
  rw [← GoBackClient.recvMessage_of_accept hended]
  by_cases hn : n = c.baseAckNo
  · subst hn
    have hle := hc.ackNo_le
    have hne : c.baseAckNo.toNat ≠ numSegments file + 1 := fun h => by
      simp [hc.ended.mpr h] at hended
    obtain ⟨c',hrun,hc',hsucc⟩ := hc.expected (by omega) hended
    refine ⟨c',_,hrun,hc',rfl,fun m hm => ?_,?_,
      fun a ha => ⟨c.baseAckNo,List.mem_singleton.mp ha,?_⟩⟩
    · exact (Nat.lt_succ_of_lt hm).trans_eq hsucc.symm
    · change min c.baseAckNo.toNat _ ≤ min c'.baseAckNo.toNat _
      omega
    · exact (Nat.lt_succ_self _).trans_eq hsucc.symm
  · exact ⟨c,_,c.accept_other hn hended,Holds.unchanged (k := .goBackN c) hc⟩

theorem repeat_genuine {window : UInt32} {room : RepeatClient → Bool}
    (hroom : RepeatServer.Roomy order file window room) {c : RepeatClient}
    (hc : c.Holding order file window) (hret : c.returned = false)
    (hfile : numSegments file + 1 < 2^32) {n : UInt32} (hn : n.toNat ≤ numSegments file) :
    ∃ c' out, c.recvMessage order window room (.ok (filePacket order file n)) = some (c',out) ∧
      c'.Holding order file window ∧ (∀ m, c.Got file m → c'.Got file m) ∧
      c.baseAckNo.toNat ≤ c'.baseAckNo.toNat ∧
      ∀ a ∈ out, ∃ m, a = createAckPacket m ∧ c'.Got file m := by
  obtain ⟨c',hrun,hacc⟩ := hc.accept hret (fun hc hpos => hroom c hc hpos) hn (by omega)
  rw [RepeatClient.recvMessage_of_accept hret] at hrun
  refine ⟨c',_,hrun,hacc.holding,fun m hm => (hacc.got m).mpr (Or.inl hm),hacc.base_le,
    fun a ha => ?_⟩
  by_cases hans : c.Answers window n
  · rw [if_pos hans,List.mem_singleton] at ha
    refine ⟨n,ha,?_⟩
    rcases hans with hold | hwin
    · exact (hacc.got n).mpr (Or.inl (Or.inl (Or.inl (UInt32.lt_iff_toNat_lt.mp hold.1))))
    · exact (hacc.got n).mpr (Or.inr ⟨hwin,rfl⟩)
  · simp [hans] at ha

theorem Holds.genuine (hk : k.Holds order file) (hret : k.returned = false)
    (hfile : numSegments file + 1 < 2^32) {n : UInt32} (hn : n.toNat ≤ numSegments file) :
    ∃ k' out, k.recvMessage order (.ok (filePacket order file n)) = some (k',out) ∧
      Advance order file k k' out := by
  cases k with
  | stopWait c =>
    obtain ⟨c',out,hrun,hadvance⟩ := stopWait_genuine hk hret hfile n
    exact ⟨.stopWait c',out,by rw [recvMessage,hrun]; rfl,hadvance⟩
  | goBackN c =>
    obtain ⟨c',out,hrun,hadvance⟩ := goBackN_genuine hk hret hfile n
    exact ⟨.goBackN c',out,by rw [recvMessage,hrun]; rfl,hadvance⟩
  | selectiveRepeat window c =>
    obtain ⟨c',out,hrun,hc',hgot,hle,hout⟩ := repeat_genuine
      (SelectiveRepeat.roomy order file window) hk hret hfile hn
    exact ⟨.selectiveRepeat window c',out,by rw [recvMessage,hrun]; rfl,hc',rfl,hgot,hle,hout⟩
  | selectiveRepeatCC window c =>
    obtain ⟨c',out,hrun,hc',hgot,hle,hout⟩ := repeat_genuine
      (SelectiveRepeatCC.roomy order file window) hk hret hfile hn
    exact ⟨.selectiveRepeatCC window c',out,by rw [recvMessage,hrun]; rfl,hc',rfl,hgot,hle,hout⟩

theorem Holds.rejected (hk : k.Holds order file) {packet : Packet}
    (hsum : verifyChecksum order packet = false) :
    ∃ out, k.recvMessage order (.ok packet) = some (k,out) ∧ Advance order file k k out := by
  cases k with
  | stopWait c =>
    refine ⟨if c.sentOne then [c.lastPack] else List.nil,
      by simp [recvMessage,StopWaitClient.recvMessage,hsum],hk,rfl,fun _ hm => hm,le_refl _,
      fun a ha => hk.resent ha⟩
  | goBackN c =>
    exact ⟨List.nil,by simp [recvMessage,GoBackClient.recvMessage,hsum],hk.unchanged⟩
  | selectiveRepeat window c =>
    exact ⟨List.nil,by simp [recvMessage,RepeatClient.recvMessage,hsum],hk.unchanged⟩
  | selectiveRepeatCC window c =>
    exact ⟨List.nil,by simp [recvMessage,RepeatClient.recvMessage,hsum],hk.unchanged⟩

def Genuine (order : ByteOrder) (file : List UInt8) (packet : Packet) : Prop :=
  verifyChecksum order packet = true →
    ∃ n : UInt32, packet = filePacket order file n ∧ n.toNat ≤ numSegments file

/-- Every pass of every client goes on with the transfer. -/
theorem Holds.advance (hk : k.Holds order file) (hret : k.returned = false)
    (hfile : numSegments file + 1 < 2^32) {recv : Recv Packet}
    (hrecv : ∀ packet, recv = .ok packet → Genuine order file packet) :
    ∃ k' out, k.recvMessage order recv = some (k',out) ∧ Advance order file k k' out := by
  cases recv with
  | timeOut => cases k <;> exact ⟨_,_,rfl,hk.unchanged⟩
  | error => cases k <;> exact ⟨_,_,rfl,hk.unchanged⟩
  | ok packet =>
    cases hsum : verifyChecksum order packet
    · obtain ⟨out,hrun⟩ := hk.rejected hsum
      exact ⟨k,out,hrun⟩
    · obtain ⟨n,rfl,hn⟩ := hrecv packet rfl hsum
      exact hk.genuine hret hfile hn

theorem Holds.written_of_returned (hk : k.Holds order file) (hret : k.returned = true) :
    k.written file = numSegments file := by
  cases k with
  | stopWait c =>
    change min c.ackNo.toNat _ = _
    rw [hk.ended.mp hret]
    exact Nat.min_eq_right (Nat.le_succ _)
  | goBackN c =>
    change min c.baseAckNo.toNat _ = _
    rw [hk.ended.mp hret]
    exact Nat.min_eq_right (Nat.le_succ _)
  | selectiveRepeat window c =>
    have hends : c.returned = true := hret
    rw [RepeatClient.returned,Bool.and_eq_true,beq_iff_eq] at hends
    exact (congrArg UInt32.toNat hends.2).trans (hk.last hends.1)
  | selectiveRepeatCC window c =>
    have hends : c.returned = true := hret
    rw [RepeatClient.returned,Bool.and_eq_true,beq_iff_eq] at hends
    exact (congrArg UInt32.toNat hends.2).trans (hk.last hends.1)

theorem Holds.written_all (hk : k.Holds order file) (hret : k.returned = true) :
    k.sink.writer.written = file := by
  have hfed := hk.fed
  rw [hk.written_of_returned hret] at hfed
  exact hfed.complete

theorem repeat_returned {window : UInt32} {c : RepeatClient} (hc : c.Holding order file window)
    (hfile : numSegments file < 2^32)
    (hgot : ∀ n : UInt32, n.toNat ≤ numSegments file → c.Got file n) : c.returned = true := by
  have hnum : (UInt32.ofNat (numSegments file)).toNat = numSegments file :=
    UInt32.toNat_ofNat_of_lt' hfile
  have hended := hc.recorded hnum (hgot _ hnum.le)
  have hbase : c.baseAckNo.toNat = numSegments file := by
    rcases hgot c.baseAckNo hc.base_le with (hlt | hmem) | ⟨hnum,-⟩
    · exact absurd hlt (lt_irrefl _)
    · exact absurd hmem hc.base_notMem
    · exact hnum
  rw [RepeatClient.returned,hended.1,Bool.true_and,beq_iff_eq,hended.2]
  exact UInt32.toNat_inj.mp (hbase.trans hnum.symm)

theorem Holds.returned_of_got (hk : k.Holds order file) (hfile : numSegments file < 2^32)
    (hgot : ∀ n : UInt32, n.toNat ≤ numSegments file → k.Got file n) : k.returned = true := by
  have hnum : (UInt32.ofNat (numSegments file)).toNat = numSegments file :=
    UInt32.toNat_ofNat_of_lt' hfile
  have hlast := hgot _ hnum.le
  cases k with
  | stopWait c =>
    have hlt : _ < c.ackNo.toNat := hlast
    have hle := StopWaitClient.Consumed.ackNo_le hk
    exact (StopWaitClient.Consumed.ended hk).mpr (by omega)
  | goBackN c =>
    have hlt : _ < c.baseAckNo.toNat := hlast
    have hle := GoBackClient.Consumed.ackNo_le hk
    exact (GoBackClient.Consumed.ended hk).mpr (by omega)
  | selectiveRepeat window c => exact repeat_returned hk hfile hgot
  | selectiveRepeatCC window c => exact repeat_returned hk hfile hgot

def copy (k : ClientWorker) : Copy Packet := ⟨k.sink.packets,k.returned⟩

theorem Holds.faithful (hk : k.Holds order file) :
    k.copy.Faithful (filePackets order file 0 (numSegments file)) where
  written := by
    refine ⟨filePackets order file (k.written file) (numSegments file),?_⟩
    rw [copy,hk.fed.packets,← filePackets_append order file (Nat.zero_le _) hk.written_le]
  closed h := by rw [copy,hk.fed.packets,hk.written_of_returned h]

theorem Advance.copy {out : List AckPacket} (h : Advance order file k k' out)
    (hk : k.Holds order file) (hret : k.returned = false) :
    Copy.Run (filePackets order file 0 (numSegments file)) k.copy k'.copy := by
  refine Copy.run_onward hret ⟨filePackets order file (k.written file) (k'.written file),?_⟩
    h.holds.faithful
  rw [ClientWorker.copy,ClientWorker.copy,hk.fed.packets,h.holds.fed.packets,
    ← filePackets_append order file (Nat.zero_le _) h.written_le]

end ClientWorker

end ReliableTransfer
