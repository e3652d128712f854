import ReliableTransfer.Workers.Completion
import ReliableTransfer.Workers.SelectiveRepeat.Liveness
import ReliableTransfer.Workers.SelectiveRepeatCC.Liveness
import ReliableTransfer.Workers.Termination

/-!
# When a transfer can always be completed

Whatever has been lost so far, a client that is still receiving can get the rest if the windows
are wide enough for what the client does not answer any more. A server whose client has returned
lives on the acknowledgements that are in flight.
-/

namespace ReliableTransfer

open Framework

variable {order : ByteOrder} {file : List UInt8}

namespace StopWaitServer

variable {s s' : StopWaitServer} {e : StopWaitEvent} {out : List Packet}

theorem badPack_unfailed {tv sendTime : Timeval}
    {again : Timeval → Timeval → StopWaitLoc} {onTimeout onError : StopWaitLoc}
    (hcalm : (StopWait.link order).calm e) (hagain : ∀ tv t, again tv t ≠ .returned true)
    (htimeout : onTimeout ≠ .returned true)
    (h : s.badPack tv sendTime again onTimeout onError e = some s') : s'.loc ≠ .returned true := by
  unfold badPack at h
  split at h
  · split at h
    · obtain rfl := Option.some.inj h
      exact htimeout
    · contradiction
  · next now recv =>
    dsimp only at h
    split at h
    · contradiction
    · cases recv with
      | timeOut =>
        obtain rfl := Option.some.inj h
        exact htimeout
      | error => exact hcalm.elim
      | ok a =>
        dsimp only at h
        split at h
        · obtain rfl := Option.some.inj h
          simp
        · obtain rfl := Option.some.inj h
          exact hagain _ _
  · contradiction

theorem step_unfailed (hcalm : (StopWait.link order).calm e)
    (h : s.step order e = some (s',out)) : s'.loc ≠ .returned true := by
  unfold step at h
  cases hat : s.loc with
  | head =>
    simp only [hat] at h
    cases e with
    | stop =>
      dsimp only at h
      split at h
      · contradiction
      · obtain ⟨rfl,-⟩ := Prod.mk.inj (Option.some.inj h)
        simp
    | send tick =>
      dsimp only at h
      split at h
      · obtain ⟨rfl,-⟩ := Prod.mk.inj (Option.some.inj h)
        simp [Tick.Calm.transmit hcalm]
      · contradiction
    | expire now => contradiction
    | receive now recv => contradiction
  | wait packet tv sendTime =>
    simp only [hat] at h
    obtain ⟨next,hnext,heq⟩ := Option.map_eq_some_iff.mp h
    obtain ⟨rfl,-⟩ := Prod.mk.inj heq
    exact badPack_unfailed hcalm (by simp) (by simp) hnext
  | resend packet =>
    simp only [hat] at h
    cases e with
    | send tick =>
      obtain ⟨rfl,-⟩ := Prod.mk.inj (Option.some.inj h)
      simp [Tick.Calm.transmit hcalm]
    | stop => contradiction
    | expire now => contradiction
    | receive now recv => contradiction
  | rewait packet tv sendTime =>
    simp only [hat] at h
    obtain ⟨next,hnext,heq⟩ := Option.map_eq_some_iff.mp h
    obtain ⟨rfl,-⟩ := Prod.mk.inj heq
    exact badPack_unfailed hcalm (by simp) (by simp) hnext
  | returned failed => simp [hat] at h

end StopWaitServer

/-- A pass over the timers in which nothing is lost reports no error. -/
def SenderOps.Unfailing {σ : Type} (ops : SenderOps σ) : Prop :=
  ∀ {w w' ticks noErr out}, (∀ i : ℕ, (ticks i).Calm) →
    ops.updateTimers ticks w = some (noErr,w',out) → noErr = true

theorem Sending.step_unfailed {σ κ : Type} {ops : SenderOps σ} (hops : ops.Unfailing)
    (accept : κ → Packet → Option (κ × List AckPacket)) {s s' : Sending σ} {e : SenderEvent}
    {out : List Packet} (hcalm : (link ops order accept).calm e)
    (h : s.step ops order e = some (s',out)) : s'.loc ≠ .returned true := by
  unfold step at h
  split at h
  · split at h
    · split at h
      · contradiction
      · obtain ⟨rfl,-⟩ := Prod.mk.inj (Option.some.inj h)
        simp
    · obtain ⟨rfl,-⟩ := Prod.mk.inj (Option.some.inj h)
      simp
  · next tick hat =>
    split at h
    · simp only [Tick.Calm.transmit hcalm,if_true] at h
      obtain ⟨rfl,-⟩ := Prod.mk.inj (Option.some.inj h)
      simp
    · contradiction
  · next site env hat =>
    obtain ⟨⟨noErr,worker⟩,-,heq⟩ := Option.map_eq_some_iff.mp h
    obtain ⟨rfl,-⟩ := Prod.mk.inj heq
    dsimp only
    split <;> simp
  · obtain ⟨rfl,-⟩ := Prod.mk.inj (Option.some.inj h)
    simp
  · next site ticks hat =>
    obtain ⟨⟨noErr,worker,out'⟩,htimers,heq⟩ := Option.map_eq_some_iff.mp h
    obtain ⟨rfl,-⟩ := Prod.mk.inj heq
    obtain rfl := hops hcalm htimers
    cases site <;> simp [Site.next]
  · obtain ⟨rfl,-⟩ := Prod.mk.inj (Option.some.inj h)
    dsimp only
    split <;> simp
  · contradiction

theorem GoBackServer.unfailing (window : UInt32) : (ops window).Unfailing := by
  intro w w' ticks noErr out hcalm h
  obtain ⟨t,ht⟩ := resend_calm hcalm 0 w.unackedPacket w.sendTime
  have hpass := Option.some.inj h
  simp only [updateTimer] at hpass
  split at hpass
  · rw [ht] at hpass
    exact (Prod.mk.inj hpass).1.symm
  · exact (Prod.mk.inj hpass).1.symm

theorem RepeatServer.timerLoop_calm {γ : Type} (h : RepeatHooks γ) {ticks : Nat → Tick}
    (hcalm : ∀ i, (ticks i).Calm) {fuel i : Nat} {packId : Option Nat} {resent : List UInt32}
    {s s' : RepeatServer γ} {noErr : Bool} {out : List Packet}
    (hrun : timerLoop h ticks fuel i packId resent s = some (noErr,s',out)) : noErr = true := by
  have hstop {s s' : RepeatServer γ} {noErr : Bool} {out₀ out : List Packet}
      (hrun : some (true,s,out₀) = some (noErr,s',out)) : noErr = true :=
    (Prod.mk.inj (Option.some.inj hrun)).1.symm
  induction fuel generalizing i packId resent s s' noErr out with
  | zero =>
    cases packId with
    | none => exact hstop hrun
    | some packId => contradiction
  | succ fuel ih =>
    cases packId with
    | none => exact hstop hrun
    | some packId =>
      simp only [timerLoop] at hrun
      obtain ⟨seqno,-,hrun⟩ := Option.bind_eq_some_iff.mp hrun
      split at hrun
      · exact hstop hrun
      · obtain ⟨sentAt,-,hrun⟩ := Option.bind_eq_some_iff.mp hrun
        split at hrun
        · split at hrun
          · split at hrun
            · exact hstop hrun
            · contradiction
          · simp only [(hcalm i).transmit,if_true] at hrun
            obtain ⟨sendOrder,-,hrun⟩ := Option.bind_eq_some_iff.mp hrun
            obtain ⟨⟨noErr₁,s₁,more⟩,hrest,hsame⟩ := Option.bind_eq_some_iff.mp hrun
            obtain ⟨hnoErr,hsame⟩ := Prod.mk.inj (Option.some.inj hsame)
            obtain ⟨rfl,-⟩ := Prod.mk.inj hsame
            exact hnoErr.symm.trans (ih hrest)
        · exact hstop hrun

theorem RepeatServer.unfailing {γ : Type} (h : RepeatHooks γ) : (ops h).Unfailing :=
  fun hcalm hrun => timerLoop_calm h hcalm hrun

namespace StopWait

variable {x : LinkState StopWaitServer StopWaitClient Packet AckPacket}

theorem run_sent {s : StopWaitServer} {c : StopWaitClient} {D : Multiset Packet}
    {A : Multiset AckPacket} (hp : (safe order file).parties s c) (hended : c.ended = false)
    (hne : s.loc ≠ .returned true) :
    ∃ s' D', (link order).CalmRun ⟨s,c,D,A⟩ ⟨s',c,D',A⟩ ∧ s'.seqNo = s.seqNo ∧
      s'.Waits (filePacket order file s.seqNo) fullTimeout ⟨0,0⟩ ∧
      filePacket order file s.seqNo ∈ D' := by
  obtain ⟨hgood,hc,hlo,-⟩ := hp
  have hle := hlo.trans (hc.ackNo_le_segments hended)
  have hresend (s₁ : StopWaitServer) (hrun : (link order).CalmRun ⟨s,c,D,A⟩ ⟨s₁,c,D,A⟩)
      (hseq : s₁.seqNo = s.seqNo) (hloc : s₁.loc = .resend (filePacket order file s.seqNo)) :
      ∃ s' D', (link order).CalmRun ⟨s,c,D,A⟩ ⟨s',c,D',A⟩ ∧ s'.seqNo = s.seqNo ∧
        s'.Waits (filePacket order file s.seqNo) fullTimeout ⟨0,0⟩ ∧
        filePacket order file s.seqNo ∈ D' := by
    have hsent : (link order).CalmRun ⟨s₁,c,D,A⟩ _ :=
      Link.CalmRun.serve (L := link order) (e := .send (calmTick ⟨0,0⟩)) (calmTick_calm _) rfl
        (StopWaitServer.step_resend hloc (calmTick_calm _))
    exact ⟨_,_,hrun.trans hsent,hseq,Or.inr rfl,by simp⟩
  have hexpire {packet : Packet} {tv sendTime : Timeval} (hloc : s.Waits packet tv sendTime)
      (hpacket : packet = filePacket order file s.seqNo) :
      ∃ s' D', (link order).CalmRun ⟨s,c,D,A⟩ ⟨s',c,D',A⟩ ∧ s'.seqNo = s.seqNo ∧
        s'.Waits (filePacket order file s.seqNo) fullTimeout ⟨0,0⟩ ∧
        filePacket order file s.seqNo ∈ D' := by
    let now : Timeval := ⟨0,sendTime.micros + tv.micros⟩
    have hnow : (updateRemainingTimeout tv sendTime now).1 = true := by
      simp [updateRemainingTimeout,updateRemainingTimeoutNc,now,Timeval.micros]
    have hstep : s.step order (.expire now) = some ({ s with loc := .resend packet },List.nil) :=
      StopWaitServer.step_timesOut hloc hnow
    have hrun : (link order).CalmRun ⟨s,c,D,A⟩ _ :=
      Link.CalmRun.serve (L := link order) (e := .expire now) trivial rfl hstep
    rw [Multiset.coe_nil,add_zero] at hrun
    exact hresend _ hrun rfl (by rw [hpacket])
  have hkept (packet : Packet) (hkept : s.kept = some packet) :
      packet = filePacket order file s.seqNo :=
    ((StopWaitServer.good_of_kept hkept).mp hgood).2.2
  cases hloc : s.loc with
  | head =>
    obtain ⟨seqNo,feeder,loc⟩ := s
    obtain rfl : loc = .head := hloc
    obtain ⟨hfeeder,-⟩ := hgood
    dsimp only at hfeeder
    subst hfeeder
    have hsent : (link order).CalmRun ⟨⟨seqNo,feederAt file seqNo.toNat,.head⟩,c,D,A⟩ _ :=
      Link.CalmRun.serve (L := link order) (e := .send (calmTick ⟨0,0⟩)) (calmTick_calm _) rfl
        (step_send order file hle seqNo ⟨0,0⟩)
    exact ⟨_,_,hsent,rfl,Or.inl rfl,by simp [filePacket]⟩
  | wait packet tv sendTime =>
    exact hexpire (Or.inl hloc) (hkept packet (by rw [StopWaitServer.kept,hloc]))
  | resend packet =>
    exact hresend s .refl rfl (by rw [hloc,hkept packet (by rw [StopWaitServer.kept,hloc])])
  | rewait packet tv sendTime =>
    exact hexpire (Or.inr hloc) (hkept packet (by rw [StopWaitServer.kept,hloc]))
  | returned failed =>
    cases failed
    · rw [StopWaitServer.Good,hloc] at hgood
      omega
    · exact absurd hloc hne

theorem run_next (hsize : numSegments file < 2^32 - 1) (hrun : (link order).Run (start file) x)
    (hended : x.client.ended = false) (hne : x.server.loc ≠ .returned true) :
    ∃ y, (link order).CalmRun x y ∧ x.server.seqNo.toNat < y.server.seqNo.toNat := by
  obtain ⟨s,c,D,A⟩ := x
  have hp : (safe order file).parties s c := (safe_run hsize hrun).parties
  have hle : s.seqNo.toNat ≤ numSegments file := hp.2.2.1.trans (hp.2.1.ackNo_le_segments hended)
  obtain ⟨s₁,D₁,hsent,hseq,hwaits,hmem⟩ := run_sent (D := D) (A := A) hp hended hne
  obtain ⟨c',hc'⟩ := safe_reply hp hended
  obtain ⟨D₂,-,htaken⟩ := Link.CalmRun.accept (L := link order) (s := s₁) (A := A) hmem hc'
  have hstep : s₁.step order (.receive ⟨0,0⟩ (.ok (createAckPacket s.seqNo))) =
      some ({ s₁ with seqNo := s₁.seqNo + 1, loc := .head },List.nil) :=
    StopWaitServer.step_acked hwaits (not_expired_self ⟨0,0⟩)
      ⟨verifyChecksumAck_createAckPacket _,(createAckPacket_ackno _).trans hseq.symm⟩
  obtain ⟨A₁,-,hread⟩ := Link.CalmRun.read (L := link order) (k := c') (D := D₂)
    (A := A + ([createAckPacket s.seqNo] : List AckPacket))
    (e := .receive ⟨0,0⟩ (.ok (createAckPacket s.seqNo))) (by simp) trivial rfl hstep
  refine ⟨_,(hsent.trans htaken).trans hread,?_⟩
  change s.seqNo.toNat < (s₁.seqNo + 1).toNat
  rw [hseq,toNat_add_one (by omega)]
  exact Nat.lt_succ_self _

theorem recovers (hsize : numSegments file < 2^32 - 1) (hrun : (link order).Run (start file) x)
    (hne : x.server.loc ≠ .returned true) :
    ∃ y, (link order).CalmRun x y ∧ y.client.ended = true := by
  refine Link.CalmRun.climb (L := link order)
    (I := fun x => (link order).Run (start file) x ∧ x.server.loc ≠ .returned true)
    (fun x => x.server.seqNo.toNat) (2^32) (fun x _ => x.server.seqNo.toNat_lt.le) ?_ ⟨hrun,hne⟩
  rintro x ⟨hx,hne⟩ hended
  obtain ⟨y,hy,hlt⟩ := run_next hsize hx (Bool.not_eq_true _ ▸ hended) hne
  exact ⟨y,hy,⟨hx.trans hy.run,hy.keeps (fun hcalm h _ => StopWaitServer.step_unfailed hcalm h)
    hne⟩,Or.inr hlt⟩

end StopWait

namespace GoBackN

variable {window : UInt32} {x y : LinkState (Sending GoBackServer) GoBackClient Packet AckPacket}

def ahead (base ack : UInt32) : Link.Claim (Sending GoBackServer) GoBackClient Packet AckPacket where
  parties s c := base.toNat ≤ s.worker.baseSeqNo.toNat ∧ ack.toNat ≤ c.baseAckNo.toNat
  data _ _ _ := True
  ack _ _ _ := True

theorem ahead_run (hx : (coupling order file window).Holds x) (h : (link order window).Run x y) :
    x.server.worker.baseSeqNo.toNat ≤ y.server.worker.baseSeqNo.toNat ∧
      x.client.baseAckNo.toNat ≤ y.client.baseAckNo.toNat := by
  have hinv := (coupling_inductive order file window).and
    (D := ahead x.server.worker.baseSeqNo x.client.baseAckNo)
    (by
      intro s s' c e out hs hahead _ hstep
      have hgood : s.Good (GoBackServer.ops window) file (Coupled order file window · c) := hs
      have hbase := (GoBackServer.step_base ⟨hgood.worker.bookkept,hgood.seqNo_le,hgood.feeder,
        hgood.closing,hgood.done⟩ hstep).1
      exact ⟨⟨⟨hahead.1.trans hbase,hahead.2⟩,fun _ hd => hd,fun _ ha => ha⟩,fun _ _ => trivial⟩)
    (by
      intro s c c' d out hs hahead hd _ haccept
      obtain ⟨i,rfl,hi⟩ := hd
      have hle : c.baseAckNo.toNat ≤ c'.baseAckNo.toNat := by
        cases hended : c.ended
        · by_cases hi' : i = c.baseAckNo
          · subst hi'
            have hmax := ((GoBackServer.ops window).seqNo s.worker).toNat_lt
            have hc : Coupled order file window s.worker c := hs.worker
            obtain ⟨c₁,hc₁,-,hsucc⟩ := hc.consumed.expected (by omega) hended
            obtain ⟨rfl,-⟩ := Prod.mk.inj (Option.some.inj (hc₁.symm.trans haccept))
            exact (Nat.le_succ _).trans_eq hsucc.symm
          · have hsame : GoBackN.accept order c (filePacket order file i) = some (c,List.nil) :=
              c.accept_other hi' hended
            obtain ⟨rfl,-⟩ := Prod.mk.inj (Option.some.inj (hsame.symm.trans haccept))
            exact le_refl _
        · rw [show (link order window).accept c _ = none from c.accept_ended hended _] at haccept
          contradiction
      exact ⟨⟨⟨hahead.1,hahead.2.trans hle⟩,fun _ hd => hd,fun _ ha => ha⟩,fun _ _ => trivial⟩)
  exact (hinv.run (hx.and ⟨⟨le_refl _,le_refl _⟩,fun _ _ => trivial,fun _ _ => trivial⟩) h).parties.2

theorem run_next (hwindow : numSegments file < window.toNat)
    (hfits : numSegments file + window.toNat < 2^32) (hx : (coupling order file window).Holds x)
    (hended : x.client.ended = false) (hne : x.server.loc ≠ .returned true) :
    ∃ y, (link order window).CalmRun x y ∧ Progress x y := by
  have hs : Coupled order file window x.server.worker x.client := hx.parties.worker
  have hloc : ∀ failed, x.server.loc ≠ .returned failed := by
    rintro (_ | _) hret
    · exact absurd (ended_of_returned hx hret).2 (by simp [hended])
    · exact hne hret
  by_cases hkept : x.client.baseAckNo.toNat < x.server.worker.seqNo.toNat
  · exact progress_of_kept hx hended hloc hkept
  · have hle := hs.consumed.ackNo_le
    have hbase := hs.base_le
    have hnotall : x.client.baseAckNo.toNat ≠ numSegments file + 1 := fun h => by
      simp [hs.consumed.ended.mpr h] at hended
    refine progress_of_open hx hended hloc (UInt32.toNat_inj.mp (le_antisymm hs.le_seqNo
      (not_lt.mp hkept))) (decide_eq_true ?_)
    rw [gt_iff_lt,UInt32.lt_iff_toNat_lt,UInt32.toNat_add,Nat.mod_eq_of_lt (by omega)]
    omega

/-- With a window that holds the whole file, nothing go-back-N loses can stop it. -/
theorem recovers (hwindow : numSegments file < window.toNat)
    (hfits : numSegments file + window.toNat < 2^32) (hrun : (link order window).Run (start file) x)
    (hne : x.server.loc ≠ .returned true) :
    ∃ y, (link order window).CalmRun x y ∧ y.client.ended = true := by
  refine Link.CalmRun.climb (L := link order window)
    (I := fun x => (coupling order file window).Holds x ∧ x.server.loc ≠ .returned true)
    (fun x => x.server.worker.baseSeqNo.toNat + x.client.baseAckNo.toNat) (2^32 + 2^32)
    (fun x _ => (Nat.add_lt_add x.server.worker.baseSeqNo.toNat_lt x.client.baseAckNo.toNat_lt).le)
    ?_ ⟨safe_run hrun,hne⟩
  rintro x ⟨hx,hne⟩ hended
  obtain ⟨y,hy,hprogress⟩ := run_next hwindow hfits hx (Bool.not_eq_true _ ▸ hended) hne
  have hahead := ahead_run hx hy.run
  refine ⟨y,hy,⟨(coupling_inductive order file window).run hx hy.run,?_⟩,Or.inr ?_⟩
  · exact hy.keeps (fun hcalm h _ => Sending.step_unfailed (GoBackServer.unfailing window)
      (accept order) hcalm h) hne
  · rcases hprogress with hlt | hlt <;> omega

end GoBackN

namespace RepeatServer

variable {γ : Type} {window : UInt32} {h : RepeatHooks γ} {room : RepeatClient → Bool}
  {x : RepeatLink γ}

theorem returned_of_last {i : UInt32} {c c' : RepeatClient} (hsmall : numSegments file < 2^32)
    (hacc : RepeatClient.Accepted order file window i c c') (hwin : c.InWindow window i)
    (hbase : c.baseAckNo = i) (hlast : i.toNat = numSegments file) : c'.returned = true := by
  refine ClientWorker.repeat_returned hacc.holding hsmall fun n hn => (hacc.got n).mpr ?_
  by_cases hni : n = i
  · exact Or.inr ⟨hwin,hni⟩
  · refine Or.inl (Or.inl (Or.inl ?_))
    have hne : n.toNat ≠ i.toNat := fun h => hni (UInt32.toNat_inj.mp h)
    rw [hbase]
    omega

theorem deliver_awaited (hroom : Roomy order file window room)
    (hsmall : numSegments file + window.toNat < 2^32) (hpos : 0 < window.toNat)
    {s : Sending (RepeatServer γ)} {c : RepeatClient} {D : Multiset Packet} {A : Multiset AckPacket}
    (hs : Coupled order file window s.worker c) (hclient : c.returned = false)
    (hlt : c.baseAckNo.toNat < s.worker.seqNo.toNat)
    (hmem : filePacket order file c.baseAckNo ∈ D) :
    ∃ y, (link h order window room).CalmRun ⟨s,c,D,A⟩ y ∧
      (y.client.returned = true ∨ c.baseAckNo.toNat < y.client.baseAckNo.toNat) := by
  have hle := hs.holding.base_le
  have hwin : c.InWindow window c.baseAckNo :=
    ⟨UInt32.lt_irrefl _,UInt32.not_le.mpr (lt_add_of_fits hpos (by omega))⟩
  obtain ⟨c',hc',hacc⟩ := hs.accept hroom hclient hlt
  obtain ⟨D',-,hrun⟩ := Link.CalmRun.accept (L := link h order window room) (s := s) (A := A) hmem hc'
  refine ⟨_,hrun,?_⟩
  by_cases hseg : c.baseAckNo.toNat < numSegments file
  · exact Or.inr (hacc.base_lt hwin rfl hseg)
  · exact Or.inl (returned_of_last (by omega) hacc hwin rfl (le_antisymm hle (not_lt.mp hseg)))

theorem client_next (hclose : Closes order file h) (hroom : Roomy order file window room)
    (hsmall : numSegments file + window.toNat < 2^32) (hpos : 0 < window.toNat)
    (hx : (coupling order file window h).Holds x) (hclient : x.client.returned = false)
    (hne : x.server.loc ≠ .returned true)
    (hnext : x.client.baseAckNo.toNat < x.server.worker.seqNo.toNat ∨
      x.server.worker.windowOpen h = true) :
    ∃ y, (link h order window room).CalmRun x y ∧
      (y.client.returned = true ∨ x.client.baseAckNo.toNat < y.client.baseAckNo.toNat) := by
  obtain ⟨s,c,D,A⟩ := x
  dsimp only at hclient hne hnext ⊢
  have hgood : s.Good (ops h) file (Coupled order file window · c) := hx.parties
  have hs := hgood.worker
  have hloc := not_returned hclose hx hclient hne
  by_cases hlt : c.baseAckNo.toNat < s.worker.seqNo.toNat
  · have hout : s.worker.Outstanding c.baseAckNo := by
      by_contra hnot
      rcases hs.acked_got _ hlt hnot with (hlt' | hmem) | ⟨-,hended,hlast⟩
      · exact lt_irrefl _ hlt'
      · exact hs.holding.base_notMem hmem
      · simp [RepeatClient.returned,hended,hlast] at hclient
    obtain ⟨site,s₁,D₁,w,n,hreach,hreq,-,D₂,hmem,hfired⟩ := fire_timers hclose hroom hx hloc hout
    have hx₂ := (coupling_inductive h hroom).run hx hfired.run
    have hs₂ : Coupled order file window w c := hx₂.parties.worker
    have hout₂ := (hreq.outstanding _).mpr ((reached_keeps hs.inStep hreach).2.2 _ hout)
    obtain ⟨y,hy,hdone⟩ := deliver_awaited (h := h) (s := ⟨w,s₁.feeder,site.next⟩) (A := A) hroom
      hsmall hpos hs₂ hclient hout₂.2.1 hmem
    exact ⟨y,hfired.trans hy,hdone⟩
  · have hopen := hnext.resolve_left hlt
    have hack : c.baseAckNo = s.worker.seqNo :=
      UInt32.toNat_inj.mp (le_antisymm hs.ackNo_le (not_lt.mp hlt))
    have hle : s.worker.seqNo.toNat ≤ numSegments file := hack ▸ hs.holding.base_le
    have hsent := Sending.reach_send order (RepeatClient.accept order window room) (c := c) (D := D)
      (A := A) (coupled_quiet order file window h c) hgood hloc hle hopen ⟨0,0⟩
    have hx₂ := (coupling_inductive h hroom).run hx hsent.run
    have hs₂ : Coupled order file window _ c := hx₂.parties.worker
    have hseq := (hs.inStep.recordSent hopen ⟨0,0⟩).2.1
    obtain ⟨y,hy,hdone⟩ := deliver_awaited (h := h) (A := A)
      (D := filePacket order file s.worker.seqNo ::ₘ D) hroom hsmall hpos
      (s := ⟨s.worker.recordSent (filePacket order file s.worker.seqNo) ⟨0,0⟩,_,_⟩) hs₂ hclient
      (by rw [hack]; exact (Nat.lt_succ_self _).trans_eq hseq.symm)
      (by rw [hack]; exact Multiset.mem_cons_self _ _)
    exact ⟨y,hsent.trans hy,hdone⟩

theorem base_next (hclose : Closes order file h) (hroom : Roomy order file window room)
    (hx : (coupling order file window h).Holds x) (hclient : x.client.returned = false)
    (hne : x.server.loc ≠ .returned true)
    (hopen : x.server.worker.baseSeqNo = x.server.worker.seqNo →
      x.server.worker.windowOpen h = true)
    (hwin : ∀ n, x.server.worker.baseSeqNo <
      x.server.worker.baseSeqNo + h.window (h.onTimeout^[n + 1] x.server.worker.ctl))
    (hdeaf : ¬Deaf window x.server.worker.baseSeqNo x.client) :
    ∃ y, (link h order window room).CalmRun x y ∧ Progress x y := by
  have hs : Coupled order file window x.server.worker x.client := hx.parties.worker
  by_cases heq : x.server.worker.baseSeqNo = x.server.worker.seqNo
  · exact progress_of_idle hclose hroom hx hclient hne heq (hopen heq) hwin (Or.inl hdeaf)
  · have hlt := lt_of_le_of_ne hs.inStep.base_le fun h => heq (UInt32.toNat_inj.mp h)
    exact progress_of_outstanding hclose hroom hx hclient hne hlt hwin (Or.inl hdeaf)

/-- A transfer of this family in which one of the two bases can always get higher. -/
theorem recovers (hroom : Roomy order file window room) {I : RepeatServer γ → Prop}
    (hI : (ops h).Keeps (fun _ _ => True) I) (rank : RepeatLink γ → Nat)
    (hrank : ∀ x, rank x ≤ 2^32)
    (hstep : ∀ x, (coupling order file window h).Holds x → I x.server.worker →
      x.client.returned = false → x.server.loc ≠ .returned true →
      ∃ y, (link h order window room).CalmRun x y ∧ (y.client.returned = true ∨ rank x < rank y))
    (hx : (coupling order file window h).Holds x) (hI' : I x.server.worker)
    (hne : x.server.loc ≠ .returned true) :
    ∃ y, (link h order window room).CalmRun x y ∧ y.client.returned = true := by
  refine Link.CalmRun.climb (L := link h order window room)
    (I := fun x => (coupling order file window h).Holds x ∧ I x.server.worker ∧
      x.server.loc ≠ .returned true) rank (2^32) (fun x _ => hrank x) ?_ ⟨hx,hI',hne⟩
  rintro x ⟨hx,hI',hne⟩ hret
  obtain ⟨y,hy,hnext⟩ := hstep x hx hI' (Bool.not_eq_true _ ▸ hret) hne
  refine ⟨y,hy,⟨(coupling_inductive h hroom).run hx hy.run,?_,?_⟩,hnext⟩
  · exact hI.run hI' (Sending.runsTo_of_runWhere hy.run)
  · exact hy.keeps (fun hcalm h' _ => Sending.step_unfailed (unfailing h)
      (RepeatClient.accept order window room) hcalm h') hne

end RepeatServer

namespace SelectiveRepeat

variable {window clientWindow : UInt32} {x : RepeatLink UInt32}

/-- Selective repeat can always be completed if the client's window is not the smaller one, or the
sender's window holds the whole file. -/
theorem recovers (hsize : Modest file window clientWindow)
    (hwindow : window ≤ clientWindow ∨ numSegments file < window.toNat)
    (hrun : (link order clientWindow).Run (start window file) x)
    (hne : x.server.loc ≠ .returned true) :
    ∃ y, (link order clientWindow).CalmRun x y ∧ y.client.returned = true := by
  have hroom := roomy order file clientWindow
  have hclose := closes order file
  have hsmall := hsize.clientWindow_fits
  have hfits := hsize.window_fits
  have hpos := hsize.clientWindow_pos
  have hstart : Spanned window (.fresh window) :=
    ⟨RepeatServer.fresh_numbered window,rfl,Nat.zero_le _⟩
  have hI' := (keeps_spanned window _).run hstart (Sending.runsTo_of_runWhere hrun)
  have hopen {s : SelectiveRepeatServer} (hI : Spanned window s)
      (hlt : s.seqNo.toNat < s.baseSeqNo.toNat + window.toNat)
      (hle : s.baseSeqNo.toNat ≤ numSegments file) : s.windowOpen hooks = true := by
    refine decide_eq_true ?_
    change s.seqNo < s.baseSeqNo + s.ctl
    rw [hI.ctl,UInt32.lt_iff_toNat_lt,UInt32.toNat_add,Nat.mod_eq_of_lt (by omega)]
    exact hlt
  rcases hwindow with hwindow | hwindow
  · refine RepeatServer.recovers hroom (keeps_spanned window _)
      (fun x => x.server.worker.baseSeqNo.toNat) (fun x => x.server.worker.baseSeqNo.toNat_lt.le)
      ?_ (RepeatServer.safe_run hroom hrun) hI' hne
    intro x hx hI hclient hne
    have hs : RepeatServer.Coupled order file clientWindow x.server.worker x.client :=
      hx.parties.worker
    have hback := hs.base_le_ackNo hclient
    have hle := hs.holding.base_le
    have hwin : x.server.worker.baseSeqNo < x.server.worker.baseSeqNo + window :=
      lt_add_of_fits hsize.window_pos (by omega)
    obtain ⟨y,hy,hprogress⟩ := RepeatServer.base_next hclose hroom hx hclient hne
      (fun heq => hopen hI (heq ▸ Nat.lt_add_of_pos_right hsize.window_pos) (hback.trans hle))
      (fun n => by
        have hsame : hooks.onTimeout^[n + 1] x.server.worker.ctl = x.server.worker.ctl :=
          congrFun (Function.iterate_id _) _
        rw [hsame,hI.ctl]
        exact hwin)
      (by
        rw [deaf_iff_lt hback hpos (by omega),not_lt]
        have hcap := UInt32.le_iff_toNat_le.mp hwindow
        exact hs.ackNo_le.trans (hI.seqNo_le.trans (Nat.add_le_add_left hcap _)))
    exact ⟨y,hy,Or.inr hprogress⟩
  · refine RepeatServer.recovers hroom (keeps_spanned window _)
      (fun x => x.client.baseAckNo.toNat) (fun x => x.client.baseAckNo.toNat_lt.le)
      ?_ (RepeatServer.safe_run hroom hrun) hI' hne
    intro x hx hI hclient hne
    have hs : RepeatServer.Coupled order file clientWindow x.server.worker x.client :=
      hx.parties.worker
    have hback := hs.base_le_ackNo hclient
    have hle := hs.holding.base_le
    refine RepeatServer.client_next hclose hroom (by omega) hpos hx hclient hne ?_
    by_cases hlt : x.client.baseAckNo.toNat < x.server.worker.seqNo.toNat
    · exact Or.inl hlt
    · have hack := le_antisymm hs.ackNo_le (not_lt.mp hlt)
      exact Or.inr (hopen hI (by omega) (hback.trans hle))

end SelectiveRepeat

namespace SelectiveRepeatCC

variable {orgWindow clientWindow : UInt32} {dupAcks : List UInt32} {x : RepeatLink Congestion}

/-- Selective repeat with congestion control can always be completed if the client's window holds
all segments. -/
theorem recovers (hsize : Modest file orgWindow clientWindow)
    (hwindow : numSegments file ≤ clientWindow.toNat)
    (hrun : (link order clientWindow).Run (start dupAcks orgWindow file) x)
    (hne : x.server.loc ≠ .returned true) :
    ∃ y, (link order clientWindow).CalmRun x y ∧ y.client.returned = true := by
  have hroom := roomy order file clientWindow
  have hnumbers := hsize.numbers
  have hsmall := hsize.clientWindow_fits
  have hstart : Sound (.fresh (.start dupAcks orgWindow)) :=
    ⟨Congestion.start_healthy dupAcks (UInt32.le_iff_toNat_le.mpr hsize.window_pos),le_refl _⟩
  refine RepeatServer.recovers hroom (keeps_sound _)
    (fun x => x.server.worker.baseSeqNo.toNat) (fun x => x.server.worker.baseSeqNo.toNat_lt.le)
    ?_ (RepeatServer.safe_run hroom hrun)
    ((keeps_sound _).run hstart (Sending.runsTo_of_runWhere hrun)) hne
  intro x hx hI hclient hne
  have hs : RepeatServer.Coupled order file clientWindow x.server.worker x.client :=
    hx.parties.worker
  have hback := hs.base_le_ackNo hclient
  have hle := hs.holding.base_le
  obtain ⟨y,hy,hprogress⟩ := RepeatServer.base_next (closes order file) hroom hx hclient hne
    (fun heq => by
      have hpos := hI.healthy.window_pos
      have hearned := hI.earned
      have hseq : x.server.worker.seqNo.toNat ≤ numSegments file := heq ▸ hback.trans hle
      rw [Congestion.weight] at hearned
      refine decide_eq_true ?_
      rw [← heq]
      exact lt_add_of_fits hpos (by
        change _ + x.server.worker.ctl.window.toNat < _
        omega))
    (base_admitted (by omega) _)
    (by
      rintro (hfar | ⟨-,hwrap⟩)
      · omega
      · exact hwrap (lt_add_of_fits hsize.clientWindow_pos (by omega)))
  exact ⟨y,hy,Or.inr hprogress⟩

end SelectiveRepeatCC

namespace ServerWorker

/-- `send_message` has given up after a failed send. -/
def Failed : ServerWorker → Prop
  | .stopWait s => s.loc = .returned true
  | .goBackN _ s => s.loc = .returned true
  | .selectiveRepeat s => s.loc = .returned true
  | .selectiveRepeatCC s => s.loc = .returned true

/-- The acknowledgements of which `flying` holds are what it needs to return. -/
def Answered (flying : AckPacket → Prop) : ServerWorker → Prop
  | .stopWait s => s.kept = none ∨ ∃ a, flying a ∧ a.ackno = s.seqNo
  | .goBackN window s => s.worker.unackedPacket = List.nil ∨
    ∃ a, flying a ∧ a.ackno + 1 = s.worker.seqNo ∧ s.worker.Acceptable window a
  | .selectiveRepeat s => ∀ i, s.worker.Outstanding i →
    ∃ a, flying a ∧ a.ackno = i ∧ s.worker.Acceptable SelectiveRepeat.hooks a
  | .selectiveRepeatCC s => ∀ i, s.worker.Outstanding i → ∃ a, flying a ∧ a.ackno = i

/-- A server of selective repeat has no stray entry in `seqnums_sent`, on which it closes. -/
def Tidy : ServerWorker → Prop
  | .selectiveRepeat s => s.worker.Tidy
  | _ => True

end ServerWorker

/-- Both ends run `type`, and from every state in which the server has not given up the client can
still get everything without another loss. -/
def Recoverable (order : ByteOrder) (type : ProtoType) (dupAcks : List UInt32)
    (window clientWindow : UInt32) (file : List UInt8) : Prop :=
  ∀ z, (pair order).Run (pairStart type type dupAcks window clientWindow file) z →
    ¬z.server.Failed → ∃ z', (pair order).CalmRun z z' ∧ z'.client.returned = true

/-- The windows are wide enough, whatever is lost. -/
def Robust (type : ProtoType) (file : List UInt8) (window clientWindow : UInt32) : Prop :=
  match type with
  | .waitAndStop => True
  | .goBackN => numSegments file < window.toNat
  | .selectiveRepeat => window ≤ clientWindow ∨ numSegments file < window.toNat
  | .selectiveRepeatCC => numSegments file ≤ clientWindow.toNat

/-- The numbers a protocol computes with do not wrap around, and selective repeat has windows to
work with. -/
def Sized (type : ProtoType) (file : List UInt8) (window clientWindow : UInt32) : Prop :=
  match type with
  | .waitAndStop => numSegments file < 2^32 - 1
  | .goBackN => numSegments file + window.toNat < 2^32
  | .selectiveRepeat => Modest file window clientWindow
  | .selectiveRepeatCC => Modest file window clientWindow

theorem Robust.recoverable (order : ByteOrder) {type : ProtoType} (dupAcks : List UInt32)
    {window clientWindow : UInt32} (hsize : Sized type file window clientWindow)
    (h : Robust type file window clientWindow) :
    Recoverable order type dupAcks window clientWindow file := by
  intro z hrun hne
  cases type with
  | waitAndStop =>
    obtain ⟨x,rfl,hx⟩ := Link.Embedding.run_back (f := Pair.stopWait order)
      (x := StopWait.start file) hrun
    obtain ⟨y,hy,hret⟩ := StopWait.recovers hsize hx hne
    exact ⟨_,Link.Embedding.calmRun hy,hret⟩
  | goBackN =>
    obtain ⟨x,rfl,hx⟩ := Link.Embedding.run_back (f := Pair.goBackN order window)
      (x := GoBackN.start file) hrun
    obtain ⟨y,hy,hret⟩ := GoBackN.recovers h hsize hx hne
    exact ⟨_,Link.Embedding.calmRun hy,hret⟩
  | selectiveRepeat =>
    obtain ⟨x,rfl,hx⟩ := Link.Embedding.run_back (f := Pair.selectiveRepeat order clientWindow)
      (x := SelectiveRepeat.start window file) hrun
    obtain ⟨y,hy,hret⟩ := SelectiveRepeat.recovers hsize h hx hne
    exact ⟨_,Link.Embedding.calmRun hy,hret⟩
  | selectiveRepeatCC =>
    obtain ⟨x,rfl,hx⟩ := Link.Embedding.run_back (f := Pair.selectiveRepeatCC order clientWindow)
      (x := SelectiveRepeatCC.start dupAcks window file) hrun
    obtain ⟨y,hy,hret⟩ := SelectiveRepeatCC.recovers hsize h hx hne
    exact ⟨_,Link.Embedding.calmRun hy,hret⟩

theorem pair_returns_iff {order : ByteOrder} {type : ProtoType} {dupAcks : List UInt32}
    {window clientWindow : UInt32} {z : LinkState ServerWorker ClientWorker Packet AckPacket}
    (hrun : (pair order).Run (pairStart type type dupAcks window clientWindow file) z)
    (hret : z.client.returned = true) (hne : ¬z.server.Failed) (htidy : z.server.Tidy) :
    (pair order).AttainableIff z (fun y => y.server.Succeeded)
      (z.server.Answered fun a => a ∈ z.acks) := by
  cases type with
  | waitAndStop =>
    obtain ⟨x,rfl,hx⟩ := Link.Embedding.run_back (f := Pair.stopWait order)
      (x := StopWait.start file) hrun
    exact Link.Embedding.attainableIff (fun _ => Iff.rfl) (StopWait.returns_iff hx hret hne)
  | goBackN =>
    obtain ⟨x,rfl,hx⟩ := Link.Embedding.run_back (f := Pair.goBackN order window)
      (x := GoBackN.start file) hrun
    exact Link.Embedding.attainableIff (fun _ => Iff.rfl) (GoBackN.returns_iff hx hret hne)
  | selectiveRepeat =>
    obtain ⟨x,rfl,hx⟩ := Link.Embedding.run_back (f := Pair.selectiveRepeat order clientWindow)
      (x := SelectiveRepeat.start window file) hrun
    exact Link.Embedding.attainableIff (fun _ => Iff.rfl)
      (SelectiveRepeat.returns_iff hx hret hne htidy)
  | selectiveRepeatCC =>
    obtain ⟨x,rfl,hx⟩ := Link.Embedding.run_back (f := Pair.selectiveRepeatCC order clientWindow)
      (x := SelectiveRepeatCC.start dupAcks window file) hrun
    exact Link.Embedding.attainableIff (fun _ => Iff.rfl)
      (SelectiveRepeatCC.returns_iff hx hret hne)

end ReliableTransfer
