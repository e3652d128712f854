import ReliableTransfer.Workers.Sender

/-!
# Where a sending loop can get to without losses

From any place in `send_message` a run in which nothing is lost reaches the next call of
`receive_ack`, the next call of the timers, and the next transmission of a new segment.
-/

namespace ReliableTransfer

open Framework

variable {σ κ : Type}

/-- A pass over the timers in which none fires changes nothing. -/
def SenderOps.Quiet (ops : SenderOps σ) (I : σ → Prop) : Prop :=
  ∀ w, I w → ∃ ticks : Nat → Tick, (∀ i, (ticks i).Calm) ∧
    ops.updateTimers ticks w = some (true,w,List.nil)

namespace Sending

variable {ops : SenderOps σ} {order : ByteOrder} {file : List UInt8}
  {accept : κ → Packet → Option (κ × List AckPacket)} {I : σ → Prop}
  {s : Sending σ} {c : κ} {D : Multiset Packet} {A : Multiset AckPacket}

/-- The worker once it has sent the next packet of the file. -/
def sendNext (ops : SenderOps σ) (order : ByteOrder) (file : List UInt8) (t : Timeval) (w : σ) :
    σ :=
  ops.recordSent (filePacket order file (ops.seqNo w)) t w

/-- A state of the loop whose worker is the given one or has sent one packet more, with more
data in flight. -/
structure Reached (ops : SenderOps σ) (order : ByteOrder) (file : List UInt8)
    (accept : κ → Packet → Option (κ × List AckPacket)) (s : Sending σ) (c : κ)
    (D : Multiset Packet) (A : Multiset AckPacket) (s' : Sending σ) (D' : Multiset Packet) :
    Prop where
  run : (link ops order accept).CalmRun ⟨s,c,D,A⟩ ⟨s',c,D',A⟩
  data : D ≤ D'
  worker : s'.worker = s.worker ∨
    (ops.windowOpen s.worker = true ∧ (ops.seqNo s.worker).toNat ≤ numSegments file ∧
      ∃ t, s'.worker = sendNext ops order file t s.worker)

theorem Reached.refl : Reached ops order file accept s c D A s D := ⟨.refl,le_refl _,Or.inl rfl⟩

theorem Reached.same {s' : Sending σ} {D' : Multiset Packet}
    (h : Reached ops order file accept s c D A s' D')
    (hseq : (ops.seqNo s.worker).toNat = numSegments file + 1) : s'.worker = s.worker := by
  rcases h.worker with heq | ⟨-,hle,-⟩
  · exact heq
  · omega

theorem Reached.after {loc : Loc} {s' : Sending σ} {D' : Multiset Packet}
    (h : Reached ops order file accept { s with loc := loc } c D A s' D')
    (hrun : (link ops order accept).CalmRun ⟨s,c,D,A⟩ ⟨{ s with loc := loc },c,D,A⟩) :
    Reached ops order file accept s c D A s' D' :=
  ⟨hrun.trans h.run,h.data,h.worker⟩

theorem Good.at (hs : s.Good ops file I) (loc : Loc) (hne : s.loc ≠ .returned true)
    (hloc : loc ≠ .returned false) (hclosing : loc.Closing → s.loc.Closing) :
    Good ops file I { s with loc := loc } :=
  hs.update hs.worker rfl hne hloc hclosing

theorem run_move {s' : Sending σ} {e : SenderEvent} {out : List Packet}
    (hstep : s.step ops order e = some (s',out)) (hcalm : (link ops order accept).calm e)
    (hreads : (link ops order accept).reads e = none) :
    (link ops order accept).CalmRun ⟨s,c,D,A⟩ ⟨s',c,D + (out : Multiset Packet),A⟩ :=
  .serve hcalm hreads hstep

theorem run_silent {s' : Sending σ} {e : SenderEvent}
    (hstep : s.step ops order e = some (s',List.nil)) (hcalm : (link ops order accept).calm e)
    (hreads : (link ops order accept).reads e = none) :
    (link ops order accept).CalmRun ⟨s,c,D,A⟩ ⟨s',c,D,A⟩ := by
  have hrun := run_move (c := c) (D := D) (A := A) hstep hcalm hreads
  rwa [Multiset.coe_nil,add_zero] at hrun

variable (order) in
theorem Good.step_send (hs : s.Good ops file I) (hloc : s.loc = .head)
    (hle : (ops.seqNo s.worker).toNat ≤ numSegments file)
    (hopen : ops.windowOpen s.worker = true) (t : Timeval) :
    s.step ops order (.send (calmTick t)) =
      some (⟨sendNext ops order file t s.worker,feederAt file ((ops.seqNo s.worker).toNat + 1),
        .drain .afterSend⟩,[filePacket order file (ops.seqNo s.worker)]) := by
  have hne : s.loc ≠ .returned true := by simp [hloc]
  have hnext := (hs.hasNext hne).mpr hle
  simp only [step,hloc,hnext,hopen,Bool.and_self,if_true]
  rw [hs.feeder hne,getNextDataSegment_feederAt file hle]
  simp only [(calmTick_calm t).transmit,if_true]
  rfl

variable (ops order) in
theorem step_ack {site : Site} (hloc : s.loc = .drain site) {env : AckEnv} {noErr : Bool} {w : σ}
    (h : ops.receiveAck env s.worker = some (noErr,w)) :
    ∃ loc, s.step ops order (.ack env) = some ({ s with worker := w, loc := loc },List.nil) ∧
      (loc = .drain site ∨ loc = .timers site) ∧ (noErr = true → loc = .drain site) := by
  refine ⟨if noErr || site == .afterSend then .drain site else .timers site,
    by simp only [step,hloc,h,Option.map_some],?_,fun hn => by simp [hn]⟩
  split
  · exact Or.inl rfl
  · exact Or.inr rfl

theorem run_returned {failed : Bool} {x y : LinkState (Sending σ) κ Packet AckPacket}
    (hret : x.server.loc = .returned failed) (hrun : (link ops order accept).Run x y) :
    y.server = x.server := by
  have hstop (s : Sending σ) (heq : s = x.server) (e : SenderEvent) : s.step ops order e = none :=
    step_returned (heq ▸ hret) e
  induction hrun with
  | refl => rfl
  | tail _ hstep ih =>
    rcases hstep with hm | hf
    · cases hm with
      | serve _ _ hs => exact absurd ((hstop _ ih _).symm.trans hs) (by simp)
      | read _ _ hs => exact absurd ((hstop _ ih _).symm.trans hs) (by simp)
      | accept _ => exact ih
    · cases hf <;> exact ih

variable (order accept)

theorem run_send (hs : s.Good ops file I) (hloc : s.loc = .head)
    (hle : (ops.seqNo s.worker).toNat ≤ numSegments file)
    (hopen : ops.windowOpen s.worker = true) (t : Timeval) :
    (link ops order accept).CalmRun ⟨s,c,D,A⟩
      ⟨⟨sendNext ops order file t s.worker,feederAt file ((ops.seqNo s.worker).toNat + 1),
        .drain .afterSend⟩,c,filePacket order file (ops.seqNo s.worker) ::ₘ D,A⟩ := by
  have hrun : (link ops order accept).CalmRun ⟨s,c,D,A⟩ _ :=
    run_move (hs.step_send order hloc hle hopen t) (calmTick_calm t) rfl
  rwa [Multiset.coe_singleton,add_comm D,Multiset.singleton_add] at hrun

theorem drain_of_head (hs : s.Good ops file I) (hloc : s.loc = .head)
    (hpend : (ops.seqNo s.worker).toNat = numSegments file + 1 → ops.pending s.worker = true) :
    ∃ site s' D', s'.loc = .drain site ∧ Reached ops order file accept s c D A s' D' := by
  have hne : s.loc ≠ .returned true := by simp [hloc]
  have hle := hs.seqNo_le
  cases hnext : s.feeder.hasNext
  · have hgt : ¬(ops.seqNo s.worker).toNat ≤ numSegments file := by
      rw [← hs.hasNext hne,hnext]
      simp
    have htail : s.step ops order .loop = some ({ s with loc := .tail },List.nil) := by
      simp [step,hloc,hnext]
    have hclose : Sending.step ops order { s with loc := .tail } .loop =
        some ({ s with loc := .drain .closing },List.nil) := by
      simp [step,hpend (by omega)]
    exact ⟨.closing,{ s with loc := .drain .closing },D,rfl,Reached.refl.after
      ((run_silent htail trivial rfl).trans (run_silent hclose trivial rfl))⟩
  · have hle' := (hs.hasNext hne).mp hnext
    cases hopen : ops.windowOpen s.worker
    · have hfull : s.step ops order .loop = some ({ s with loc := .drain .windowFull },List.nil) := by
        simp [step,hloc,hnext,hopen]
      exact ⟨.windowFull,{ s with loc := .drain .windowFull },D,rfl,
        Reached.refl.after (run_silent hfull trivial rfl)⟩
    · exact ⟨.afterSend,_,_,rfl,run_send order accept hs hloc hle' hopen ⟨0,0⟩,
        Multiset.le_cons_self _ _,Or.inr ⟨hopen,hle',⟨0,0⟩,rfl⟩⟩

variable (ops file) in
theorem drain_of_tail (hloc : s.loc = .tail)
    (hpend : ops.pending s.worker = true) :
    ∃ site s' D', s'.loc = .drain site ∧ Reached ops order file accept s c D A s' D' := by
  have hclose : s.step ops order .loop = some ({ s with loc := .drain .closing },List.nil) := by
    simp [step,hloc,hpend]
  exact ⟨.closing,{ s with loc := .drain .closing },D,rfl,
    Reached.refl.after (run_silent hclose trivial rfl)⟩

theorem run_quiet (hquiet : ops.Quiet I) (hs : s.Good ops file I) {site : Site}
    (hloc : s.loc = .timers site) :
    (link ops order accept).CalmRun ⟨s,c,D,A⟩ ⟨{ s with loc := site.next },c,D,A⟩ := by
  obtain ⟨ticks,hcalm,hpass⟩ := hquiet s.worker hs.worker
  have hstep : s.step ops order (.timers ticks) =
      some ({ s with loc := site.next },List.nil) := by
    simp [step,hloc,hpass]
  exact run_silent hstep hcalm rfl

theorem run_idle {site : Site} (hloc : s.loc = .drain site) :
    (link ops order accept).CalmRun ⟨s,c,D,A⟩ ⟨{ s with loc := .timers site },c,D,A⟩ := by
  have hstep : s.step ops order .idle = some ({ s with loc := .timers site },List.nil) := by
    simp [step,hloc]
  exact run_silent hstep trivial rfl

theorem run_pass (hquiet : ops.Quiet I) (hs : s.Good ops file I) (hne : s.loc ≠ .returned true)
    {site : Site} (hloc : s.loc = .drain site ∨ s.loc = .timers site) :
    (link ops order accept).CalmRun ⟨s,c,D,A⟩ ⟨{ s with loc := site.next },c,D,A⟩ := by
  rcases hloc with hloc | hloc
  · have hclosing : (Loc.timers site).Closing → s.loc.Closing := by
      rw [hloc]
      cases site <;> exact id
    exact (run_idle order accept hloc).trans
      (run_quiet order accept hquiet (hs.at (.timers site) hne (by simp) hclosing) rfl)
  · exact run_quiet order accept hquiet hs hloc

theorem run_head (hquiet : ops.Quiet I) (hs : s.Good ops file I)
    (hloc : ∀ failed, s.loc ≠ .returned failed) (hnot : ¬s.loc.Closing) :
    (link ops order accept).CalmRun ⟨s,c,D,A⟩ ⟨{ s with loc := .head },c,D,A⟩ := by
  have hpass {site : Site} (h : s.loc = .drain site ∨ s.loc = .timers site) :
      (link ops order accept).CalmRun ⟨s,c,D,A⟩ ⟨{ s with loc := .head },c,D,A⟩ := by
    have hrun := run_pass order accept (c := c) (D := D) (A := A) hquiet hs (hloc true) h
    cases site with
    | closing => exact absurd (by rcases h with h | h <;> rw [h] <;> trivial) hnot
    | afterSend => exact hrun
    | windowFull => exact hrun
  cases h : s.loc with
  | head =>
    rw [← h]
    exact .refl
  | drain site => exact hpass (Or.inl h)
  | timers site => exact hpass (Or.inr h)
  | tail => exact absurd (by rw [h]; trivial) hnot
  | returned failed => exact absurd h (hloc failed)

theorem reach_drain (hquiet : ops.Quiet I) (hs : s.Good ops file I)
    (hloc : ∀ failed, s.loc ≠ .returned failed)
    (hpend : (ops.seqNo s.worker).toNat = numSegments file + 1 → ops.pending s.worker = true) :
    ∃ site s' D', s'.loc = .drain site ∧ Reached ops order file accept s c D A s' D' := by
  have hhead (hrun : (link ops order accept).CalmRun ⟨s,c,D,A⟩ ⟨{ s with loc := .head },c,D,A⟩) :
      ∃ site s' D', s'.loc = .drain site ∧ Reached ops order file accept s c D A s' D' := by
    obtain ⟨site,s',D',hs',hreach⟩ := drain_of_head order accept (c := c) (D := D) (A := A)
      (hs.at .head (hloc true) (by simp) False.elim) rfl hpend
    exact ⟨site,s',D',hs',hreach.after hrun⟩
  cases h : s.loc with
  | head => exact drain_of_head order accept hs h hpend
  | drain site => exact ⟨site,s,D,h,.refl⟩
  | timers site =>
    cases site with
    | closing =>
      have hclosing : s.loc.Closing := by rw [h]; trivial
      obtain ⟨site,s',D',hs',hreach⟩ := drain_of_tail ops order file accept (c := c) (D := D)
        (A := A) (s := { s with loc := .tail }) rfl (hpend (hs.closing hclosing))
      exact ⟨site,s',D',hs',hreach.after (run_quiet order accept hquiet hs h)⟩
    | afterSend => exact hhead (run_quiet order accept hquiet hs h)
    | windowFull => exact hhead (run_quiet order accept hquiet hs h)
  | tail => exact drain_of_tail ops order file accept h (hpend (hs.closing (by rw [h]; trivial)))
  | returned failed => exact absurd h (hloc failed)

theorem reach_timers (hquiet : ops.Quiet I) (hs : s.Good ops file I)
    (hloc : ∀ failed, s.loc ≠ .returned failed)
    (hpend : (ops.seqNo s.worker).toNat = numSegments file + 1 → ops.pending s.worker = true) :
    ∃ site s' D', s'.loc = .timers site ∧ Reached ops order file accept s c D A s' D' := by
  obtain ⟨site,s',D',hs',hreach⟩ := reach_drain order accept (c := c) (D := D) (A := A) hquiet hs
    hloc hpend
  exact ⟨site,{ s' with loc := .timers site },D',rfl,hreach.run.trans (run_idle order accept hs'),
    hreach.data,hreach.worker⟩

theorem reach_send (hquiet : ops.Quiet I) (hs : s.Good ops file I)
    (hloc : ∀ failed, s.loc ≠ .returned failed)
    (hle : (ops.seqNo s.worker).toNat ≤ numSegments file)
    (hopen : ops.windowOpen s.worker = true) (t : Timeval) :
    (link ops order accept).CalmRun ⟨s,c,D,A⟩
      ⟨⟨sendNext ops order file t s.worker,feederAt file ((ops.seqNo s.worker).toNat + 1),
        .drain .afterSend⟩,c,filePacket order file (ops.seqNo s.worker) ::ₘ D,A⟩ := by
  have hnot : ¬s.loc.Closing := fun hc => by
    have := hs.closing hc
    omega
  exact (run_head order accept hquiet hs hloc hnot).trans (run_send order accept
    (hs.at .head (hloc true) (by simp) False.elim) rfl hle hopen t)

theorem run_close (hquiet : ops.Quiet I) (hs : s.Good ops file I) (hloc : s.loc ≠ .returned true)
    (hseq : (ops.seqNo s.worker).toNat = numSegments file + 1)
    (hpend : ops.pending s.worker = false) :
    (link ops order accept).CalmRun ⟨s,c,D,A⟩ ⟨{ s with loc := .returned false },c,D,A⟩ := by
  have htail : (link ops order accept).CalmRun ⟨{ s with loc := .tail },c,D,A⟩
      ⟨{ s with loc := .returned false },c,D,A⟩ := by
    have hstep : Sending.step ops order { s with loc := .tail } .loop =
        some ({ s with loc := .returned false },List.nil) := by
      simp [step,hpend]
    exact run_silent hstep trivial rfl
  have hhead : (link ops order accept).CalmRun ⟨{ s with loc := .head },c,D,A⟩
      ⟨{ s with loc := .tail },c,D,A⟩ := by
    have hnext : s.feeder.hasNext = false := by
      rw [← Bool.not_eq_true,hs.hasNext hloc,hseq]
      omega
    have hstep : Sending.step ops order { s with loc := .head } .loop =
        some ({ s with loc := .tail },List.nil) := by
      simp [step,hnext]
    exact run_silent hstep trivial rfl
  have hnext (site : Site) : (link ops order accept).CalmRun ⟨{ s with loc := site.next },c,D,A⟩
      ⟨{ s with loc := .returned false },c,D,A⟩ := by
    cases site with
    | closing => exact htail
    | afterSend => exact hhead.trans htail
    | windowFull => exact hhead.trans htail
  cases h : s.loc with
  | head =>
    have hrun := hhead.trans htail
    rwa [← h] at hrun
  | drain site => exact (run_pass order accept hquiet hs hloc (Or.inl h)).trans (hnext site)
  | timers site => exact (run_pass order accept hquiet hs hloc (Or.inr h)).trans (hnext site)
  | tail =>
    have hrun := htail
    rwa [← h] at hrun
  | returned failed =>
    cases failed
    · rw [← h]
      exact .refl
    · exact absurd h hloc

variable (ops)

theorem run_timers {site : Site} (hloc : s.loc = .timers site) {ticks : Nat → Tick}
    (hcalm : ∀ i, (ticks i).Calm) {noErr : Bool} {w : σ} {out : List Packet}
    (h : ops.updateTimers ticks s.worker = some (noErr,w,out)) :
    ∃ loc, (link ops order accept).CalmRun ⟨s,c,D,A⟩
      ⟨{ s with worker := w, loc := loc },c,D + (out : Multiset Packet),A⟩ ∧
      (noErr = true → loc = site.next) := by
  have hstep : s.step ops order (.timers ticks) =
      some ({ s with
        worker := w
        loc := if noErr || (site == .afterSend && !ops.heedsTimers) then site.next
          else .returned true },out) := by
    simp only [step,hloc,h,Option.map_some]
  refine ⟨_,run_move hstep hcalm rfl,fun hn => ?_⟩
  simp [hn]

theorem run_ack {site : Site} (hloc : s.loc = .drain site) {a : AckPacket} (ha : a ∈ A)
    {t : Timeval} {noErr : Bool} {w : σ}
    (h : ops.receiveAck (arrival t a) s.worker = some (noErr,w)) :
    ∃ loc, (link ops order accept).CalmRun ⟨s,c,D,A⟩
      ⟨{ s with worker := w, loc := loc },c,D,A.erase a⟩ ∧
      (loc = .drain site ∨ loc = .timers site) ∧ (noErr = true → loc = .drain site) := by
  obtain ⟨loc,hstep,hloc'⟩ := step_ack ops order hloc h
  have hrun := Link.Move.read (L := link ops order accept) (P := fun _ e => (link ops order
    accept).calm e) (k := c) (D := D) (A := A.erase a) (e := .ack (arrival t a)) (a := a)
    ⟨rfl,a,rfl⟩ rfl hstep
  rw [Multiset.cons_erase ha,Multiset.coe_nil,add_zero] at hrun
  exact ⟨loc,.single hrun,hloc'⟩

end Sending

end ReliableTransfer
