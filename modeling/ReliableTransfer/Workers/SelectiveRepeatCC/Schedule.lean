import ReliableTransfer.Workers.SelectiveRepeatCC.Congestion

/-!
# The schedule of triple acknowledgements

`control.cc` lists how many packets are acknowledged before each simulated triple acknowledgement.
`receive_ack` counts the acknowledgements since the last one and compares the count with the next
entry after it has counted, and once. An entry of zero is never met.
-/

namespace ReliableTransfer

namespace RepeatServer

variable {γ : Type}

/-- Whether `receive_ack` takes a number off the containers. -/
def takes (h : RepeatHooks γ) (env : AckEnv) (s : RepeatServer γ) : Bool :=
  match env.answer (s.seqnumsSent.getD (s.front env.stray) ⟨0,0⟩) with
  | .ok a => decide (verifyChecksumAck a = true ∧ s.Acceptable h a ∧
      a.ackno ∈ (s.touch env.stray).seqnumsSent)
  | _ => false

theorem takes_iff {h : RepeatHooks γ} {env : AckEnv} {s : RepeatServer γ} :
    s.takes h env = true ↔ ∃ a, s.Takes h env a := by
  unfold takes Takes
  cases env.answer (s.seqnumsSent.getD (s.front env.stray) ⟨0,0⟩) <;> simp

end RepeatServer

/-- What a run has counted: packets newly acknowledged, and triple acknowledgements simulated. -/
structure Tally where
  acked : Nat
  triples : Nat

namespace Tally

def counted (t : Tally) (c : Congestion) : Tally where
  acked := t.acked + 1
  triples := if c.grow.dupAcks[c.grow.dupAckIndex]? = some c.grow.successAcks then t.triples + 1
    else t.triples

/-- A triple acknowledgement is counted where `receive_ack` calls `window_decrease` without a
timeout, and nowhere else. -/
theorem counted_cases (t : Tally) (c : Congestion) :
    (c.grow.dupAcks[c.grow.dupAckIndex]? = some c.grow.successAcks ∧
      c.grow.tripleAck = Congestion.windowDecrease false
        { c.grow with successAcks := 0, dupAckIndex := c.grow.dupAckIndex + 1 } ∧
      t.counted c = ⟨t.acked + 1,t.triples + 1⟩) ∨
    (c.grow.dupAcks[c.grow.dupAckIndex]? ≠ some c.grow.successAcks ∧
      c.grow.tripleAck = c.grow ∧ t.counted c = ⟨t.acked + 1,t.triples⟩) := by
  by_cases hmeets : c.grow.dupAcks[c.grow.dupAckIndex]? = some c.grow.successAcks
  · exact Or.inl ⟨hmeets,if_pos hmeets,by rw [counted,if_pos hmeets]⟩
  · exact Or.inr ⟨hmeets,if_neg hmeets,by rw [counted,if_neg hmeets]⟩

def after (t : Tally) (s : SelectiveRepeatCCServer) : SenderEvent → Tally
  | .ack env => if s.takes SelectiveRepeatCC.hooks env then t.counted s.ctl else t
  | _ => t

end Tally

namespace SelectiveRepeatCC

/-- A run on a sequence of events, with its count. -/
def tally (order : ByteOrder) (s : Sending SelectiveRepeatCCServer) (t : Tally) :
    List SenderEvent → Option (Sending SelectiveRepeatCCServer × Tally)
  | [] => some (s,t)
  | e :: es => (s.step (RepeatServer.ops hooks) order e).bind fun (s',_) =>
    tally order s' (t.after s.worker e) es

/-- How many acknowledgements the first `k` entries schedule. -/
def due (dupAcks : List UInt32) (k : Nat) : Nat := ((dupAcks.take k).map UInt32.toNat).sum

variable {dupAcks : List UInt32} {k : Nat}

theorem due_succ {n : UInt32} (hn : dupAcks[k]? = some n) :
    due dupAcks (k + 1) = due dupAcks k + n.toNat := by
  rw [due,List.take_add_one,hn,List.map_append,List.sum_append,due]
  simp

theorem due_mono : Monotone (due dupAcks) := by
  apply monotone_nat_of_le_succ
  intro k
  rw [due,due,List.take_add_one,List.map_append,List.sum_append]
  exact Nat.le_add_right _ _

theorem due_isGreatest {acked : Nat} (hk : k ≤ dupAcks.length) (hle : due dupAcks k ≤ acked)
    (hahead : ∀ n, dupAcks[k]? = some n → acked < due dupAcks k + n.toNat) :
    IsGreatest {j | j ≤ dupAcks.length ∧ due dupAcks j ≤ acked} k := by
  refine ⟨⟨hk,hle⟩,?_⟩
  rintro j ⟨hj,hjle⟩
  by_contra hlt
  have hkj : k < dupAcks.length := (not_le.mp hlt).trans_le hj
  have hnext := hahead _ (List.getElem?_eq_getElem hkj)
  rw [← due_succ (List.getElem?_eq_getElem hkj)] at hnext
  have hmono : due dupAcks (k + 1) ≤ due dupAcks j := due_mono (not_le.mp hlt)
  exact absurd hjle (not_le.mpr (hnext.trans_le hmono))

/-- The counter holds the acknowledgements since the last triple one, and is below an entry it
waits for. -/
structure Counting (dupAcks : List UInt32) (t : Tally) (s : SelectiveRepeatCCServer) : Prop where
  schedule : s.ctl.dupAcks = dupAcks
  index : s.ctl.dupAckIndex = t.triples
  index_le : t.triples ≤ dupAcks.length
  successAcks : due dupAcks t.triples + s.ctl.successAcks.toNat = t.acked
  passed : ∀ i < t.triples, dupAcks[i]? ≠ some 0
  ahead : ∀ n, dupAcks[t.triples]? = some n → n ≠ 0 → s.ctl.successAcks.toNat < n.toNat
  /-- Only packets that were numbered are acknowledged. -/
  numbered : t.acked + s.dataSent.size ≤ s.seqNo.toNat

variable {t : Tally} {s s' : SelectiveRepeatCCServer}

theorem start_counting (dupAcks : List UInt32) (orgWindow : UInt32) :
    Counting dupAcks ⟨0,0⟩ (.fresh (.start dupAcks orgWindow)) where
  schedule := rfl
  index := rfl
  index_le := Nat.zero_le _
  successAcks := rfl
  passed := fun i hi => absurd hi (Nat.not_lt_zero i)
  ahead := fun _ _ hn => Nat.pos_of_ne_zero fun h => hn (UInt32.toNat_inj.mp h)
  numbered := le_refl _

theorem Counting.carry (hs : Counting dupAcks t s) (hdup : s'.ctl.dupAcks = s.ctl.dupAcks)
    (hindex : s'.ctl.dupAckIndex = s.ctl.dupAckIndex)
    (hcount : s'.ctl.successAcks = s.ctl.successAcks) (hdata : s'.dataSent = s.dataSent)
    (hseq : s'.seqNo = s.seqNo) : Counting dupAcks t s' where
  schedule := hdup.trans hs.schedule
  index := hindex.trans hs.index
  index_le := hs.index_le
  successAcks := by rw [hcount,hs.successAcks]
  passed := hs.passed
  ahead := by
    rw [hcount]
    exact hs.ahead
  numbered := by
    rw [hdata,hseq]
    exact hs.numbered

theorem Counting.recordSent (hs : Counting dupAcks t s) (hopen : s.windowOpen hooks = true)
    (packet : Packet) (sendTime : Timeval) : Counting dupAcks t (s.recordSent packet sendTime) := by
  have hsucc : (s.recordSent packet sendTime).seqNo.toNat = s.seqNo.toNat + 1 :=
    RepeatServer.windowOpen_succ hopen
  have hsize : (s.dataSent.insertIfNew s.seqNo packet).size ≤ s.dataSent.size + 1 :=
    Std.ExtTreeMap.size_insertIfNew_le
  have hnumbered := hs.numbered
  refine ⟨hs.schedule,hs.index,hs.index_le,hs.successAcks,hs.passed,hs.ahead,?_⟩
  change t.acked + (s.dataSent.insertIfNew s.seqNo packet).size ≤
    (s.recordSent packet sendTime).seqNo.toNat
  omega

theorem Counting.retimed (hs : Counting dupAcks t s) (hr : RepeatServer.Retimed hooks s s') :
    Counting dupAcks t s' := by
  obtain ⟨hdup,hindex,hcount⟩ : s'.ctl.dupAcks = s.ctl.dupAcks ∧
      s'.ctl.dupAckIndex = s.ctl.dupAckIndex ∧ s'.ctl.successAcks = s.ctl.successAcks :=
    hr.ctl_preserves (I := fun c => c.dupAcks = s.ctl.dupAcks ∧
      c.dupAckIndex = s.ctl.dupAckIndex ∧ c.successAcks = s.ctl.successAcks) ⟨rfl,rfl,rfl⟩
      fun c hc => hc
  exact hs.carry hdup hindex hcount hr.dataSent hr.seqNo

theorem Counting.erased (hs : Counting dupAcks t s) {i : UInt32}
    (hr : RepeatServer.Erased hooks i s s') : Counting dupAcks (t.counted s.ctl) s' := by
  have hsize := hr.size
  have hnumbered := hs.numbered
  have hseq := s.seqNo.toNat_lt
  have hcount := hs.successAcks
  obtain ⟨-,hdup,hindex,hsucc⟩ := s.ctl.grow_frame
  have hcount' : s.ctl.grow.successAcks.toNat = s.ctl.successAcks.toNat + 1 := by
    rw [hsucc]
    exact toNat_add_one (by omega)
  have hctl : s'.ctl = s.ctl.grow.tripleAck := hr.ctl
  rcases t.counted_cases s.ctl with ⟨hmeets,hdecrease,hcounted⟩ | ⟨hmisses,hsame,hcounted⟩
  · rw [hcounted]
    rw [hdecrease] at hctl
    rw [hdup,hindex,hs.schedule,hs.index] at hmeets
    have hlt := (List.getElem?_eq_some_iff.mp hmeets).1
    have hdue := due_succ hmeets
    refine ⟨?_,?_,hlt,?_,fun j hj => ?_,fun n _ hn => ?_,?_⟩
    · rw [hctl]
      exact hdup.trans hs.schedule
    · rw [hctl]
      exact congrArg (· + 1) (hindex.trans hs.index)
    · rw [hctl]
      change due dupAcks (t.triples + 1) + 0 = t.acked + 1
      omega
    · rcases Nat.lt_succ_iff_lt_or_eq.mp hj with hj | rfl
      · exact hs.passed j hj
      · intro hzero
        have heq := congrArg UInt32.toNat (Option.some.inj (hmeets.symm.trans hzero))
        rw [hcount'] at heq
        exact Nat.succ_ne_zero _ heq
    · rw [hctl]
      exact Nat.pos_of_ne_zero fun h => hn (UInt32.toNat_inj.mp h)
    · rw [hr.seqNo]
      change t.acked + 1 + s'.dataSent.size ≤ s.seqNo.toNat
      omega
  · rw [hcounted]
    rw [hsame] at hctl
    rw [hdup,hindex,hs.schedule,hs.index] at hmisses
    refine ⟨?_,?_,hs.index_le,?_,hs.passed,fun n hn hne => ?_,?_⟩
    · rw [hctl]
      exact hdup.trans hs.schedule
    · rw [hctl]
      exact hindex.trans hs.index
    · rw [hctl]
      change due dupAcks t.triples + s.ctl.grow.successAcks.toNat = t.acked + 1
      omega
    · have hlt := hs.ahead n hn hne
      have hne' : s.ctl.grow.successAcks.toNat ≠ n.toNat := by
        intro heq
        exact hmisses (hn.trans (congrArg some (UInt32.toNat_inj.mp heq).symm))
      rw [hctl]
      omega
    · rw [hr.seqNo]
      change t.acked + 1 + s'.dataSent.size ≤ s.seqNo.toNat
      omega

theorem Counting.received (hs : Counting dupAcks t s) {env : AckEnv} {noErr : Bool}
    (hrecv : s.receiveAck hooks env = some (noErr,s')) :
    Counting dupAcks (t.after s (.ack env)) s' := by
  have htouch : Counting dupAcks t (s.touch env.stray) := hs.carry rfl rfl rfl rfl rfl
  by_cases htakes : s.takes hooks env = true
  · obtain ⟨a,ha⟩ := RepeatServer.takes_iff.mp htakes
    obtain ⟨w,hack,heq⟩ := Option.map_eq_some_iff.mp (ha.receiveAck.symm.trans hrecv)
    obtain ⟨-,rfl⟩ := Prod.mk.inj heq
    rw [Tally.after,if_pos htakes]
    exact htouch.erased (RepeatServer.acknowledge_erased hack)
  · rw [Tally.after,if_neg htakes]
    cases RepeatServer.receiveAck_answered hrecv with
    | timedOut => exact hs.carry rfl rfl rfl rfl rfl
    | ignored => exact htouch
    | taken ha => exact absurd (RepeatServer.takes_iff.mpr ⟨_,ha⟩) htakes

theorem Counting.step {order : ByteOrder} {s s' : Sending SelectiveRepeatCCServer}
    (hs : Counting dupAcks t s.worker) {e : SenderEvent} {out : List Packet}
    (hstep : s.step (RepeatServer.ops hooks) order e = some (s',out)) :
    Counting dupAcks (t.after s.worker e) s'.worker := by
  cases e with
  | ack env =>
    obtain ⟨noErr,hrecv⟩ := Sending.step_receiveAck hstep
    exact hs.received hrecv
  | loop =>
    cases Sending.step_stepped hstep
    exact hs
  | idle =>
    cases Sending.step_stepped hstep
    exact hs
  | send tick =>
    cases Sending.step_stepped hstep with
    | moved => exact hs
    | sent hloc hnext hopen => exact hs.recordSent hopen _ _
    | unsent => exact hs
  | timers ticks =>
    cases Sending.step_stepped hstep with
    | moved => exact hs
    | timed hloc htimers => exact hs.retimed (RepeatServer.updateTimers_retimed htimers)

theorem Counting.tally {order : ByteOrder} {es : List SenderEvent} {t t' : Tally}
    {s s' : Sending SelectiveRepeatCCServer} (hs : Counting dupAcks t s.worker)
    (hrun : tally order s t es = some (s',t')) : Counting dupAcks t' s'.worker := by
  induction es generalizing s t with
  | nil =>
    obtain ⟨rfl,rfl⟩ := Prod.mk.inj (Option.some.inj hrun)
    exact hs
  | cons e es ih =>
    obtain ⟨⟨s₁,out⟩,hstep,hrun⟩ := Option.bind_eq_some_iff.mp hrun
    exact ih (hs.step hstep) hrun

/-- The schedule is followed as long as the counter does not stand in front of a zero. -/
theorem Counting.followed_iff (hs : Counting dupAcks t s) :
    IsGreatest {k | k ≤ dupAcks.length ∧ due dupAcks k ≤ t.acked} t.triples ↔
      ∀ i, dupAcks[i]? = some 0 → t.acked < due dupAcks i := by
  have hcount := hs.successAcks
  constructor
  · intro hgreatest i hzero
    by_contra hpast
    have hi : i < dupAcks.length := (List.getElem?_eq_some_iff.mp hzero).1
    have hdue : due dupAcks (i + 1) ≤ t.acked := by
      rw [due_succ hzero]
      exact not_lt.mp hpast
    -- One more triple acknowledgement is due with the zero, and none before it was left out.
    exact hs.passed i (Nat.lt_of_succ_le (hgreatest.2 ⟨hi,hdue⟩)) hzero
  · intro hzeros
    refine due_isGreatest hs.index_le (by omega) fun n hn => ?_
    have hne : n ≠ 0 := by
      rintro rfl
      have hlt := hzeros _ hn
      omega
    have hlt := hs.ahead n hn hne
    omega

/-- In every run the number of triple acknowledgements is the one the schedule asks for exactly
when no entry of zero has come up. -/
theorem triple_acks_iff (order : ByteOrder) (dupAcks : List UInt32) (orgWindow : UInt32)
    (feeder : DataFeeder) (es : List SenderEvent) (s : Sending SelectiveRepeatCCServer) (t : Tally)
    (hrun : tally order ⟨.fresh (.start dupAcks orgWindow),feeder,.head⟩ ⟨0,0⟩ es = some (s,t)) :
    IsGreatest {k | k ≤ dupAcks.length ∧ due dupAcks k ≤ t.acked} t.triples ↔
      ∀ i, dupAcks[i]? = some 0 → t.acked < due dupAcks i :=
  ((start_counting dupAcks orgWindow).tally hrun).followed_iff

/-- Packets 0 and 1 are sent and acknowledged one after the other. -/
def twoAcked : List SenderEvent :=
  [.send (calmTick ⟨0,0⟩),.ack (arrival ⟨0,0⟩ (createAckPacket 0)),.idle,
    .timers fun _ => calmTick ⟨0,0⟩,.send (calmTick ⟨0,0⟩),
    .ack (arrival ⟨0,0⟩ (createAckPacket 1))]

theorem triple_acks_two : ∃ t : Tally, t.acked = 2 ∧ t.triples = 1 ∧
    (IsGreatest {k | k ≤ [(2 : UInt32),3].length ∧ due [2,3] k ≤ t.acked} t.triples ↔
      ∀ i, [(2 : UInt32),3][i]? = some 0 → t.acked < due [2,3] i) := by
  have hrun : (tally .little ⟨.fresh (.start [2,3] 4),feederAt [7] 0,.head⟩ ⟨0,0⟩ twoAcked).any
      fun r => decide (r.2.acked = 2 ∧ r.2.triples = 1) := by decide +kernel
  obtain ⟨⟨s,t⟩,hs,hstate⟩ := (Option.any_eq_true _ _).mp hrun
  obtain ⟨hacked,htriples⟩ := of_decide_eq_true hstate
  exact ⟨t,hacked,htriples,triple_acks_iff .little [2,3] 4 (feederAt [7] 0) twoAcked s t hs⟩

/-- After two acknowledgements the schedule 1, 0, 1 asks for three triple acknowledgements. The
code has simulated the first and waits for the zero. -/
theorem triple_acks_stuck : ∃ (s : Sending SelectiveRepeatCCServer) (t : Tally),
    tally .little ⟨.fresh (.start [1,0,1] 4),feederAt [7] 0,.head⟩ ⟨0,0⟩ twoAcked = some (s,t) ∧
    t.acked = 2 ∧ t.triples = 1 ∧
    ¬IsGreatest {k | k ≤ [(1 : UInt32),0,1].length ∧ due [1,0,1] k ≤ t.acked} t.triples := by
  have hrun : (tally .little ⟨.fresh (.start [1,0,1] 4),feederAt [7] 0,.head⟩ ⟨0,0⟩ twoAcked).any
      fun r => decide (r.2.acked = 2 ∧ r.2.triples = 1) := by decide +kernel
  obtain ⟨⟨s,t⟩,hs,hstate⟩ := (Option.any_eq_true _ _).mp hrun
  obtain ⟨hacked,htriples⟩ := of_decide_eq_true hstate
  refine ⟨s,t,hs,hacked,htriples,fun hgreatest => ?_⟩
  have hle : 3 ≤ t.triples := hgreatest.2 ⟨by decide,hacked ▸ by decide⟩
  dsimp only at htriples
  omega

end SelectiveRepeatCC

end ReliableTransfer
