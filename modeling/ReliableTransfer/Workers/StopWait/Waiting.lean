import ReliableTransfer.Workers.StopWait.Progress

/-!
# How long stop-and-wait waits

Every pass through `bad_pack` subtracts the time since the pass before. However many datagrams are
discarded, what is left of the timeout is the full timeout less the time since the transmission.
-/

namespace ReliableTransfer

namespace StopWaitServer

/-- What `update_remaining_timeout` reports when the clock reads `now` at `bad_pack`, and the
timeout it leaves for `receive_ack_packet`. -/
def pass (s : StopWaitServer) (now : Timeval) : Option (Bool × Timeval) :=
  match s.loc with
  | .wait _ tv sendTime | .rewait _ tv sendTime =>
    let (miniTimeout,tv,_) := updateRemainingTimeout tv sendTime now
    some (miniTimeout,tv)
  | _ => none

/-- The next pass is over exactly when 1000 microseconds have gone by since `sentAt`, and otherwise
waits for the rest of them. -/
structure Measures (order : ByteOrder) (sentAt : Timeval) (s : StopWaitServer) (now : Timeval)
    (miniTimeout : Bool) (tv : Timeval) : Prop where
  pass : s.pass now = some (miniTimeout,tv)
  isOver : miniTimeout = true ↔ sentAt.micros + 1000 ≤ now.micros
  left : miniTimeout = false → tv = ⟨0,1000 - (now.micros - sentAt.micros)⟩ ∧ 0 < tv.tvUsec
  /-- The pass ends the wait, or asks the socket. -/
  expires : (s.step order (.expire now)).isSome = miniTimeout
  receives : ∀ recv, (s.step order (.receive now recv)).isSome = !miniTimeout

variable {order : ByteOrder} {s s' : StopWaitServer} {packet : Packet} {sentAt oldTime : Timeval}

theorem Waits.pass {tv sendTime : Timeval} (hloc : s.Waits packet tv sendTime) (now : Timeval) :
    s.pass now = some ((updateRemainingTimeout tv sendTime now).1,
      (updateRemainingTimeout tv sendTime now).2.1) := by
  rcases hloc with hloc | hloc <;> simp [StopWaitServer.pass,hloc]

theorem Waits.expires {tv sendTime : Timeval} (hloc : s.Waits packet tv sendTime) (now : Timeval) :
    (s.step order (.expire now)).isSome = (updateRemainingTimeout tv sendTime now).1 := by
  cases hover : (updateRemainingTimeout tv sendTime now).1 <;>
    rcases hloc with hloc | hloc <;> simp [step,hloc,badPack,hover]

theorem Waits.receives {tv sendTime : Timeval} (hloc : s.Waits packet tv sendTime) (now : Timeval)
    (recv : Recv AckPacket) : (s.step order (.receive now recv)).isSome =
      !(updateRemainingTimeout tv sendTime now).1 := by
  cases hover : (updateRemainingTimeout tv sendTime now).1 with
  | true => rcases hloc with hloc | hloc <;> simp [step,hloc,badPack,hover]
  | false =>
    have hbody (again : Timeval → Timeval → StopWaitLoc) (onTimeout onError : StopWaitLoc) :
        (s.badPack tv sendTime again onTimeout onError (.receive now recv)).isSome = true := by
      simp only [badPack,hover]
      cases recv with
      | ok a => simp only [Bool.false_eq_true,if_false]; split <;> rfl
      | timeOut => rfl
      | error => rfl
    rcases hloc with hloc | hloc <;> simp only [step,hloc,Option.isSome_map,hbody,Bool.not_false]

/-- A wait of which the time since `sentAt` has been subtracted up to `oldTime`. -/
theorem Waits.measures (hloc : s.Waits packet (remaining sentAt oldTime) oldTime)
    (hsent : sentAt.micros ≤ oldTime.micros) {now : Timeval} (hold : oldTime.micros ≤ now.micros) :
    ∃ miniTimeout tv, Measures order sentAt s now miniTimeout tv := by
  refine ⟨_,_,⟨hloc.pass now,updateRemainingTimeout_over sentAt oldTime now,fun hover => ?_,
    hloc.expires now,hloc.receives now⟩⟩
  have hnow : now.micros < sentAt.micros + 1000 := by
    rw [← not_le,← updateRemainingTimeout_over sentAt oldTime now,hover]
    exact Bool.false_ne_true
  rw [updateRemainingTimeout_left hsent hold hnow]
  refine ⟨rfl,?_⟩
  change 0 < 1000 - (now.micros - sentAt.micros)
  omega

theorem Waits.discard (hloc : s.Waits packet (remaining sentAt oldTime) oldTime)
    (hsent : sentAt.micros ≤ oldTime.micros) {now : Timeval} (hold : oldTime.micros ≤ now.micros)
    (hnow : now.micros < sentAt.micros + 1000) {a : AckPacket} (ha : ¬Acks s.seqNo a) :
    ∃ s', s.step order (.receive now (.ok a)) = some (s',List.nil) ∧
      s'.Waits packet (remaining sentAt now) now ∧ s'.seqNo = s.seqNo := by
  have hover : (updateRemainingTimeout (remaining sentAt oldTime) oldTime now).1 = false := by
    rw [← Bool.not_eq_true,updateRemainingTimeout_over]
    omega
  obtain ⟨s',hstep,hloc',hseq,-⟩ := step_stale order hloc hover ha
  rw [updateRemainingTimeout_left hsent hold hnow] at hloc'
  exact ⟨s',hstep,hloc',hseq⟩

def arriving (stale : List (Timeval × AckPacket)) : List StopWaitEvent :=
  stale.map fun r => .receive r.1 (.ok r.2)

def lastReading (oldTime : Timeval) : List (Timeval × AckPacket) → Timeval
  | [] => oldTime
  | r :: stale => lastReading r.1 stale

def Forward (oldTime : Timeval) : List (Timeval × AckPacket) → Prop
  | [] => True
  | r :: stale => oldTime.micros ≤ r.1.micros ∧ Forward r.1 stale

variable {stale : List (Timeval × AckPacket)}

theorem Forward.le_last (h : Forward oldTime stale) :
    oldTime.micros ≤ (lastReading oldTime stale).micros := by
  induction stale generalizing oldTime with
  | nil => exact le_refl _
  | cons r stale ih => exact h.1.trans (ih h.2)

theorem Waits.run_stale (hloc : s.Waits packet (remaining sentAt oldTime) oldTime)
    (hsent : sentAt.micros ≤ oldTime.micros) (hstale : ∀ r ∈ stale, ¬Acks s.seqNo r.2)
    (hforward : Forward oldTime stale) (htime : ∀ r ∈ stale, r.1.micros < sentAt.micros + 1000) :
    ∃ s', s.run order (arriving stale) = some (s',List.nil) ∧
      s'.Waits packet (remaining sentAt (lastReading oldTime stale)) (lastReading oldTime stale) := by
  induction stale generalizing s oldTime with
  | nil => exact ⟨s,rfl,hloc⟩
  | cons r stale ih =>
    obtain ⟨hold,hforward⟩ := hforward
    obtain ⟨s₁,hstep,hloc₁,hseq⟩ := hloc.discard hsent hold (htime r List.mem_cons_self)
      (hstale r List.mem_cons_self)
    obtain ⟨s',hrun,hloc'⟩ := ih hloc₁ (hsent.trans hold)
      (fun r' hr => hseq ▸ hstale r' (List.mem_cons_of_mem _ hr)) hforward
      (fun r' hr => htime r' (List.mem_cons_of_mem _ hr))
    exact ⟨s',run_cons hstep hrun,hloc'⟩

theorem Waits.run_timely (hloc : s.Waits packet (remaining sentAt oldTime) oldTime)
    (hsent : sentAt.micros ≤ oldTime.micros) (hstale : ∀ r ∈ stale, ¬Acks s.seqNo r.2)
    (hforward : Forward oldTime stale) {x : StopWaitServer × List Packet}
    (hrun : s.run order (arriving stale) = some x) :
    ∀ r ∈ stale, r.1.micros < sentAt.micros + 1000 := by
  induction stale generalizing s oldTime x with
  | nil => simp
  | cons r stale ih =>
    obtain ⟨hold,hforward⟩ := hforward
    obtain ⟨⟨s₁,out⟩,hstep,hrun⟩ := Option.bind_eq_some_iff.mp hrun
    obtain ⟨y,hrun,-⟩ := Option.bind_eq_some_iff.mp hrun
    have hlt : r.1.micros < sentAt.micros + 1000 := by
      have hover : (s.step order (.receive r.1 (.ok r.2))).isSome = _ := hloc.receives r.1 _
      rw [hstep,Option.isSome_some,eq_comm,Bool.not_eq_true',← Bool.not_eq_true,
        updateRemainingTimeout_over] at hover
      exact not_le.mp hover
    obtain ⟨s₂,hstep',hloc₂,hseq⟩ := hloc.discard hsent hold hlt (hstale r List.mem_cons_self)
    obtain ⟨rfl,-⟩ := Prod.mk.inj (Option.some.inj (hstep'.symm.trans hstep))
    have hrest := ih hloc₂ (hsent.trans hold)
      (fun r' hr => hseq ▸ hstale r' (List.mem_cons_of_mem _ hr)) hforward hrun
    intro r' hr
    rcases List.mem_cons.mp hr with rfl | hr
    · exact hlt
    · exact hrest r' hr

theorem step_waits {tick : Tick} {out : List Packet}
    (hstep : s.step order (.send tick) = some (s',out)) (hloc : s'.loc ≠ .returned true) :
    ∃ packet, s'.Waits packet fullTimeout tick.sendTime := by
  unfold step at hstep
  cases hat : s.loc with
  | head =>
    simp only [hat] at hstep
    split at hstep
    · obtain ⟨rfl,-⟩ := Prod.mk.inj (Option.some.inj hstep)
      dsimp only at hloc ⊢
      split at hloc
      · next hsent => exact ⟨_,Or.inl (if_pos hsent)⟩
      · exact absurd rfl hloc
    · contradiction
  | resend packet =>
    simp only [hat] at hstep
    obtain ⟨rfl,-⟩ := Prod.mk.inj (Option.some.inj hstep)
    dsimp only at hloc ⊢
    split at hloc
    · next hsent => exact ⟨_,Or.inr (if_pos hsent)⟩
    · exact absurd rfl hloc
  | wait packet tv sendTime => simp [hat,badPack] at hstep
  | rewait packet tv sendTime => simp [hat,badPack] at hstep
  | returned failed => simp [hat] at hstep

end StopWaitServer

namespace StopWait

open StopWaitServer

/-- In both loops the wait for an acknowledgement is over at the first clock reading that is 1000
microseconds past the transmission, however many datagrams have been discarded before. -/
theorem waiting_measured (order : ByteOrder) (s s₁ : StopWaitServer) (tick : Tick)
    (out : List Packet) (hsend : s.step order (.send tick) = some (s₁,out))
    (hsent : s₁.loc ≠ .returned true) (stale : List (Timeval × AckPacket))
    (hstale : ∀ r ∈ stale, ¬Acks s₁.seqNo r.2) (hforward : Forward tick.sendTime stale) :
    ((∃ x, s₁.run order (arriving stale) = some x) ↔
      ∀ r ∈ stale, r.1.micros < tick.sendTime.micros + 1000) ∧
    ∀ s₂ more now, s₁.run order (arriving stale) = some (s₂,more) →
      (lastReading tick.sendTime stale).micros ≤ now.micros →
      ∃ miniTimeout tv, Measures order tick.sendTime s₂ now miniTimeout tv := by
  obtain ⟨packet,hloc⟩ := step_waits hsend hsent
  rw [← remaining_self tick.sendTime] at hloc
  have htimely {x : StopWaitServer × List Packet} (hrun : s₁.run order (arriving stale) = some x) :=
    hloc.run_timely (le_refl _) hstale hforward hrun
  refine ⟨⟨fun ⟨_,hrun⟩ => htimely hrun,fun htime => ?_⟩,fun s₂ more now hrun hnow => ?_⟩
  · obtain ⟨s',hrun,-⟩ := hloc.run_stale (le_refl _) hstale hforward htime
    exact ⟨_,hrun⟩
  · obtain ⟨s',hrun',hloc'⟩ := hloc.run_stale (le_refl _) hstale hforward (htimely hrun)
    obtain ⟨rfl,-⟩ := Prod.mk.inj (Option.some.inj (hrun'.symm.trans hrun))
    exact hloc'.measures hforward.le_last hnow

theorem waiting_measured_twice :
    let stale := [((⟨0,400⟩ : Timeval),createAckPacket 1),(⟨0,999⟩,createAckPacket 2)]
    ∃ s₁ out, StopWaitServer.step .little ⟨0,feederAt [7] 0,.head⟩ (.send (calmTick ⟨0,0⟩)) =
      some (s₁,out) ∧
      ((∃ x, s₁.run .little (arriving stale) = some x) ↔
        ∀ r ∈ stale, r.1.micros < (⟨0,0⟩ : Timeval).micros + 1000) ∧
      ∀ s₂ more now, s₁.run .little (arriving stale) = some (s₂,more) →
        (lastReading ⟨0,0⟩ stale).micros ≤ now.micros →
        ∃ miniTimeout tv, Measures .little ⟨0,0⟩ s₂ now miniTimeout tv := by
  have hstep : StopWaitServer.step .little ⟨0,feederAt [7] 0,.head⟩ (.send (calmTick ⟨0,0⟩)) =
      some _ := step_next (by decide) (calmTick_calm ⟨0,0⟩)
  refine ⟨_,_,hstep,waiting_measured .little _ _ _ _ hstep (by simp) _ ?_ ?_⟩
  · simp [Acks]
  · simp [Forward,Timeval.micros,calmTick]

end StopWait

end ReliableTransfer
