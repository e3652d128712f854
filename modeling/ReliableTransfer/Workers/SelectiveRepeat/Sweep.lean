import ReliableTransfer.Framework.TimerQueue
import ReliableTransfer.Workers.SelectiveRepeat.Runs

/-!
# Which packets a pass over the timers resends

`updateTimers` resends a front part of the order, packet by packet, each when the clock says that
its time is over, and moves that part to the end.
-/

namespace ReliableTransfer

open Framework

/-- The transmission goes well, on the wire or as a simulated loss. -/
def Tick.Succeeds (t : Tick) : Prop := t.dropped = true ∨ t.sent = true

theorem Tick.transmit_iff (t : Tick) (packet : Packet) :
    (t.transmit packet).1 = true ↔ t.Succeeds := by
  unfold transmit Succeeds
  split
  · next hd => simp [hd]
  · split
    · next hs => simp [hs]
    · next hd hs => simp [hd,hs]

namespace RepeatServer

variable {γ : Type} {order : ByteOrder} {file : List UInt8}

/-- When `updateTimers` takes a packet to have been sent last, in microseconds. -/
def lastSent (s : RepeatServer γ) (v : UInt32) : Int := (s.seqnumsSent[v]?.map Timeval.micros).getD 0

theorem lastSent_eq {s : RepeatServer γ} {v : UInt32} {t : Timeval}
    (h : s.seqnumsSent[v]? = some t) : s.lastSent v = t.micros := by
  rw [lastSent,h]
  rfl

theorem lastSent_congr {s s' : RepeatServer γ} {v : UInt32}
    (h : s'.seqnumsSent[v]? = s.seqnumsSent[v]?) : s'.lastSent v = s.lastSent v := by
  rw [lastSent,lastSent,h]

theorem lastSent_requeue (v : UInt32) (packet : Packet) (t : Timeval) (l : NodeList UInt32)
    (s : RepeatServer γ) :
    (s.requeue v packet t l).lastSent = Function.update s.lastSent v t.micros := by
  funext w
  by_cases heq : w = v
  · subst heq
    rw [Function.update_self]
    exact lastSent_eq Std.ExtTreeMap.getElem?_insert_self
  · rw [Function.update_of_ne heq]
    apply lastSent_congr
    change (s.seqnumsSent.insert v t)[w]? = _
    rw [Std.ExtTreeMap.getElem?_insert,if_neg]
    rw [Std.compare_eq_iff_eq]
    exact Ne.symm heq

/-- What reaches the wire when packets are sent in turn, the first with tick `i`. -/
def transmitted (order : ByteOrder) (file : List UInt8) (ticks : Nat → Tick) :
    Nat → List UInt32 → List Packet
  | _,[] => List.nil
  | i,v :: vs =>
    ((ticks i).transmit (filePacket order file v)).2 ++ transmitted order file ticks (i + 1) vs

/-- A pass that starts with tick `i` has resent `fired` and has left `rest` alone, which stood in
front of `done`. -/
structure Swept (h : RepeatHooks γ) (ticks : Nat → Tick) (i : Nat) (fired rest done : List UInt32)
    (noErr : Bool) (s s' : RepeatServer γ) : Prop where
  sendOrder : s'.sendOrder.values = rest ++ done ++ fired
  lastSent : s'.lastSent =
    TimerQueue.renew (fun k => (ticks k).sendTime.micros) i fired s.lastSent
  due : ∀ k v, fired[k]? = some v → s.lastSent v + 1000 ≤ (ticks (i + k)).now.micros
  ctl : noErr = true → s'.ctl = h.onTimeout^[fired.length] s.ctl
  stops : noErr = true → ∀ v, rest.head? = some v →
    (ticks (i + fired.length)).now.micros < s.lastSent v + 1000
  fails : noErr = false → ¬(ticks (i + fired.length)).Succeeds

theorem Swept.cons {h : RepeatHooks γ} {ticks : Nat → Tick} {i : Nat} {v : UInt32}
    {fired rest done : List UInt32} {noErr : Bool} {s s₁ s' : RepeatServer γ}
    (hs : Swept h ticks (i + 1) fired rest (done ++ [v]) noErr s₁ s')
    (hnot : ∀ w ∈ fired ++ rest, w ≠ v)
    (hlast : s₁.lastSent = Function.update s.lastSent v (ticks i).sendTime.micros)
    (hctl : s₁.ctl = h.onTimeout s.ctl) (hdue : s.lastSent v + 1000 ≤ (ticks i).now.micros) :
    Swept h ticks i (v :: fired) rest done noErr s s' := by
  have hother : ∀ w ∈ fired ++ rest, s₁.lastSent w = s.lastSent w := by
    intro w hw
    rw [hlast,Function.update_of_ne (hnot w hw)]
  have hshift (k : Nat) : i + 1 + k = i + (k + 1) := by omega
  refine ⟨?_,?_,?_,?_,?_,?_⟩
  · rw [hs.sendOrder]
    simp
  · rw [hs.lastSent,hlast]
    rfl
  · intro k w hk
    cases k with
    | zero =>
      obtain rfl : v = w := by simpa using hk
      exact hdue
    | succ k =>
      rw [List.getElem?_cons_succ] at hk
      have hw := hs.due k w hk
      rwa [hother w (List.mem_append_left _ (List.mem_of_getElem? hk)),hshift] at hw
  · intro hok
    rw [hs.ctl hok,hctl,List.length_cons,Function.iterate_succ_apply]
  · intro hok w hw
    have hstop := hs.stops hok w hw
    rwa [hother w (List.mem_append_right _ (List.mem_of_head? hw)),hshift] at hstop
  · intro hfail
    have hsends := hs.fails hfail
    rwa [hshift] at hsends

/-- Whatever the clock and the sends do, the loop resends a front part of what it has not seen. -/
theorem timerLoop_sweeps (h : RepeatHooks γ) (ticks : Nat → Tick) {unseen done : List (Nat × UInt32)}
    {packId : Option Nat} {resent : List UInt32} {s : RepeatServer γ} (hs : s.InStep order file)
    (hat : s.AtTurn unseen done packId resent) {fuel : Nat} (hfuel : unseen.length < fuel) (i : Nat) :
    ∃ fired rest noErr s', unseen.map Prod.snd = fired ++ rest ∧
      timerLoop h ticks fuel i packId resent s =
        some (noErr,s',transmitted order file ticks i fired) ∧
      Requeued order file h s s' ∧ Swept h ticks i fired rest (done.map Prod.snd) noErr s s' := by
  induction unseen generalizing done packId resent s fuel i with
  | nil =>
    obtain ⟨fuel,rfl⟩ := Nat.exists_eq_add_one.mpr hfuel
    refine ⟨List.nil,List.nil,true,s,rfl,timerLoop_done h ticks fuel i hat,.refl hs,
      ⟨?_,rfl,by simp,fun _ => rfl,by simp,by simp⟩⟩
    simp [NodeList.values,hat.nodes]
  | cons p unseen ih =>
    obtain ⟨it,v⟩ := p
    obtain ⟨fuel,rfl⟩ := Nat.exists_eq_add_one.mpr (Nat.zero_lt_of_lt hfuel)
    obtain ⟨sentAt,l,hsentAt,hl,hfresh,hreq,hturn⟩ := hs.timerLoop_turn h ticks fuel i hat.nodes_cons
      (hat.notMem hs)
    have hlast := lastSent_eq hsentAt
    have hvalues :
        s.sendOrder.values = (v :: unseen.map Prod.snd) ++ done.map Prod.snd ++ List.nil := by
      simp [NodeList.values,hat.nodes]
    rw [hat.packId_cons,hturn]
    by_cases hexp : expired sentAt (ticks i).now = true
    · have hdue := (expired_iff sentAt (ticks i).now).mp hexp
      rw [← hlast] at hdue
      rw [if_pos hexp]
      by_cases hsent : ((ticks i).transmit (filePacket order file v)).1 = true
      · have hat' := hat.next (requeue_nodes (filePacket_seqno order file v) hl
          (ticks i).sendTime { s with ctl := h.onTimeout s.ctl })
        obtain ⟨fired,rest,noErr,s',hparts,hrun,hs',hswept⟩ := ih hreq.inStep hat'
          (Nat.lt_of_succ_lt_succ hfuel) (i + 1)
        rw [List.map_append] at hswept
        have hnodup := hs.nodup
        rw [hvalues,List.append_nil,List.cons_append,List.nodup_cons,hparts] at hnodup
        refine ⟨v :: fired,rest,noErr,s',by rw [List.map_cons,hparts]; rfl,?_,hreq.trans hs',?_⟩
        · rw [if_pos hsent,hrun]
          rfl
        · refine hswept.cons ?_ (lastSent_requeue _ _ _ _ _) rfl hdue
          rintro w hw rfl
          exact hnodup.1 (List.mem_append_left _ hw)
      · rw [if_neg hsent]
        refine ⟨List.nil,v :: unseen.map Prod.snd,false,_,rfl,rfl,.failed hs (i := v) ?_,
          ⟨hvalues,rfl,by simp,by simp,by simp,fun _ => ?_⟩⟩
        · rw [← hs.mem_order,hvalues]
          simp
        · rw [List.length_nil,Nat.add_zero,← Tick.transmit_iff _ (filePacket order file v)]
          exact hsent
    · rw [if_neg hexp]
      refine ⟨List.nil,v :: unseen.map Prod.snd,true,s,rfl,rfl,.refl hs,
        ⟨hvalues,rfl,by simp,fun _ => rfl,fun _ w hw => ?_,by simp⟩⟩
      obtain rfl : v = w := by simpa using hw
      rw [expired_iff,← hlast] at hexp
      exact not_le.mp hexp

theorem InStep.updateTimers_sweeps {s : RepeatServer γ} (hs : s.InStep order file)
    (h : RepeatHooks γ) (ticks : Nat → Tick) :
    ∃ fired rest noErr s', s.sendOrder.values = fired ++ rest ∧
      s.updateTimers h ticks = some (noErr,s',transmitted order file ticks 0 fired) ∧
      Requeued order file h s s' ∧ Swept h ticks 0 fired rest List.nil noErr s s' :=
  timerLoop_sweeps h ticks hs (.start s) (Nat.lt_succ_self _) 0

/-- The `k`-th packet of the order is over its time at the `k`-th reading of the clock. -/
def FiresAt (ticks : Nat → Tick) (s : RepeatServer γ) (k : Nat) : Prop :=
  ∃ v, s.sendOrder.values[k]? = some v ∧ s.lastSent v + 1000 ≤ (ticks k).now.micros

theorem Swept.length_eq {h : RepeatHooks γ} {ticks : Nat → Tick} {fired rest : List UInt32}
    {s s' : RepeatServer γ} (hs : Swept h ticks 0 fired rest List.nil true s s')
    (hparts : s.sendOrder.values = fired ++ rest) {n : Nat} (hfires : ∀ k < n, s.FiresAt ticks k)
    (hstop : ¬s.FiresAt ticks n) : fired.length = n := by
  rcases Nat.lt_trichotomy fired.length n with hlt | heq | hgt
  · exfalso
    obtain ⟨v,hv,hdue⟩ := hfires _ hlt
    rw [hparts,List.getElem?_append_right (le_refl _),Nat.sub_self,← List.head?_eq_getElem?] at hv
    have hearly := hs.stops rfl v hv
    rw [Nat.zero_add] at hearly
    omega
  · exact heq
  · exfalso
    have hv := List.getElem?_eq_getElem hgt
    have hdue := hs.due n _ hv
    rw [Nat.zero_add] at hdue
    exact hstop ⟨_,by rw [hparts,List.getElem?_append_left hgt,hv],hdue⟩

theorem InStep.updateTimers_succeeds {s : RepeatServer γ} (hs : s.InStep order file)
    (h : RepeatHooks γ) {ticks : Nat → Tick} (hsends : ∀ i, (ticks i).Succeeds) :
    ∃ fired rest s', s.sendOrder.values = fired ++ rest ∧
      s.updateTimers h ticks = some (true,s',transmitted order file ticks 0 fired) ∧
      Requeued order file h s s' ∧ Swept h ticks 0 fired rest List.nil true s s' := by
  obtain ⟨fired,rest,noErr,s',hparts,hrun,hreq,hswept⟩ := hs.updateTimers_sweeps h ticks
  cases noErr with
  | false => exact absurd (hsends _) (hswept.fails rfl)
  | true => exact ⟨fired,rest,s',hparts,hrun,hreq,hswept⟩

theorem InStep.updateTimers_timeouts {s : RepeatServer γ} (hs : s.InStep order file)
    (h : RepeatHooks γ) {ticks : Nat → Tick} (hsends : ∀ i, (ticks i).Succeeds) {n : Nat}
    (hfires : ∀ k < n, s.FiresAt ticks k) (hstop : ¬s.FiresAt ticks n) :
    ∃ s' out, s.updateTimers h ticks = some (true,s',out) ∧ s'.ctl = h.onTimeout^[n] s.ctl := by
  obtain ⟨fired,rest,s',hparts,hrun,-,hswept⟩ := hs.updateTimers_succeeds h hsends
  refine ⟨s',_,hrun,?_⟩
  rw [hswept.ctl rfl,hswept.length_eq hparts hfires hstop]

end RepeatServer

end ReliableTransfer
