import ReliableTransfer.Workers.SelectiveRepeat.Containers
import ReliableTransfer.Workers.SenderProgress

/-!
# A pass over the timers

`updateTimers` walks the order from the front. What it resends moves to the back, so it stands at
the first packet not resent yet until it meets one that was, or the end.
-/

namespace ReliableTransfer

open Framework

namespace RepeatServer

variable {γ : Type} {order : ByteOrder} {file : List UInt8}

/-- Where the loop stands: the order is what it has not seen followed by what it has resent. -/
structure AtTurn (s : RepeatServer γ) (unseen done : List (Nat × UInt32)) (packId : Option Nat)
    (resent : List UInt32) : Prop where
  nodes : s.sendOrder.nodes = unseen ++ done
  resent : ∀ v, v ∈ resent ↔ v ∈ done.map Prod.snd
  packId : packId = s.sendOrder.nodes.head?.map Prod.fst ∨ (packId = none ∧ unseen = List.nil)

theorem AtTurn.start (s : RepeatServer γ) :
    s.AtTurn s.sendOrder.nodes List.nil (s.sendOrder.front?.map Prod.fst) List.nil :=
  ⟨(List.append_nil _).symm,by simp,Or.inl rfl⟩

theorem requeue_nodes {packet : Packet} {v : UInt32} (hseq : packet.seqno = v)
    {l : NodeList UInt32} {nodes : List (Nat × UInt32)} (hl : l.nodes = nodes) (t : Timeval)
    (s : RepeatServer γ) :
    (s.requeue v packet t l).sendOrder.nodes = nodes ++ [(l.fresh,v)] := by
  rw [← hl,← hseq]
  rfl

theorem AtTurn.next {s : RepeatServer γ} {it : Nat} {v : UInt32}
    {unseen done : List (Nat × UInt32)} {packId : Option Nat} {resent : List UInt32}
    (h : s.AtTurn ((it,v) :: unseen) done packId resent) {s' : RepeatServer γ} {fresh : Nat}
    (hnodes : s'.sendOrder.nodes = unseen ++ done ++ [(fresh,v)]) :
    s'.AtTurn unseen (done ++ [(fresh,v)]) ((unseen ++ done).head?.map Prod.fst) (v :: resent) where
  nodes := by rw [hnodes,List.append_assoc]
  resent w := by
    rw [List.mem_cons,h.resent,List.map_append,List.mem_append]
    simp [or_comm]
  packId := by
    rw [hnodes]
    cases unseen with
    | nil =>
      cases done with
      | nil => exact Or.inr ⟨rfl,rfl⟩
      | cons p done => exact Or.inl rfl
    | cons p unseen => exact Or.inl rfl

theorem timerLoop_done (h : RepeatHooks γ) (ticks : Nat → Tick) (fuel i : Nat)
    {s : RepeatServer γ} {done : List (Nat × UInt32)} {packId : Option Nat} {resent : List UInt32}
    (hat : s.AtTurn List.nil done packId resent) :
    timerLoop h ticks (fuel + 1) i packId resent s = some (true,s,List.nil) := by
  have hnodes := hat.nodes
  rw [List.nil_append] at hnodes
  rcases hat.packId with hpack | ⟨rfl,-⟩
  · cases done with
    | nil =>
      rw [hpack,hnodes]
      rfl
    | cons p done =>
      obtain ⟨it,v⟩ := p
      have hv : v ∈ resent := (hat.resent v).mpr (by simp)
      rw [hpack,hnodes]
      simp only [List.head?_cons,Option.map_some,timerLoop,NodeList.get?_head hnodes,
        Option.bind_eq_bind,Option.bind_some,hv,if_true]
  · rfl

theorem AtTurn.nodes_cons {s : RepeatServer γ} {it : Nat} {v : UInt32}
    {unseen done : List (Nat × UInt32)} {packId : Option Nat} {resent : List UInt32}
    (h : s.AtTurn ((it,v) :: unseen) done packId resent) :
    s.sendOrder.nodes = (it,v) :: (unseen ++ done) := h.nodes

theorem AtTurn.packId_cons {s : RepeatServer γ} {it : Nat} {v : UInt32}
    {unseen done : List (Nat × UInt32)} {packId : Option Nat} {resent : List UInt32}
    (h : s.AtTurn ((it,v) :: unseen) done packId resent) : packId = some it := by
  rcases h.packId with hpack | ⟨-,hnil⟩
  · rw [hpack,h.nodes]
    rfl
  · contradiction

theorem AtTurn.notMem {s : RepeatServer γ} {it : Nat} {v : UInt32}
    {unseen done : List (Nat × UInt32)} {packId : Option Nat} {resent : List UInt32}
    (h : s.AtTurn ((it,v) :: unseen) done packId resent) (hs : s.InStep order file) :
    v ∉ resent := by
  intro hv
  have hnodup := hs.nodup
  rw [NodeList.values,h.nodes,List.cons_append,List.map_cons,List.nodup_cons,List.map_append] at hnodup
  exact hnodup.1 (List.mem_append_right _ ((h.resent v).mp hv))

/-- The loop never leaves the containers, leaves the numbers alone, and puts only outstanding
packets on the wire. -/
theorem timerLoop_requeued (h : RepeatHooks γ) (ticks : Nat → Tick)
    {unseen : List (Nat × UInt32)} {done : List (Nat × UInt32)} {packId : Option Nat}
    {resent : List UInt32} {s : RepeatServer γ} (hs : s.InStep order file)
    (hat : s.AtTurn unseen done packId resent) {fuel : Nat} (hfuel : unseen.length < fuel) (i : Nat) :
    ∃ noErr s' out, timerLoop h ticks fuel i packId resent s = some (noErr,s',out) ∧
      Requeued order file h s s' ∧ ∀ d ∈ out, ∃ v, s.Outstanding v ∧ d = filePacket order file v := by
  induction unseen generalizing done packId resent s fuel i with
  | nil =>
    obtain ⟨fuel,rfl⟩ := Nat.exists_eq_add_one.mpr hfuel
    exact ⟨true,s,List.nil,timerLoop_done h ticks fuel i hat,.refl hs,by simp⟩
  | cons p unseen ih =>
    obtain ⟨it,v⟩ := p
    obtain ⟨fuel,rfl⟩ := Nat.exists_eq_add_one.mpr (Nat.zero_lt_of_lt hfuel)
    obtain ⟨sentAt,l,-,hl,hfresh,hreq,hturn⟩ := hs.timerLoop_turn h ticks fuel i hat.nodes_cons
      (hat.notMem hs)
    rw [hat.packId_cons,hturn]
    split
    · split
      · have hat' := hat.next (requeue_nodes (filePacket_seqno order file v) hl
          (ticks i).sendTime { s with ctl := h.onTimeout s.ctl })
        obtain ⟨noErr,s',more,hrun,hs',hmore⟩ := ih hreq.inStep hat'
          (Nat.lt_of_succ_lt_succ hfuel) (i + 1)
        refine ⟨noErr,s',_,by rw [hrun]; rfl,hreq.trans hs',fun d hd => ?_⟩
        rcases List.mem_append.mp hd with hd | hd
        · refine ⟨v,?_,Tick.mem_transmit hd⟩
          rw [← hs.mem_order]
          simp [NodeList.values,hat.nodes]
        · obtain ⟨w,hw,rfl⟩ := hmore d hd
          exact ⟨w,(hreq.outstanding w).mp hw,rfl⟩
      · exact ⟨_,_,_,rfl,.failed hs (i := v) (by
          rw [← hs.mem_order]
          simp [NodeList.values,hat.nodes]),by simp⟩
    · exact ⟨_,_,_,rfl,.refl hs,by simp⟩

theorem InStep.updateTimers {s : RepeatServer γ} (hs : s.InStep order file) (h : RepeatHooks γ)
    (ticks : Nat → Tick) :
    ∃ noErr s' out, s.updateTimers h ticks = some (noErr,s',out) ∧ Requeued order file h s s' ∧
      ∀ d ∈ out, ∃ v, s.Outstanding v ∧ d = filePacket order file v :=
  timerLoop_requeued h ticks hs (.start s) (Nat.lt_succ_self _) 0

theorem timerLoop_fires (h : RepeatHooks γ) (late : Timeval) {unseen : List (Nat × UInt32)}
    {done : List (Nat × UInt32)} {packId : Option Nat} {resent : List UInt32}
    {s : RepeatServer γ} (hs : s.InStep order file) (hat : s.AtTurn unseen done packId resent)
    (hlate : ∀ p ∈ unseen, ∀ t, s.seqnumsSent[p.2]? = some t → expired t late = true)
    {fuel : Nat} (hfuel : unseen.length < fuel) (i : Nat) :
    ∃ s', timerLoop h (fun _ => calmTick late) fuel i packId resent s =
        some (true,s',unseen.map fun p => filePacket order file p.2) ∧
      Requeued order file h s s' ∧ s'.ctl = h.onTimeout^[unseen.length] s.ctl := by
  induction unseen generalizing done packId resent s fuel i with
  | nil =>
    obtain ⟨fuel,rfl⟩ := Nat.exists_eq_add_one.mpr hfuel
    exact ⟨s,timerLoop_done h _ fuel i hat,.refl hs,rfl⟩
  | cons p unseen ih =>
    obtain ⟨it,v⟩ := p
    obtain ⟨fuel,rfl⟩ := Nat.exists_eq_add_one.mpr (Nat.zero_lt_of_lt hfuel)
    obtain ⟨sentAt,l,hsentAt,hl,hfresh,hreq,hturn⟩ := hs.timerLoop_turn h
      (fun _ => calmTick late) fuel i hat.nodes_cons (hat.notMem hs)
    have hat' := hat.next (requeue_nodes (filePacket_seqno order file v) hl
      (calmTick late).sendTime { s with ctl := h.onTimeout s.ctl })
    have hnodup := hs.nodup
    rw [NodeList.values,hat.nodes,List.cons_append,List.map_cons,List.nodup_cons] at hnodup
    have hlate' : ∀ p ∈ unseen, ∀ t, (s.seqnumsSent.insert v late)[p.2]? = some t →
        expired t late = true := by
      intro p hp t ht
      have hne : v ≠ p.2 := fun heq => hnodup.1
        (List.mem_map.mpr ⟨p,List.mem_append_left _ hp,heq.symm⟩)
      simp only [Std.ExtTreeMap.getElem?_insert,Std.compare_eq_iff_eq,hne,if_false] at ht
      exact hlate p (List.mem_cons_of_mem _ hp) t ht
    obtain ⟨s',hrun,hs',hctl⟩ := ih hreq.inStep hat' hlate' (Nat.lt_of_succ_lt_succ hfuel) (i + 1)
    have hnow : expired sentAt (calmTick late).now = true :=
      hlate _ List.mem_cons_self sentAt hsentAt
    refine ⟨s',?_,hreq.trans hs',?_⟩
    · rw [hat.packId_cons,hturn,if_pos hnow,(calmTick_calm late).transmit,if_pos rfl,hrun]
      rfl
    · rw [hctl,List.length_cons,Function.iterate_succ_apply]
      rfl

theorem exists_late (s : RepeatServer γ) :
    ∃ late, ∀ v ∈ s.sendOrder.values, ∀ t, s.seqnumsSent[v]? = some t → expired t late = true := by
  have h : ∀ values : List UInt32, ∃ n : Int, ∀ v ∈ values, ∀ t, s.seqnumsSent[v]? = some t →
      t.micros + 1000 ≤ n := by
    intro values
    induction values with
    | nil => exact ⟨0,by simp⟩
    | cons v values ih =>
      obtain ⟨n,hn⟩ := ih
      refine ⟨max n (((s.seqnumsSent[v]?).map Timeval.micros).getD 0 + 1000),fun w hw t ht => ?_⟩
      rcases List.mem_cons.mp hw with rfl | hw
      · rw [ht]
        exact le_max_right _ _
      · exact (hn w hw t ht).trans (le_max_left _ _)
  obtain ⟨n,hn⟩ := h s.sendOrder.values
  exact ⟨⟨0,n⟩,fun v hv t ht => expired_late (hn v hv t ht)⟩

theorem InStep.updateTimers_fires {s : RepeatServer γ} (hs : s.InStep order file)
    (h : RepeatHooks γ) :
    ∃ ticks s', (∀ i, (ticks i).Calm) ∧
      s.updateTimers h ticks = some (true,s',s.sendOrder.values.map (filePacket order file)) ∧
      Requeued order file h s s' ∧ s'.ctl = h.onTimeout^[s.sendOrder.values.length] s.ctl := by
  obtain ⟨late,hlate⟩ := s.exists_late
  obtain ⟨s',hrun,hs',hctl⟩ := timerLoop_fires h late hs (.start s)
    (fun p hp t ht => hlate p.2 (List.mem_map_of_mem hp) t ht) (Nat.lt_succ_self _) 0
  refine ⟨fun _ => calmTick late,s',fun _ => calmTick_calm late,?_,hs',?_⟩
  · rw [NodeList.values,List.map_map]
    exact hrun
  · rw [NodeList.values,List.length_map]
    exact hctl

theorem InStep.updateTimers_quiet {s : RepeatServer γ} (hs : s.InStep order file)
    (h : RepeatHooks γ) :
    ∃ ticks, (∀ i, (ticks i).Calm) ∧ s.updateTimers h ticks = some (true,s,List.nil) := by
  cases hnodes : s.sendOrder.nodes with
  | nil =>
    refine ⟨fun _ => calmTick ⟨0,0⟩,fun _ => calmTick_calm _,?_⟩
    simp [RepeatServer.updateTimers,NodeList.front?,hnodes,timerLoop]
  | cons p rest =>
    obtain ⟨it,v⟩ := p
    have hat := AtTurn.start s
    rw [hnodes] at hat
    have hout : s.Outstanding v := by
      rw [← hs.mem_order]
      simp [NodeList.values,hnodes]
    obtain ⟨now,hnow⟩ := Option.isSome_iff_exists.mp
      (Std.ExtTreeMap.mem_iff_isSome_getElem?.mp (hs.mem_seqnumsSent hout))
    obtain ⟨sentAt,l,hsentAt,-,-,-,hturn⟩ := hs.timerLoop_turn h (fun _ => calmTick now)
      s.sendOrder.nodes.length 0 hnodes (hat.notMem hs)
    obtain rfl := Option.some.inj (hnow.symm.trans hsentAt)
    refine ⟨fun _ => calmTick now,fun _ => calmTick_calm _,?_⟩
    rw [RepeatServer.updateTimers,hat.packId_cons,hturn,if_neg]
    simp [calmTick,not_expired_self]

theorem ops_quiet (h : RepeatHooks γ) {I : RepeatServer γ → Prop}
    (hI : ∀ s, I s → s.InStep order file) : (ops h).Quiet I :=
  fun _ hs => (hI _ hs).updateTimers_quiet h

end RepeatServer

end ReliableTransfer
