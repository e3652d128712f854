import ReliableTransfer.Framework.Network

/-!
# Weights in a network

Parties and datagrams have weights. If no party makes more than it had and has just read, then a
network that duplicates nothing never gets any heavier.
-/

namespace Framework

variable {ι σ ε β : Type*}

namespace Network

/-- The network duplicates no datagram. -/
def Label.Undoubled : Label ι ε β → Prop
  | .duplicate _ => False
  | _ => True

structure Weight (ι σ β : Type*) where
  party : ι → σ → Nat
  datagram : Datagram ι β → Nat

namespace Weight

variable (W : Weight ι σ β)

def seat (P : ι → Option σ) (i : ι) : Nat := (P i).elim 0 (W.party i)

/-- What the parties at `S` and the datagrams in flight weigh together. -/
def total (S : Finset ι) (x : NetworkState ι σ β) : Nat :=
  ∑ i ∈ S, W.seat x.parties i + (x.flight.map W.datagram).sum

/-- No reaction of a party and no alteration of a datagram makes more than there was. -/
structure Conserved (N : Network ι σ ε β) (C : Claim ι σ β) : Prop where
  act : ∀ {x i s e o}, C.Holds x → x.parties i = some s →
    (∀ m, N.reads e = some m → ⟨m.1,i,m.2⟩ ∈ x.flight) → N.react s e = some o →
    W.party i o.state + (o.started.elim 0 fun p => W.party p.1 p.2) +
        ((outgoing i o).map W.datagram).sum ≤
      W.party i s + ((N.incoming i e).map W.datagram).sum
  alter : ∀ {d d'}, N.alters d d' → W.datagram d' ≤ W.datagram d

theorem sum_outgoing (f : Datagram ι β → Nat) (i : ι) (o : Outcome ι σ β) :
    ((outgoing i o).map f).sum = (o.sent.map fun m => f ⟨i,m.1,m.2⟩).sum := by
  simp [outgoing,Function.comp_def]

variable {W} [DecidableEq ι] {P : ι → Option σ} {i : ι} {s : σ} {o : Outcome ι σ β}
  {S : Finset ι} {x y : NetworkState ι σ β}

omit [DecidableEq ι] in
theorem total_mono {S' : Finset ι} (h : S ⊆ S') : W.total S x ≤ W.total S' x :=
  Nat.add_le_add_right (Finset.sum_le_sum_of_subset h) _

theorem seat_placed_self (hi : P i = some s) (hunused : ∀ p ∈ o.started, P p.1 = none) :
    W.seat (placed P i o) i = W.party i o.state := by
  rw [seat,placed_self hi hunused,Option.elim_some]

/-- Somebody else weighs what he did, unless he has just been started. -/
theorem seat_placed_le {j : ι} (hne : j ≠ i) : W.seat (placed P i o) j ≤
    W.seat P j + o.started.elim 0 fun p => if j = p.1 then W.party p.1 p.2 else 0 := by
  cases hstart : o.started with
  | none => simp [seat,placed,hstart,hne]
  | some p =>
    by_cases hj : j = p.1
    · subst hj
      simp [seat,placed,hstart]
    · simp [seat,placed,hstart,hne,hj]

theorem sum_placed (hi : P i = some s) (hunused : ∀ p ∈ o.started, P p.1 = none) (hS : i ∈ S) :
    ∑ j ∈ S, W.seat (placed P i o) j + W.party i s ≤
      ∑ j ∈ S, W.seat P j +
        (W.party i o.state + o.started.elim 0 fun p => W.party p.1 p.2) := by
  have hstarted : ∑ j ∈ S.erase i, (o.started.elim 0 fun p => if j = p.1 then W.party p.1 p.2 else 0) ≤
      o.started.elim 0 fun p => W.party p.1 p.2 := by
    cases o.started with
    | none => simp
    | some p =>
      simp only [Option.elim_some,Finset.sum_ite_eq']
      split <;> simp
  have hothers : ∑ j ∈ S.erase i, W.seat (placed P i o) j ≤
      ∑ j ∈ S.erase i, W.seat P j + o.started.elim 0 fun p => W.party p.1 p.2 := by
    refine (Finset.sum_le_sum fun j hj => seat_placed_le (Finset.ne_of_mem_erase hj)).trans ?_
    rw [Finset.sum_add_distrib]
    exact Nat.add_le_add_left hstarted _
  have hseat : W.seat P i = W.party i s := by rw [seat,hi,Option.elim_some]
  rw [← Finset.add_sum_erase S _ hS,← Finset.add_sum_erase S _ hS,seat_placed_self hi hunused,hseat]
  omega

variable {N : Network ι σ ε β} {C : Claim ι σ β}

theorem Conserved.step (hW : W.Conserved N C) (hx : C.Holds x) {l : Label ι ε β}
    (hl : l.Undoubled) (h : N.Step l x y) (S : Finset ι) : ∃ S', W.total S y ≤ W.total S' x := by
  cases h with
  | @act P i s e o F hi hreact hunused =>
    refine ⟨insert i S,(total_mono (Finset.subset_insert i S)).trans ?_⟩
    have hread : ∀ m, N.reads e = some m → ⟨m.1,i,m.2⟩ ∈ N.incoming i e + F := by
      intro m hm
      simp [incoming,hm]
    have hact := hW.act hx hi hread hreact
    have hsum := sum_placed (W := W) hi hunused (Finset.mem_insert_self i S)
    simp only [total,Multiset.map_add,Multiset.sum_add]
    omega
  | lose => exact ⟨S,by simp [total]⟩
  | duplicate => exact hl.elim
  | alter halters =>
    have hle := hW.alter halters
    refine ⟨S,?_⟩
    simp only [total,Multiset.map_cons,Multiset.sum_cons]
    omega

/-- What bounds every finite part of the network bounds it for ever. -/
theorem Conserved.run (hW : W.Conserved N C) {grows : σ → σ → Prop} (hC : N.Inductive grows C)
    (hx : C.Holds x) {bound : Nat} (hbound : ∀ S, W.total S x ≤ bound)
    (h : N.RunWhere Label.Undoubled x y) (S : Finset ι) : W.total S y ≤ bound := by
  induction h generalizing S with
  | refl => exact hbound S
  | tail hrun hstep ih =>
    obtain ⟨l,hl,hstep⟩ := hstep
    obtain ⟨S',hle⟩ := hW.step (hC.run hx (RunWhere.run hrun)).1 hl hstep S
    exact hle.trans (ih S')

end Weight

end Network

end Framework
