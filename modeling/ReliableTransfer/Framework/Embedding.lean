import ReliableTransfer.Framework.LossyLink

/-!
# A link inside another

A link whose parties and events are some of those of a larger link, and react there as they do by
themselves, has the same runs there.
-/

namespace Framework

variable {σ κ ε σ' κ' ε' δ α : Type*}

namespace Link

/-- The parties of `L` as parties of `M`. -/
structure Embedding (L : Link σ κ ε δ α) (M : Link σ' κ' ε' δ α) where
  server : σ → σ'
  client : κ → κ'
  event : ε → ε'
  reads : ∀ e, M.reads (event e) = L.reads e
  calm : ∀ e, L.calm e → M.calm (event e)
  serve : ∀ s e, M.serve (server s) (event e) = (L.serve s e).map fun r => (server r.1,r.2)
  /-- The events of others do nothing. -/
  foreign : ∀ s e', (∀ e, e' ≠ event e) → M.serve (server s) e' = none
  accept : ∀ k d, M.accept (client k) d = (L.accept k d).map fun r => (client r.1,r.2)

namespace Embedding

variable {L : Link σ κ ε δ α} {M : Link σ' κ' ε' δ α} (f : L.Embedding M)

def state (x : LinkState σ κ δ α) : LinkState σ' κ' δ α :=
  ⟨f.server x.server,f.client x.client,x.data,x.acks⟩

variable {f} {x y : LinkState σ κ δ α} {y' : LinkState σ' κ' δ α}

theorem serve_some {s s₁ : σ} {e : ε} {out : List δ} (h : L.serve s e = some (s₁,out)) :
    M.serve (f.server s) (f.event e) = some (f.server s₁,out) := by
  rw [f.serve,h]
  rfl

theorem accept_some {k k₁ : κ} {d : δ} {out : List α} (h : L.accept k d = some (k₁,out)) :
    M.accept (f.client k) d = some (f.client k₁,out) := by
  rw [f.accept,h]
  rfl

theorem move {P : σ → ε → Prop} {Q : σ' → ε' → Prop}
    (hPQ : ∀ s e, P s e → Q (f.server s) (f.event e)) (h : L.Move P x y) :
    M.Move Q (f.state x) (f.state y) := by
  cases h with
  | serve hP hr hs => exact .serve (hPQ _ _ hP) ((f.reads _).trans hr) (serve_some hs)
  | read hP hr hs => exact .read (hPQ _ _ hP) ((f.reads _).trans hr) (serve_some hs)
  | accept ha => exact .accept (accept_some ha)

theorem calmRun (h : L.CalmRun x y) : M.CalmRun (f.state x) (f.state y) := by
  induction h with
  | refl => exact .refl
  | tail _ hm ih => exact ih.tail (move (fun _ e => f.calm e) hm)

theorem fault (h : Fault x y) : Fault (f.state x) (f.state y) := by
  cases h with
  | loseData => exact .loseData
  | loseAck => exact .loseAck
  | dupData => exact .dupData
  | dupAck => exact .dupAck

theorem run (h : L.Run x y) : M.Run (f.state x) (f.state y) := by
  induction h with
  | refl => exact .refl
  | tail _ hstep ih => exact ih.tail (hstep.imp (move fun _ _ _ => trivial) fault)

theorem serve_back {s : σ} {s' : σ'} {e' : ε'} {out : List δ}
    (h : M.serve (f.server s) e' = some (s',out)) :
    ∃ e s₁, e' = f.event e ∧ s' = f.server s₁ ∧ L.serve s e = some (s₁,out) := by
  by_cases hevent : ∃ e, e' = f.event e
  · obtain ⟨e,rfl⟩ := hevent
    rw [f.serve] at h
    obtain ⟨⟨s₁,out'⟩,hs,heq⟩ := Option.map_eq_some_iff.mp h
    obtain ⟨rfl,rfl⟩ := Prod.mk.inj heq
    exact ⟨e,s₁,rfl,rfl,hs⟩
  · rw [f.foreign s e' fun e he => hevent ⟨e,he⟩] at h
    contradiction

theorem move_back (h : M.Move (fun _ _ => True) (f.state x) y') :
    ∃ y, y' = f.state y ∧ L.Move (fun _ _ => True) x y := by
  obtain ⟨s,k,D,A⟩ := x
  generalize hstart : f.state ⟨s,k,D,A⟩ = x' at h
  cases h with
  | serve _ hr hs =>
    obtain ⟨rfl,rfl,rfl,rfl⟩ := LinkState.mk.inj hstart
    obtain ⟨e,s₁,rfl,rfl,hserve⟩ := serve_back hs
    exact ⟨_,rfl,.serve trivial ((f.reads e).symm.trans hr) hserve⟩
  | read _ hr hs =>
    obtain ⟨rfl,rfl,rfl,rfl⟩ := LinkState.mk.inj hstart
    obtain ⟨e,s₁,rfl,rfl,hserve⟩ := serve_back hs
    exact ⟨_,rfl,.read trivial ((f.reads e).symm.trans hr) hserve⟩
  | accept ha =>
    obtain ⟨rfl,rfl,rfl,rfl⟩ := LinkState.mk.inj hstart
    rw [f.accept] at ha
    obtain ⟨⟨k₁,out⟩,haccept,heq⟩ := Option.map_eq_some_iff.mp ha
    obtain ⟨rfl,rfl⟩ := Prod.mk.inj heq
    exact ⟨_,rfl,.accept haccept⟩

theorem fault_back (h : Fault (f.state x) y') : ∃ y, y' = f.state y ∧ Fault x y := by
  obtain ⟨s,k,D,A⟩ := x
  generalize hstart : f.state ⟨s,k,D,A⟩ = x' at h
  cases h <;> obtain ⟨rfl,rfl,rfl,rfl⟩ := LinkState.mk.inj hstart
  · exact ⟨_,rfl,.loseData⟩
  · exact ⟨_,rfl,.loseAck⟩
  · exact ⟨_,rfl,.dupData⟩
  · exact ⟨_,rfl,.dupAck⟩

theorem run_back (h : M.Run (f.state x) y') : ∃ y, y' = f.state y ∧ L.Run x y := by
  induction h with
  | refl => exact ⟨x,rfl,.refl⟩
  | tail _ hstep ih =>
    obtain ⟨y,rfl,hrun⟩ := ih
    rcases hstep with hmove | hfault
    · obtain ⟨z,hz,hmove⟩ := move_back hmove
      exact ⟨z,hz,hrun.tail (Or.inl hmove)⟩
    · obtain ⟨z,hz,hfault⟩ := fault_back hfault
      exact ⟨z,hz,hrun.tail (Or.inr hfault)⟩

theorem attainableIff {Q : LinkState σ κ δ α → Prop} {Q' : LinkState σ' κ' δ α → Prop} {P : Prop}
    (hQ : ∀ y, Q' (f.state y) ↔ Q y) (h : L.AttainableIff x Q P) :
    M.AttainableIff (f.state x) Q' P where
  attained hP := by
    obtain ⟨y,hy,hq⟩ := h.attained hP
    exact ⟨f.state y,calmRun hy,(hQ y).mpr hq⟩
  needed y' hy' hq' := by
    obtain ⟨y,rfl,hy⟩ := run_back hy'
    exact h.needed y hy ((hQ y).mp hq')

end Embedding

end Link

end Framework
