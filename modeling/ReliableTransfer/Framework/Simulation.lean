import ReliableTransfer.Framework.LossyLink

/-!
# Systems that exchange the same datagrams

If the parties of one system react like those of another, up to a relation between their states,
then every run of the first is a run of the second with the same datagrams in flight.
-/

namespace Framework

variable {σ κ σ' κ' ε δ α : Type*}

namespace Link

/-- The parties of `L` react like those of `M`, up to `S` and `K`. -/
structure Simulation (L : Link σ κ ε δ α) (M : Link σ' κ' ε δ α) (S : σ → σ' → Prop)
    (K : κ → κ' → Prop) : Prop where
  reads : ∀ e, L.reads e = M.reads e
  serve : ∀ {s t e s' out}, S s t → L.serve s e = some (s',out) →
    ∃ t', M.serve t e = some (t',out) ∧ S s' t'
  accept : ∀ {k l d k' out}, K k l → L.accept k d = some (k',out) →
    ∃ l', M.accept l d = some (l',out) ∧ K k' l'

structure Related (S : σ → σ' → Prop) (K : κ → κ' → Prop) (x : LinkState σ κ δ α)
    (y : LinkState σ' κ' δ α) : Prop where
  server : S x.server y.server
  client : K x.client y.client
  data : x.data = y.data
  acks : x.acks = y.acks

theorem related_unless {K : κ → κ' → Prop} {closed : Bool} {f : Option (κ × α)}
    {g : Option (κ' × α)} {k' : κ} {out : α}
    (hfg : f = some (k',out) → ∃ l', g = some (l',out) ∧ K k' l')
    (h : (if closed then none else f) = some (k',out)) :
    ∃ l', (if closed then none else g) = some (l',out) ∧ K k' l' := by
  cases closed
  · exact hfg h
  · contradiction

variable {L : Link σ κ ε δ α} {M : Link σ' κ' ε δ α} {S : σ → σ' → Prop} {K : κ → κ' → Prop}
  {x x' : LinkState σ κ δ α} {y : LinkState σ' κ' δ α}

theorem Simulation.move (h : L.Simulation M S K) (hxy : Related S K x y)
    (hmove : L.Move (fun _ _ => True) x x') :
    ∃ y', M.Move (fun _ _ => True) y y' ∧ Related S K x' y' := by
  obtain ⟨t,l,D',A'⟩ := y
  obtain ⟨hserver,hclient,hdata,hacks⟩ := hxy
  cases hmove with
  | serve _ hreads hserve =>
    obtain ⟨t',hserve',hserver'⟩ := h.serve hserver hserve
    subst hdata hacks
    exact ⟨_,.serve trivial (by rwa [← h.reads]) hserve',⟨hserver',hclient,rfl,rfl⟩⟩
  | read _ hreads hserve =>
    obtain ⟨t',hserve',hserver'⟩ := h.serve hserver hserve
    subst hdata hacks
    exact ⟨_,.read trivial (by rwa [← h.reads]) hserve',⟨hserver',hclient,rfl,rfl⟩⟩
  | accept haccept =>
    obtain ⟨l',haccept',hclient'⟩ := h.accept hclient haccept
    subst hdata hacks
    exact ⟨_,.accept haccept',⟨hserver,hclient',rfl,rfl⟩⟩

theorem Related.fault (hxy : Related S K x y) (hfault : Fault x x') :
    ∃ y', Fault y y' ∧ Related S K x' y' := by
  obtain ⟨t,l,D',A'⟩ := y
  obtain ⟨hserver,hclient,hdata,hacks⟩ := hxy
  cases hfault <;> subst hdata hacks
  · exact ⟨_,.loseData,⟨hserver,hclient,rfl,rfl⟩⟩
  · exact ⟨_,.loseAck,⟨hserver,hclient,rfl,rfl⟩⟩
  · exact ⟨_,.dupData,⟨hserver,hclient,rfl,rfl⟩⟩
  · exact ⟨_,.dupAck,⟨hserver,hclient,rfl,rfl⟩⟩

theorem Simulation.run (h : L.Simulation M S K) (hxy : Related S K x y) (hrun : L.Run x x') :
    ∃ y', M.Run y y' ∧ Related S K x' y' := by
  induction hrun with
  | refl => exact ⟨y,.refl,hxy⟩
  | tail _ hstep ih =>
    obtain ⟨y₁,hrun₁,hrel₁⟩ := ih
    rcases hstep with hmove | hfault
    · obtain ⟨y₂,hmove₂,hrel₂⟩ := h.move hrel₁ hmove
      exact ⟨y₂,hrun₁.tail (Or.inl hmove₂),hrel₂⟩
    · obtain ⟨y₂,hfault₂,hrel₂⟩ := hrel₁.fault hfault
      exact ⟨y₂,hrun₁.tail (Or.inr hfault₂),hrel₂⟩

end Link

end Framework
