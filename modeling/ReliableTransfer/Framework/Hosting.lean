import ReliableTransfer.Framework.LossyLink
import ReliableTransfer.Framework.Network

/-!
# A link in a network

Two parties of a network that react to each other like the two parties of a link. Whatever the
link can do they can do in the network, and nobody else notices.
-/

namespace Framework

variable {ι σ ε β σ' κ' ε' δ α : Type*}

namespace Network

/-- The network alters no datagram. -/
def Label.Unaltered : Label ι ε β → Prop
  | .alter _ _ => False
  | _ => True

/-- Somebody reacts to an event of which `calm` holds. -/
def Label.Calm (calm : ε → Prop) : Label ι ε β → Prop
  | .act _ e => calm e
  | _ => False

theorem Label.Calm.unaltered {calm : ε → Prop} {l : Label ι ε β} (h : l.Calm calm) :
    l.Unaltered := by
  cases l with
  | act i e => trivial
  | lose d => trivial
  | duplicate d => trivial
  | alter d d' => exact h

section RunWhere

variable [DecidableEq ι] {N : Network ι σ ε β} {L M : Label ι ε β → Prop}

theorem RunWhere.weaken (hLM : ∀ l, L l → M l) {x y : NetworkState ι σ β}
    (h : N.RunWhere L x y) : N.RunWhere M x y := by
  induction h with
  | refl => exact .refl
  | tail _ hstep ih =>
    obtain ⟨l,hl,hstep⟩ := hstep
    exact ih.tail ⟨l,hLM l hl,hstep⟩

variable (N) {P : ι → Option σ} {i : ι} {s t : σ} {e : ε} {F : Multiset (Datagram ι β)}
  {out : List (ι × β)}

theorem RunWhere.act (hL : L (.act i e)) (hi : P i = some s)
    (h : N.react s e = some ⟨t,out,none⟩) :
    N.RunWhere L ⟨P,N.incoming i e + F⟩
      ⟨Function.update P i (some t),F + (out.map fun d => ⟨i,d.1,d.2⟩ : List (Datagram ι β))⟩ :=
  .single ⟨_,hL,.act hi h (by simp)⟩

theorem RunWhere.act_read {d : ι × β} (hL : L (.act i e)) (hi : P i = some s)
    (hreads : N.reads e = some d) (h : N.react s e = some ⟨t,out,none⟩) :
    N.RunWhere L ⟨P,⟨d.1,i,d.2⟩ ::ₘ F⟩
      ⟨Function.update P i (some t),F + (out.map fun d => ⟨i,d.1,d.2⟩ : List (Datagram ι β))⟩ := by
  have hrun := RunWhere.act N (F := F) hL hi h
  rw [incoming,hreads] at hrun
  exact hrun

theorem RunWhere.act_silent (hL : L (.act i e)) (hi : P i = some s) (hreads : N.reads e = none)
    (h : N.react s e = some ⟨t,out,none⟩) :
    N.RunWhere L ⟨P,F⟩
      ⟨Function.update P i (some t),F + (out.map fun d => ⟨i,d.1,d.2⟩ : List (Datagram ι β))⟩ := by
  have hrun := RunWhere.act N (F := F) hL hi h
  rw [incoming,hreads] at hrun
  rw [← zero_add F]
  simpa using hrun

end RunWhere

end Network

section Between

variable (p i : ι) (data : δ → β) (ack : α → β)

def between (D : Multiset δ) (A : Multiset α) : Multiset (Datagram ι β) :=
  D.map (fun d => ⟨p,i,data d⟩) + A.map fun a => ⟨i,p,ack a⟩

@[simp] theorem between_zero : between p i data ack (0 : Multiset δ) (0 : Multiset α) = 0 := rfl

theorem between_data (d : δ) (D : Multiset δ) (A : Multiset α) :
    between p i data ack (d ::ₘ D) A = ⟨p,i,data d⟩ ::ₘ between p i data ack D A := by
  simp [between]

theorem between_ack (D : Multiset δ) (a : α) (A : Multiset α) :
    between p i data ack D (a ::ₘ A) = ⟨i,p,ack a⟩ ::ₘ between p i data ack D A := by
  simp [between]

theorem between_sent (D : Multiset δ) (A : Multiset α) (out : List δ) :
    between p i data ack (D + (out : Multiset δ)) A =
      between p i data ack D A + (out.map fun d => ⟨p,i,data d⟩ : List (Datagram ι β)) := by
  simp only [between,Multiset.map_add,Multiset.map_coe]
  rw [add_right_comm]

theorem between_answered (D : Multiset δ) (A : Multiset α) (out : List α) :
    between p i data ack D (A + (out : Multiset α)) =
      between p i data ack D A + (out.map fun a => ⟨i,p,ack a⟩ : List (Datagram ι β)) := by
  simp only [between,Multiset.map_add,Multiset.map_coe,add_assoc]

variable {p i data ack}

theorem mem_between {D : Multiset δ} {A : Multiset α} {m : Datagram ι β} :
    m ∈ between p i data ack D A ↔
      (∃ d ∈ D, m = ⟨p,i,data d⟩) ∨ ∃ a ∈ A, m = ⟨i,p,ack a⟩ := by
  simp only [between,Multiset.mem_add,Multiset.mem_map,eq_comm]

theorem between_cases {D : Multiset δ} {A : Multiset α} {m : Datagram ι β}
    {F G : Multiset (Datagram ι β)} (h : m ::ₘ G = F + between p i data ack D A) :
    (∃ F', F = m ::ₘ F' ∧ G = F' + between p i data ack D A) ∨
    (∃ d D', m = ⟨p,i,data d⟩ ∧ D = d ::ₘ D' ∧ G = F + between p i data ack D' A) ∨
    ∃ a A', m = ⟨i,p,ack a⟩ ∧ A = a ::ₘ A' ∧ G = F + between p i data ack D A' := by
  have hmem : m ∈ F + between p i data ack D A := h ▸ Multiset.mem_cons_self m G
  rcases Multiset.mem_add.mp hmem with hF | hbetween
  · obtain ⟨F',rfl⟩ := Multiset.exists_cons_of_mem hF
    rw [Multiset.cons_add,Multiset.cons_inj_right] at h
    exact Or.inl ⟨F',rfl,h⟩
  · rcases mem_between.mp hbetween with ⟨d,hd,rfl⟩ | ⟨a,ha,rfl⟩
    · obtain ⟨D',rfl⟩ := Multiset.exists_cons_of_mem hd
      rw [between_data,Multiset.add_cons,Multiset.cons_inj_right] at h
      exact Or.inr (Or.inl ⟨d,D',rfl,rfl,h⟩)
    · obtain ⟨A',rfl⟩ := Multiset.exists_cons_of_mem ha
      rw [between_ack,Multiset.add_cons,Multiset.cons_inj_right] at h
      exact Or.inr (Or.inr ⟨a,A',rfl,rfl,h⟩)

/-- `D` and `A` are in flight between the two, and nothing else is on its way to either. -/
def Exchanges (p i : ι) (data : δ → β) (ack : α → β) (G : Multiset (Datagram ι β)) (D : Multiset δ)
    (A : Multiset α) : Prop :=
  ∃ F, G = F + between p i data ack D A ∧ ∀ m ∈ F, m.dst ≠ p ∧ m.dst ≠ i

namespace Exchanges

variable {D : Multiset δ} {A : Multiset α} {m : Datagram ι β} {G : Multiset (Datagram ι β)}

theorem mem_ack (h : Exchanges p i data ack G D A) (hne : p ≠ i) (hinj : Function.Injective ack)
    (a : α) : ⟨i,p,ack a⟩ ∈ G ↔ a ∈ A := by
  obtain ⟨F,rfl,hF⟩ := h
  refine ⟨fun hmem => ?_,fun ha => ?_⟩
  · rcases Multiset.mem_add.mp hmem with hmem | hmem
    · exact absurd rfl (hF _ hmem).1
    · rcases mem_between.mp hmem with ⟨d,-,heq⟩ | ⟨a',ha',heq⟩
      · exact absurd (Datagram.mk.inj heq).2.1 hne
      · rwa [hinj (Datagram.mk.inj heq).2.2]
  · exact Multiset.mem_add.mpr (Or.inr (mem_between.mpr (Or.inr ⟨a,ha,rfl⟩)))

theorem read_other (h : Exchanges p i data ack (m ::ₘ G) D A) (hp : m.dst ≠ p) (hi : m.dst ≠ i) :
    Exchanges p i data ack G D A := by
  obtain ⟨F,heq,hF⟩ := h
  rcases between_cases heq with ⟨F',rfl,hG⟩ | ⟨d,D',rfl,-⟩ | ⟨a,A',rfl,-⟩
  · exact ⟨F',hG,fun m' hm' => hF m' (Multiset.mem_cons_of_mem hm')⟩
  · exact absurd rfl hi
  · exact absurd rfl hp

theorem read_client (h : Exchanges p i data ack (m ::ₘ G) D A) (hne : p ≠ i) (hi : m.dst = i) :
    ∃ d D', m = ⟨p,i,data d⟩ ∧ D = d ::ₘ D' ∧ Exchanges p i data ack G D' A := by
  obtain ⟨F,heq,hF⟩ := h
  rcases between_cases heq with ⟨F',rfl,-⟩ | ⟨d,D',hm,hD,hG⟩ | ⟨a,A',rfl,-⟩
  · exact absurd hi (hF m (Multiset.mem_cons_self _ _)).2
  · exact ⟨d,D',hm,hD,F,hG,hF⟩
  · exact absurd hi hne

theorem read_server (h : Exchanges p i data ack (m ::ₘ G) D A) (hne : p ≠ i) (hp : m.dst = p) :
    ∃ a A', m = ⟨i,p,ack a⟩ ∧ A = a ::ₘ A' ∧ Exchanges p i data ack G D A' := by
  obtain ⟨F,heq,hF⟩ := h
  rcases between_cases heq with ⟨F',rfl,-⟩ | ⟨d,D',rfl,-⟩ | ⟨a,A',hm,hA,hG⟩
  · exact absurd hp (hF m (Multiset.mem_cons_self _ _)).1
  · exact absurd hp.symm hne
  · exact ⟨a,A',hm,hA,F,hG,hF⟩

theorem send_other (h : Exchanges p i data ack G D A) {out : Multiset (Datagram ι β)}
    (hout : ∀ m ∈ out, m.dst ≠ p ∧ m.dst ≠ i) : Exchanges p i data ack (G + out) D A := by
  obtain ⟨F,rfl,hF⟩ := h
  refine ⟨F + out,add_right_comm _ _ _,fun m hm => ?_⟩
  exact (Multiset.mem_add.mp hm).elim (hF m) (hout m)

theorem send_server (h : Exchanges p i data ack G D A) (out : List δ) :
    Exchanges p i data ack (G + (out.map fun d => ⟨p,i,data d⟩ : List (Datagram ι β)))
      (D + (out : Multiset δ)) A := by
  obtain ⟨F,rfl,hF⟩ := h
  exact ⟨F,by rw [between_sent,add_assoc],hF⟩

theorem send_client (h : Exchanges p i data ack G D A) (out : List α) :
    Exchanges p i data ack (G + (out.map fun a => ⟨i,p,ack a⟩ : List (Datagram ι β))) D
      (A + (out : Multiset α)) := by
  obtain ⟨F,rfl,hF⟩ := h
  exact ⟨F,by rw [between_answered,add_assoc],hF⟩

theorem lose (h : Exchanges p i data ack (m ::ₘ G) D A) (s : σ') (k : κ') :
    ∃ D' A', ((⟨s,k,D',A'⟩ : LinkState σ' κ' δ α) = ⟨s,k,D,A⟩ ∨ Link.Fault ⟨s,k,D,A⟩ ⟨s,k,D',A'⟩) ∧
      Exchanges p i data ack G D' A' := by
  obtain ⟨F,heq,hF⟩ := h
  rcases between_cases heq with ⟨F',rfl,hG⟩ | ⟨d,D',-,rfl,hG⟩ | ⟨a,A',-,rfl,hG⟩
  · exact ⟨D,A,Or.inl rfl,F',hG,fun m' hm' => hF m' (Multiset.mem_cons_of_mem hm')⟩
  · exact ⟨D',A,Or.inr .loseData,F,hG,hF⟩
  · exact ⟨D,A',Or.inr .loseAck,F,hG,hF⟩

theorem duplicate (h : Exchanges p i data ack (m ::ₘ G) D A) (s : σ') (k : κ') :
    ∃ D' A', ((⟨s,k,D',A'⟩ : LinkState σ' κ' δ α) = ⟨s,k,D,A⟩ ∨ Link.Fault ⟨s,k,D,A⟩ ⟨s,k,D',A'⟩) ∧
      Exchanges p i data ack (m ::ₘ m ::ₘ G) D' A' := by
  obtain ⟨F,heq,hF⟩ := h
  have htwice : m ::ₘ m ::ₘ G = m ::ₘ F + between p i data ack D A := by
    rw [heq,Multiset.cons_add]
  rcases between_cases heq with ⟨F',rfl,-⟩ | ⟨d,D',rfl,rfl,-⟩ | ⟨a,A',rfl,rfl,-⟩
  · refine ⟨D,A,Or.inl rfl,_,htwice,fun m' hm' => ?_⟩
    rcases Multiset.mem_cons.mp hm' with rfl | hm'
    · exact hF _ (Multiset.mem_cons_self _ _)
    · exact hF m' hm'
  · refine ⟨_,A,Or.inr .dupData,F,?_,hF⟩
    rw [htwice,between_data p i data ack d (d ::ₘ D'),Multiset.add_cons,Multiset.cons_add]
  · refine ⟨D,_,Or.inr .dupAck,F,?_,hF⟩
    rw [htwice,between_ack p i data ack _ a (a ::ₘ A'),Multiset.add_cons,Multiset.cons_add]

end Exchanges

end Between

/-- The party at `p` is the server of `L`, and the one at `i` its client, which may take more than
one step for one of the client's. -/
structure Host [DecidableEq ι] (L : Link σ' κ' ε' δ α) (N : Network ι σ ε β) (calm : ε → Prop)
    (p i : ι) where
  server : σ' → σ → Prop
  client : κ' → σ → Prop
  data : δ → β
  ack : α → β
  serves : ∀ {s u e s' out}, server s u → L.serve s e = some (s',out) →
    ∃ u' e', N.react u e' = some ⟨u',out.map fun d => (i,data d),none⟩ ∧
      N.reads e' = (L.reads e).map (fun a => (i,ack a)) ∧ (L.calm e → calm e') ∧ server s' u'
  accepts : ∀ {k v d k' out}, client k v → L.accept k d = some (k',out) →
    ∃ v', client k' v' ∧ ∀ P F, P i = some v →
      N.RunWhere (Network.Label.Calm calm) ⟨P,⟨p,i,data d⟩ ::ₘ F⟩
        ⟨Function.update P i (some v'),F + (out.map fun a => ⟨i,p,ack a⟩ : List (Datagram ι β))⟩

namespace Host

variable [DecidableEq ι] {L : Link σ' κ' ε' δ α} {N : Network ι σ ε β} {calm : ε → Prop} {p i : ι}
  (H : Host L N calm p i)

/-- The link is in the state `x`; `P` is everybody else, and `F` is what else is in flight. -/
structure Stands (P : ι → Option σ) (F : Multiset (Datagram ι β)) (x : LinkState σ' κ' δ α)
    (y : NetworkState ι σ β) : Prop where
  server : ∃ u, y.parties p = some u ∧ H.server x.server u
  client : ∃ v, y.parties i = some v ∧ H.client x.client v
  others : ∀ j, j ≠ p → j ≠ i → y.parties j = P j
  flight : y.flight = F + between p i H.data H.ack x.data x.acks

variable {H} {P : ι → Option σ} {F : Multiset (Datagram ι β)} {x x' : LinkState σ' κ' δ α}
  {y : NetworkState ι σ β}

theorem Stands.serve (hne : p ≠ i) {s s' : σ'} {k : κ'} {D : Multiset δ} {A : Multiset α} {e : ε'}
    {out : List δ} {M : Network.Label ι ε β → Prop}
    (hlab : ∀ e', (L.calm e → calm e') → M (.act p e')) (read : Multiset α)
    (hread : (read : Multiset α) = ((L.reads e).toList : Multiset α))
    (hserve : L.serve s e = some (s',out)) (hy : H.Stands P F ⟨s,k,D,read + A⟩ y) :
    ∃ y', N.RunWhere M y y' ∧ H.Stands P F ⟨s',k,D + (out : Multiset δ),A⟩ y' := by
  obtain ⟨⟨u,hp,hu⟩,⟨v,hi,hv⟩,hothers,hflight⟩ := hy
  obtain ⟨Q,G⟩ := y
  obtain ⟨u',e',hreact,hreads,hcalm,hu'⟩ := H.serves hu hserve
  dsimp only at hp hi hothers hflight
  have hin : N.incoming p e' + (F + between p i H.data H.ack D A) = G := by
    rw [hflight,hread,Network.incoming,hreads]
    cases L.reads e with
    | none => simp
    | some a => simp [between_ack]
  have hrun := Network.RunWhere.act N (F := F + between p i H.data H.ack D A) (hlab e' hcalm) hp hreact
  rw [hin] at hrun
  refine ⟨_,hrun,⟨u',by simp,hu'⟩,⟨v,?_,hv⟩,fun j hjp hji => ?_,?_⟩
  · exact (Function.update_of_ne hne.symm _ _).trans hi
  · exact (Function.update_of_ne hjp _ _).trans (hothers j hjp hji)
  · rw [between_sent,← add_assoc,List.map_map]
    rfl

theorem Stands.move (hne : p ≠ i) {Q : σ' → ε' → Prop} {M : Network.Label ι ε β → Prop}
    (hserver : ∀ s e e', Q s e → (L.calm e → calm e') → M (.act p e'))
    (hclient : ∀ l, Network.Label.Calm calm l → M l) (hy : H.Stands P F x y)
    (h : L.Move Q x x') : ∃ y', N.RunWhere M y y' ∧ H.Stands P F x' y' := by
  cases h with
  | @serve s s' k D A e out hQ hreads hserve =>
    refine Stands.serve hne (fun e' hcalm => hserver _ _ _ hQ hcalm) 0 (by simp [hreads]) hserve ?_
    rwa [zero_add]
  | @read s s' k D A e a out hQ hreads hserve =>
    refine Stands.serve hne (fun e' hcalm => hserver _ _ _ hQ hcalm) {a} (by simp [hreads]) hserve ?_
    rwa [Multiset.singleton_add]
  | @accept s k k' D A d out haccept =>
    obtain ⟨⟨u,hp,hu⟩,⟨v,hi,hv⟩,hothers,hflight⟩ := hy
    obtain ⟨R,G⟩ := y
    obtain ⟨v',hv',hrun⟩ := H.accepts hv haccept
    dsimp only at hp hi hothers hflight
    rw [between_data,Multiset.add_cons] at hflight
    subst hflight
    have hrun' := (hrun R (F + between p i H.data H.ack D A) hi).weaken hclient
    refine ⟨_,hrun',⟨u,?_,hu⟩,⟨v',by simp,hv'⟩,fun j hjp hji => ?_,?_⟩
    · exact (Function.update_of_ne hne _ _).trans hp
    · exact (Function.update_of_ne hji _ _).trans (hothers j hjp hji)
    · rw [between_answered,← add_assoc]

/-- What the link can do without losses, the two parties can do without losses. -/
theorem Stands.calmRun (hne : p ≠ i) (hy : H.Stands P F x y) (h : L.CalmRun x x') :
    ∃ y', N.RunWhere (Network.Label.Calm calm) y y' ∧ H.Stands P F x' y' := by
  induction h with
  | refl => exact ⟨y,.refl,hy⟩
  | tail _ hmove ih =>
    obtain ⟨y₁,hrun₁,hy₁⟩ := ih
    obtain ⟨y₂,hrun₂,hy₂⟩ := Stands.move hne (M := Network.Label.Calm calm)
      (fun _ _ _ hcalm h => h hcalm) (fun _ h => h) hy₁ hmove
    exact ⟨y₂,hrun₁.trans hrun₂,hy₂⟩

theorem Stands.fault (hy : H.Stands P F x y) (h : Link.Fault x x') :
    ∃ y', N.RunWhere Network.Label.Unaltered y y' ∧ H.Stands P F x' y' := by
  obtain ⟨hserver,hclient,hothers,hflight⟩ := hy
  obtain ⟨R,G⟩ := y
  dsimp only at hserver hclient hothers hflight
  cases h with
  | @loseData s k d D A =>
    rw [between_data,Multiset.add_cons] at hflight
    subst hflight
    exact ⟨_,.single ⟨.lose _,trivial,.lose⟩,hserver,hclient,hothers,rfl⟩
  | @loseAck s k D a A =>
    rw [between_ack,Multiset.add_cons] at hflight
    subst hflight
    exact ⟨_,.single ⟨.lose _,trivial,.lose⟩,hserver,hclient,hothers,rfl⟩
  | @dupData s k d D A =>
    rw [between_data,Multiset.add_cons] at hflight
    subst hflight
    refine ⟨_,.single ⟨.duplicate _,trivial,.duplicate⟩,hserver,hclient,hothers,?_⟩
    rw [between_data,between_data,Multiset.add_cons,Multiset.add_cons]
  | @dupAck s k D a A =>
    rw [between_ack,Multiset.add_cons] at hflight
    subst hflight
    refine ⟨_,.single ⟨.duplicate _,trivial,.duplicate⟩,hserver,hclient,hothers,?_⟩
    rw [between_ack,between_ack,Multiset.add_cons,Multiset.add_cons]

/-- Every run of the link is a run of the network. -/
theorem Stands.run (hne : p ≠ i) (hy : H.Stands P F x y) (h : L.Run x x') :
    ∃ y', N.RunWhere Network.Label.Unaltered y y' ∧ H.Stands P F x' y' := by
  induction h with
  | refl => exact ⟨y,.refl,hy⟩
  | tail _ hstep ih =>
    obtain ⟨y₁,hrun₁,hy₁⟩ := ih
    rcases hstep with hmove | hfault
    · obtain ⟨y₂,hrun₂,hy₂⟩ := hy₁.move hne
        (fun _ _ _ _ _ => trivial) (fun l hl => Network.Label.Calm.unaltered hl) hmove
      exact ⟨y₂,hrun₁.trans hrun₂,hy₂⟩
    · obtain ⟨y₂,hrun₂,hy₂⟩ := hy₁.fault hfault
      exact ⟨y₂,hrun₁.trans hrun₂,hy₂⟩

end Host

end Framework
