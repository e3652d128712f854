import Mathlib

/-!
# Parties at addresses

Parties that send datagrams to each other's addresses. The network may lose, duplicate, delay and
reorder them, and alter them within limits. A party that reacts to an event may start another one
under an address that nobody has used.
-/

namespace Framework

variable {ι σ ε β : Type*}

structure Datagram (ι β : Type*) where
  src : ι
  dst : ι
  load : β

structure Outcome (ι σ β : Type*) where
  state : σ
  /-- What it sends, and where to. -/
  sent : List (ι × β)
  /-- The party it starts, and where. -/
  started : Option (ι × σ)

structure Network (ι σ ε β : Type*) where
  react : σ → ε → Option (Outcome ι σ β)
  /-- The source and the contents of the datagram an event takes off the party's socket. -/
  reads : ε → Option (ι × β)
  alters : Datagram ι β → Datagram ι β → Prop

/-- Who sits where, and what is in flight. -/
structure NetworkState (ι σ β : Type*) where
  parties : ι → Option σ
  flight : Multiset (Datagram ι β)

namespace Network

inductive Label (ι ε β : Type*) where
  | act (i : ι) (e : ε)
  | lose (d : Datagram ι β)
  | duplicate (d : Datagram ι β)
  | alter (d d' : Datagram ι β)

def incoming (N : Network ι σ ε β) (i : ι) (e : ε) : Multiset (Datagram ι β) :=
  ((N.reads e).toList.map fun d => ⟨d.1,i,d.2⟩ : List (Datagram ι β))

def outgoing (i : ι) (o : Outcome ι σ β) : Multiset (Datagram ι β) :=
  (o.sent.map fun d => ⟨i,d.1,d.2⟩ : List (Datagram ι β))

def Later (grows : σ → σ → Prop) (P Q : ι → Option σ) : Prop :=
  ∀ i s, P i = some s → ∃ t, Q i = some t ∧ grows s t

/-- What holds of a party and of a datagram in flight, given who sits where. -/
structure Claim (ι σ β : Type*) where
  party : (ι → Option σ) → ι → σ → Prop
  datagram : (ι → Option σ) → Datagram ι β → Prop

structure Claim.Holds (C : Claim ι σ β) (x : NetworkState ι σ β) : Prop where
  party : ∀ i s, x.parties i = some s → C.party x.parties i s
  datagram : ∀ d ∈ x.flight, C.datagram x.parties d

/-- The claim holds of the party at `i` after its reaction, and of all that comes of it. -/
structure Claim.Kept (C : Claim ι σ β) (Q : ι → Option σ) (i : ι) (o : Outcome ι σ β) : Prop where
  party : C.party Q i o.state
  sent : ∀ d ∈ o.sent, C.datagram Q ⟨i,d.1,d.2⟩
  started : ∀ p ∈ o.started, C.party Q p.1 p.2

/-- A party may react like this in a state in which the claim holds. -/
structure Claim.Allows (C : Claim ι σ β) (N : Network ι σ ε β) (P : ι → Option σ) (i : ι) (s : σ)
    (e : ε) (o : Outcome ι σ β) : Prop where
  sits : P i = some s
  party : C.party P i s
  read : ∀ d, N.reads e = some d → C.datagram P ⟨d.1,i,d.2⟩
  reacts : N.react s e = some o
  unused : ∀ p ∈ o.started, P p.1 = none

/-- The obligations of a claim that each party can keep by itself, because the others only go on. -/
structure Inductive (N : Network ι σ ε β) (grows : σ → σ → Prop) (C : Claim ι σ β) : Prop where
  refl : ∀ s, grows s s
  trans : ∀ {s t u}, grows s t → grows t u → grows s u
  party : ∀ {P Q i s}, Later grows P Q → C.party P i s → C.party Q i s
  datagram : ∀ {P Q d}, Later grows P Q → C.datagram P d → C.datagram Q d
  alters : ∀ {P d d'}, N.alters d d' → C.datagram P d → C.datagram P d'
  grown : ∀ {P i s e o}, C.Allows N P i s e o → grows s o.state
  kept : ∀ {P Q i s e o}, C.Allows N P i s e o → Later grows P Q → Q i = some o.state →
    (∀ p ∈ o.started, Q p.1 = some p.2) → C.Kept Q i o

section Later

variable {N : Network ι σ ε β} {grows : σ → σ → Prop} {C : Claim ι σ β}

theorem Inductive.later_refl (hC : N.Inductive grows C) (P : ι → Option σ) : Later grows P P :=
  fun _ s hs => ⟨s,hs,hC.refl s⟩

theorem Inductive.later_trans (hC : N.Inductive grows C) {P Q R : ι → Option σ}
    (h : Later grows P Q) (h' : Later grows Q R) : Later grows P R := by
  intro i s hs
  obtain ⟨t,ht,hst⟩ := h i s hs
  obtain ⟨u,hu,htu⟩ := h' i t ht
  exact ⟨u,hu,hC.trans hst htu⟩

theorem Later.weaken {grows' : σ → σ → Prop} (hgrows : ∀ s t, grows s t → grows' s t)
    {P Q : ι → Option σ} (h : Later grows P Q) : Later grows' P Q := by
  intro i s hs
  obtain ⟨t,ht,hst⟩ := h i s hs
  exact ⟨t,ht,hgrows s t hst⟩

end Later

section And

def Claim.and (C D : Claim ι σ β) : Claim ι σ β where
  party P i s := C.party P i s ∧ D.party P i s
  datagram P d := C.datagram P d ∧ D.datagram P d

variable {N : Network ι σ ε β} {grows more : σ → σ → Prop} {C D : Claim ι σ β}

theorem Claim.Allows.left {P : ι → Option σ} {i : ι} {s : σ} {e : ε} {o : Outcome ι σ β}
    (h : (C.and D).Allows N P i s e o) : C.Allows N P i s e o :=
  ⟨h.sits,h.party.1,fun d hd => (h.read d hd).1,h.reacts,h.unused⟩

theorem Claim.Holds.and {x : NetworkState ι σ β} (hC : C.Holds x) (hD : D.Holds x) :
    (C.and D).Holds x :=
  ⟨fun i s hs => ⟨hC.party i s hs,hD.party i s hs⟩,fun d hd => ⟨hC.datagram d hd,hD.datagram d hd⟩⟩

theorem Inductive.and (hC : N.Inductive grows C) (refl : ∀ s, more s s)
    (trans : ∀ {s t u}, more s t → more t u → more s u)
    (party : ∀ {P Q i s}, Later more P Q → D.party P i s → D.party Q i s)
    (datagram : ∀ {P Q d}, Later more P Q → D.datagram P d → D.datagram Q d)
    (alters : ∀ {P d d'}, N.alters d d' → C.datagram P d → D.datagram P d → D.datagram P d')
    (grown : ∀ {P i s e o}, (C.and D).Allows N P i s e o → more s o.state)
    (kept : ∀ {P Q i s e o}, (C.and D).Allows N P i s e o → Later more P Q →
      Q i = some o.state → (∀ p ∈ o.started, Q p.1 = some p.2) → D.Kept Q i o) :
    N.Inductive (fun s t => grows s t ∧ more s t) (C.and D) where
  refl s := ⟨hC.refl s,refl s⟩
  trans h h' := ⟨hC.trans h.1 h'.1,trans h.2 h'.2⟩
  party h hs := ⟨hC.party (h.weaken fun _ _ => And.left) hs.1,
    party (h.weaken fun _ _ => And.right) hs.2⟩
  datagram h hd := ⟨hC.datagram (h.weaken fun _ _ => And.left) hd.1,
    datagram (h.weaken fun _ _ => And.right) hd.2⟩
  alters h hd := ⟨hC.alters h hd.1,alters h hd.1 hd.2⟩
  grown h := ⟨hC.grown h.left,grown h⟩
  kept h hlater hi hstarted := by
    obtain ⟨hp,hs,hstart⟩ := hC.kept h.left (hlater.weaken fun _ _ => And.left) hi hstarted
    obtain ⟨hp',hs',hstart'⟩ := kept h (hlater.weaken fun _ _ => And.right) hi hstarted
    exact ⟨⟨hp,hp'⟩,fun d hd => ⟨hs d hd,hs' d hd⟩,fun p hp => ⟨hstart p hp,hstart' p hp⟩⟩

end And

theorem unused_ne {P : ι → Option σ} {j : ι} {t : σ} {o : Outcome ι σ β}
    (hfresh : ∀ p ∈ o.started, P p.1 = none) {p : ι × σ} (hp : o.started = some p)
    (hj : P j = some t) : j ≠ p.1 := by
  rintro rfl
  rw [hfresh p hp] at hj
  contradiction

variable [DecidableEq ι]

def placed (P : ι → Option σ) (i : ι) (o : Outcome ι σ β) : ι → Option σ :=
  match o.started with
  | none => Function.update P i (some o.state)
  | some p => Function.update (Function.update P i (some o.state)) p.1 (some p.2)

variable (N : Network ι σ ε β)

inductive Step : Label ι ε β → NetworkState ι σ β → NetworkState ι σ β → Prop
  | act {P i s e o F} : P i = some s → N.react s e = some o → (∀ p ∈ o.started, P p.1 = none) →
      Step (.act i e) ⟨P,N.incoming i e + F⟩ ⟨placed P i o,F + outgoing i o⟩
  | lose {P d F} : Step (.lose d) ⟨P,d ::ₘ F⟩ ⟨P,F⟩
  | duplicate {P d F} : Step (.duplicate d) ⟨P,d ::ₘ F⟩ ⟨P,d ::ₘ d ::ₘ F⟩
  | alter {P d d' F} : N.alters d d' → Step (.alter d d') ⟨P,d ::ₘ F⟩ ⟨P,d' ::ₘ F⟩

def RunWhere (L : Label ι ε β → Prop) : NetworkState ι σ β → NetworkState ι σ β → Prop :=
  Relation.ReflTransGen fun x y => ∃ l, L l ∧ N.Step l x y

def Run : NetworkState ι σ β → NetworkState ι σ β → Prop := N.RunWhere fun _ => True

variable {N}

theorem RunWhere.run {L : Label ι ε β → Prop} {x y : NetworkState ι σ β}
    (h : N.RunWhere L x y) : N.Run x y := by
  induction h with
  | refl => exact .refl
  | tail _ hstep ih =>
    obtain ⟨l,-,hstep⟩ := hstep
    exact ih.tail ⟨l,trivial,hstep⟩

section Placed

variable {P : ι → Option σ} {i j : ι} {o : Outcome ι σ β} {s t : σ}

theorem placed_started {p : ι × σ} (h : o.started = some p) : placed P i o p.1 = some p.2 := by
  simp [placed,h]

theorem placed_self (hi : P i = some s) (hfresh : ∀ p ∈ o.started, P p.1 = none) :
    placed P i o i = some o.state := by
  cases hstart : o.started with
  | none => simp [placed,hstart]
  | some p => simp [placed,hstart,unused_ne hfresh hstart hi]

theorem placed_other (hfresh : ∀ p ∈ o.started, P p.1 = none) (hne : j ≠ i) (hj : P j = some t) :
    placed P i o j = some t := by
  cases hstart : o.started with
  | none => simp [placed,hstart,hne,hj]
  | some p => simp [placed,hstart,unused_ne hfresh hstart hj,hne,hj]

/-- Whoever sits somewhere has reacted, was started, or sat there before. -/
theorem placed_cases (h : placed P i o j = some t) :
    (j = i ∧ t = o.state) ∨ o.started = some (j,t) ∨ (j ≠ i ∧ P j = some t) := by
  have hbefore (h : Function.update P i (some o.state) j = some t) :
      (j = i ∧ t = o.state) ∨ (j ≠ i ∧ P j = some t) := by
    by_cases hj : j = i
    · subst hj
      rw [Function.update_self] at h
      exact Or.inl ⟨rfl,(Option.some.inj h).symm⟩
    · rw [Function.update_of_ne hj] at h
      exact Or.inr ⟨hj,h⟩
  cases hstart : o.started with
  | none =>
    simp only [placed,hstart] at h
    exact (hbefore h).imp_right Or.inr
  | some p =>
    simp only [placed,hstart] at h
    by_cases hj : j = p.1
    · subst hj
      rw [Function.update_self] at h
      exact Or.inr (Or.inl (by rw [← Option.some.inj h]))
    · rw [Function.update_of_ne hj] at h
      exact (hbefore h).imp_right Or.inr

end Placed

variable {grows : σ → σ → Prop} {C : Claim ι σ β} {x y : NetworkState ι σ β}

theorem Inductive.later_placed (hC : N.Inductive grows C) {P : ι → Option σ} {i : ι} {s : σ} {e : ε}
    {o : Outcome ι σ β} (h : C.Allows N P i s e o) : Later grows P (placed P i o) := by
  intro j t hj
  by_cases hne : j = i
  · subst hne
    obtain rfl := Option.some.inj (h.sits.symm.trans hj)
    exact ⟨o.state,placed_self h.sits h.unused,hC.grown h⟩
  · exact ⟨t,placed_other h.unused hne hj,hC.refl t⟩

theorem Inductive.step (hC : N.Inductive grows C) (hx : C.Holds x) {l : Label ι ε β}
    (h : N.Step l x y) : C.Holds y ∧ Later grows x.parties y.parties := by
  obtain ⟨hp,hd⟩ := hx
  cases h with
  | @act P i s e o F hi hreact hfresh =>
    have hread : ∀ d, N.reads e = some d → C.datagram P ⟨d.1,i,d.2⟩ := by
      intro d hreads
      refine hd _ (Multiset.mem_add.mpr (Or.inl ?_))
      simp [incoming,hreads]
    have hallows : C.Allows N P i s e o := ⟨hi,hp i s hi,hread,hreact,hfresh⟩
    have hlater := hC.later_placed hallows
    have hkept := hC.kept hallows hlater (placed_self hi hfresh) fun p hp => placed_started hp
    refine ⟨⟨fun j t hj => ?_,fun d hmem => ?_⟩,hlater⟩
    · rcases placed_cases hj with ⟨rfl,rfl⟩ | hstarted | ⟨-,hj⟩
      · exact hkept.party
      · exact hkept.started _ hstarted
      · exact hC.party hlater (hp j t hj)
    · rcases Multiset.mem_add.mp hmem with hmem | hmem
      · exact hC.datagram hlater (hd d (Multiset.mem_add.mpr (Or.inr hmem)))
      · obtain ⟨p,hp,rfl⟩ := List.mem_map.mp (Multiset.mem_coe.mp hmem)
        exact hkept.sent p hp
  | lose => exact ⟨⟨hp,fun d hm => hd d (Multiset.mem_cons_of_mem hm)⟩,hC.later_refl _⟩
  | duplicate =>
    refine ⟨⟨hp,fun d hm => hd d ?_⟩,hC.later_refl _⟩
    rcases Multiset.mem_cons.mp hm with rfl | hm
    · exact Multiset.mem_cons_self _ _
    · exact hm
  | alter halters =>
    refine ⟨⟨hp,fun d hm => ?_⟩,hC.later_refl _⟩
    rcases Multiset.mem_cons.mp hm with rfl | hm
    · exact hC.alters halters (hd _ (Multiset.mem_cons_self _ _))
    · exact hd d (Multiset.mem_cons_of_mem hm)

/-- An inductive claim that holds in a state holds in every state reached from it, and everybody
has only gone on. -/
theorem Inductive.run (hC : N.Inductive grows C) (hx : C.Holds x) (h : N.Run x y) :
    C.Holds y ∧ Later grows x.parties y.parties := by
  induction h with
  | refl => exact ⟨hx,hC.later_refl _⟩
  | tail _ hstep ih =>
    obtain ⟨l,-,hstep⟩ := hstep
    obtain ⟨hy,hlater⟩ := hC.step ih.1 hstep
    exact ⟨hy,hC.later_trans ih.2 hlater⟩

end Network

end Framework
