import Mathlib

/-!
# Two parties over an unreliable link

A server and a client that exchange datagrams over a link which may lose, duplicate, delay and
reorder them, but neither alters nor invents any. Both directions are multisets of datagrams in
flight. The server moves on events, each of which may take one datagram off its socket; the
client moves when a datagram reaches it.
-/

namespace Framework

variable {σ κ ε δ α : Type*}

structure Link (σ κ ε δ α : Type*) where
  /-- The server's reaction to an event: its next state and what it puts on the wire. -/
  serve : σ → ε → Option (σ × List δ)
  /-- The datagram an event takes off the server's socket. -/
  reads : ε → Option α
  /-- The client's reaction to a datagram. -/
  accept : κ → δ → Option (κ × List α)
  /-- Events in which nothing the server sends is lost. -/
  calm : ε → Prop

@[ext]
structure LinkState (σ κ δ α : Type*) where
  server : σ
  client : κ
  data : Multiset δ
  acks : Multiset α

namespace Link

variable (L : Link σ κ ε δ α)

/-- One party makes a move; the server only on events that satisfy `P`. -/
inductive Move (P : σ → ε → Prop) : LinkState σ κ δ α → LinkState σ κ δ α → Prop
  | serve {s s' k D A e out} : P s e → L.reads e = none → L.serve s e = some (s',out) →
      Move P ⟨s,k,D,A⟩ ⟨s',k,D + (out : Multiset δ),A⟩
  | read {s s' k D A e a out} : P s e → L.reads e = some a → L.serve s e = some (s',out) →
      Move P ⟨s,k,D,a ::ₘ A⟩ ⟨s',k,D + (out : Multiset δ),A⟩
  | accept {s k k' D A d out} : L.accept k d = some (k',out) →
      Move P ⟨s,k,d ::ₘ D,A⟩ ⟨s,k',D,A + (out : Multiset α)⟩

inductive Fault : LinkState σ κ δ α → LinkState σ κ δ α → Prop
  | loseData {s k d D A} : Fault ⟨s,k,d ::ₘ D,A⟩ ⟨s,k,D,A⟩
  | loseAck {s k D a A} : Fault ⟨s,k,D,a ::ₘ A⟩ ⟨s,k,D,A⟩
  | dupData {s k d D A} : Fault ⟨s,k,d ::ₘ D,A⟩ ⟨s,k,d ::ₘ d ::ₘ D,A⟩
  | dupAck {s k D a A} : Fault ⟨s,k,D,a ::ₘ A⟩ ⟨s,k,D,a ::ₘ a ::ₘ A⟩

def StepWhere (P : σ → ε → Prop) (x y : LinkState σ κ δ α) : Prop := L.Move P x y ∨ Fault x y

def RunWhere (P : σ → ε → Prop) : LinkState σ κ δ α → LinkState σ κ δ α → Prop :=
  Relation.ReflTransGen (L.StepWhere P)

def Run : LinkState σ κ δ α → LinkState σ κ δ α → Prop := L.RunWhere fun _ _ => True

/-- A run in which nothing is lost and nothing duplicated. -/
def CalmRun : LinkState σ κ δ α → LinkState σ κ δ α → Prop :=
  Relation.ReflTransGen (L.Move fun _ e => L.calm e)

/-- From `x` the system can get to `Q` without a loss if `P` holds, and not at all otherwise. -/
structure AttainableIff (x : LinkState σ κ δ α) (Q : LinkState σ κ δ α → Prop) (P : Prop) :
    Prop where
  attained : P → ∃ y, L.CalmRun x y ∧ Q y
  needed : ∀ y, L.Run x y → Q y → P

variable {L}

theorem Move.weaken {P Q : σ → ε → Prop} (hPQ : ∀ s e, P s e → Q s e)
    {x y : LinkState σ κ δ α} (h : L.Move P x y) : L.Move Q x y := by
  cases h with
  | serve hp hr hs => exact .serve (hPQ _ _ hp) hr hs
  | read hp hr hs => exact .read (hPQ _ _ hp) hr hs
  | accept ha => exact .accept ha

theorem CalmRun.runWhere {x y : LinkState σ κ δ α} (h : L.CalmRun x y) :
    L.RunWhere (fun _ e => L.calm e) x y := by
  induction h with
  | refl => exact .refl
  | tail _ hm ih => exact ih.tail (Or.inl hm)

theorem RunWhere.run {P : σ → ε → Prop} {x y : LinkState σ κ δ α} (h : L.RunWhere P x y) :
    L.Run x y := by
  induction h with
  | refl => exact .refl
  | tail _ hstep ih => exact ih.tail (hstep.imp (Move.weaken fun _ _ _ => trivial) id)

theorem CalmRun.run {x y : LinkState σ κ δ α} (h : L.CalmRun x y) : L.Run x y := h.runWhere.run

/-- What holds of the two parties, of every data packet in flight and of every acknowledgement
in flight. -/
structure Claim (σ κ δ α : Type*) where
  parties : σ → κ → Prop
  data : σ → κ → δ → Prop
  ack : σ → κ → α → Prop

structure Claim.Holds (C : Claim σ κ δ α) (x : LinkState σ κ δ α) : Prop where
  parties : C.parties x.server x.client
  data : ∀ d ∈ x.data, C.data x.server x.client d
  ack : ∀ a ∈ x.acks, C.ack x.server x.client a

def Claim.and (C D : Claim σ κ δ α) : Claim σ κ δ α where
  parties s k := C.parties s k ∧ D.parties s k
  data s k d := C.data s k d ∧ D.data s k d
  ack s k a := C.ack s k a ∧ D.ack s k a

structure Claim.Kept (C : Claim σ κ δ α) (s : σ) (k : κ) (s' : σ) (k' : κ) : Prop where
  parties : C.parties s' k'
  data : ∀ d, C.data s k d → C.data s' k' d
  ack : ∀ a, C.ack s k a → C.ack s' k' a

/-- The obligations of an inductive claim, one for each party. Losing and duplicating datagrams
preserve any claim of this form. -/
structure Inductive (L : Link σ κ ε δ α) (C : Claim σ κ δ α) : Prop where
  serve : ∀ {s s' k e out}, C.parties s k → (∀ a, L.reads e = some a → C.ack s k a) →
    L.serve s e = some (s',out) → C.Kept s k s' k ∧ ∀ d ∈ out, C.data s' k d
  accept : ∀ {s k k' d out}, C.parties s k → C.data s k d → L.accept k d = some (k',out) →
    C.Kept s k s k' ∧ ∀ a ∈ out, C.ack s k' a

theorem Claim.Kept.refl {C : Claim σ κ δ α} {s : σ} {k : κ} (h : C.parties s k) :
    C.Kept s k s k := ⟨h,fun _ h => h,fun _ h => h⟩

theorem Inductive.fault {C : Claim σ κ δ α} {x y : LinkState σ κ δ α} (hx : C.Holds x)
    (h : Fault x y) : C.Holds y := by
  obtain ⟨hp,hd,ha⟩ := hx
  cases h with
  | loseData => exact ⟨hp,fun _ hm => hd _ (Multiset.mem_cons_of_mem hm),ha⟩
  | loseAck => exact ⟨hp,hd,fun _ hm => ha _ (Multiset.mem_cons_of_mem hm)⟩
  | dupData =>
    refine ⟨hp,fun e hm => hd e ?_,ha⟩
    rcases Multiset.mem_cons.mp hm with rfl | hm
    · exact Multiset.mem_cons_self _ _
    · exact hm
  | dupAck =>
    refine ⟨hp,hd,fun e hm => ha e ?_⟩
    rcases Multiset.mem_cons.mp hm with rfl | hm
    · exact Multiset.mem_cons_self _ _
    · exact hm

theorem Inductive.move {C : Claim σ κ δ α} (hC : L.Inductive C) {P : σ → ε → Prop}
    {x y : LinkState σ κ δ α} (hx : C.Holds x) (h : L.Move P x y) : C.Holds y := by
  obtain ⟨hp,hd,ha⟩ := hx
  cases h with
  | serve _ hr hs =>
    obtain ⟨hk,hout⟩ := hC.serve hp (fun a he => by simp [hr] at he) hs
    refine ⟨hk.parties,fun d hm => ?_,fun a hm => hk.ack a (ha a hm)⟩
    rcases Multiset.mem_add.mp hm with hm | hm
    · exact hk.data d (hd d hm)
    · exact hout d (Multiset.mem_coe.mp hm)
  | read _ hr hs =>
    obtain ⟨hk,hout⟩ := hC.serve hp (fun a he => by
      obtain rfl := Option.some.inj (hr.symm.trans he)
      exact ha _ (Multiset.mem_cons_self _ _)) hs
    refine ⟨hk.parties,fun d hm => ?_,fun a hm => hk.ack a (ha a (Multiset.mem_cons_of_mem hm))⟩
    rcases Multiset.mem_add.mp hm with hm | hm
    · exact hk.data d (hd d hm)
    · exact hout d (Multiset.mem_coe.mp hm)
  | accept hacc =>
    obtain ⟨hk,hout⟩ := hC.accept hp (hd _ (Multiset.mem_cons_self _ _)) hacc
    refine ⟨hk.parties,fun d hm => hk.data d (hd d (Multiset.mem_cons_of_mem hm)),fun a hm => ?_⟩
    rcases Multiset.mem_add.mp hm with hm | hm
    · exact hk.ack a (ha a hm)
    · exact hout a (Multiset.mem_coe.mp hm)

/-- An inductive claim that holds in a state holds in every state reached from it, and so does
what the server's events preserve as long as they satisfy `P`. -/
theorem Inductive.runWhere {C : Claim σ κ δ α} (hC : L.Inductive C) {P : σ → ε → Prop}
    {J : σ → Prop} (serve : ∀ {s s' k e out}, P s e → C.parties s k →
      (∀ a, L.reads e = some a → C.ack s k a) → J s → L.serve s e = some (s',out) → J s')
    {x y : LinkState σ κ δ α} (hx : C.Holds x) (hJ : J x.server) (h : L.RunWhere P x y) :
    C.Holds y ∧ J y.server := by
  induction h with
  | refl => exact ⟨hx,hJ⟩
  | tail _ hstep ih =>
    obtain ⟨hC',hJ'⟩ := ih
    rcases hstep with hm | hf
    · refine ⟨hC.move hC' hm,?_⟩
      cases hm with
      | serve hP hr hs => exact serve hP hC'.parties (fun a he => by simp [hr] at he) hJ' hs
      | read hP hr hs =>
        refine serve hP hC'.parties (fun a he => ?_) hJ' hs
        obtain rfl := Option.some.inj (hr.symm.trans he)
        exact hC'.ack _ (Multiset.mem_cons_self _ _)
      | accept _ => exact hJ'
    · refine ⟨Inductive.fault hC' hf,?_⟩
      cases hf <;> exact hJ'

theorem Inductive.run {C : Claim σ κ δ α} (hC : L.Inductive C) {x y : LinkState σ κ δ α}
    (hx : C.Holds x) (h : L.Run x y) : C.Holds y :=
  (hC.runWhere (J := fun _ => True) (fun _ _ _ _ _ => trivial) hx trivial h).1

theorem Claim.Holds.and {C D : Claim σ κ δ α} {x : LinkState σ κ δ α} (hC : C.Holds x)
    (hD : D.Holds x) : (C.and D).Holds x :=
  ⟨⟨hC.parties,hD.parties⟩,fun d hm => ⟨hC.data d hm,hD.data d hm⟩,
    fun a hm => ⟨hC.ack a hm,hD.ack a hm⟩⟩

/-- A claim `D` that is inductive as long as the inductive claim `C` holds. -/
theorem Inductive.and {C D : Claim σ κ δ α} (hC : L.Inductive C)
    (serve : ∀ {s s' k e out}, C.parties s k → D.parties s k →
      (∀ a, L.reads e = some a → C.ack s k a ∧ D.ack s k a) →
      L.serve s e = some (s',out) → D.Kept s k s' k ∧ ∀ d ∈ out, D.data s' k d)
    (accept : ∀ {s k k' d out}, C.parties s k → D.parties s k → C.data s k d → D.data s k d →
      L.accept k d = some (k',out) → D.Kept s k s k' ∧ ∀ a ∈ out, D.ack s k' a) :
    L.Inductive (C.and D) where
  serve := by
    intro s s' k e out hp ha hs
    obtain ⟨hkC,houtC⟩ := hC.serve hp.1 (fun a he => (ha a he).1) hs
    obtain ⟨hkD,houtD⟩ := serve hp.1 hp.2 ha hs
    exact ⟨⟨⟨hkC.parties,hkD.parties⟩,fun d hd => ⟨hkC.data d hd.1,hkD.data d hd.2⟩,
      fun a ha => ⟨hkC.ack a ha.1,hkD.ack a ha.2⟩⟩,fun d hd => ⟨houtC d hd,houtD d hd⟩⟩
  accept := by
    intro s k k' d out hp hd hacc
    obtain ⟨hkC,houtC⟩ := hC.accept hp.1 hd.1 hacc
    obtain ⟨hkD,houtD⟩ := accept hp.1 hp.2 hd.1 hd.2 hacc
    exact ⟨⟨⟨hkC.parties,hkD.parties⟩,fun d hd => ⟨hkC.data d hd.1,hkD.data d hd.2⟩,
      fun a ha => ⟨hkC.ack a ha.1,hkD.ack a ha.2⟩⟩,fun a ha => ⟨houtC a ha,houtD a ha⟩⟩

theorem CalmRun.serve {s s' : σ} {k : κ} {D : Multiset δ} {A : Multiset α} {e : ε} {out : List δ}
    (hcalm : L.calm e) (hr : L.reads e = none) (hs : L.serve s e = some (s',out)) :
    L.CalmRun ⟨s,k,D,A⟩ ⟨s',k,D + (out : Multiset δ),A⟩ :=
  .single (.serve hcalm hr hs)

theorem CalmRun.read {s s' : σ} {k : κ} {D : Multiset δ} {A : Multiset α} {e : ε} {a : α}
    {out : List δ} (ha : a ∈ A) (hcalm : L.calm e) (hr : L.reads e = some a)
    (hs : L.serve s e = some (s',out)) :
    ∃ A', A = a ::ₘ A' ∧ L.CalmRun ⟨s,k,D,A⟩ ⟨s',k,D + (out : Multiset δ),A'⟩ := by
  obtain ⟨A',rfl⟩ := Multiset.exists_cons_of_mem ha
  exact ⟨A',rfl,.single (.read hcalm hr hs)⟩

theorem CalmRun.accept {s : σ} {k k' : κ} {D : Multiset δ} {A : Multiset α} {d : δ}
    {out : List α} (hd : d ∈ D) (hacc : L.accept k d = some (k',out)) :
    ∃ D', D = d ::ₘ D' ∧ L.CalmRun ⟨s,k,D,A⟩ ⟨s,k',D',A + (out : Multiset α)⟩ := by
  obtain ⟨D',rfl⟩ := Multiset.exists_cons_of_mem hd
  exact ⟨D',rfl,.single (.accept hacc)⟩

theorem CalmRun.keeps {J : σ → Prop}
    (hJ : ∀ {s s' e out}, L.calm e → L.serve s e = some (s',out) → J s → J s')
    {x y : LinkState σ κ δ α} (h : L.CalmRun x y) (hx : J x.server) : J y.server := by
  induction h with
  | refl => exact hx
  | tail _ hmove ih =>
    cases hmove with
    | serve hcalm _ hs => exact hJ hcalm hs ih
    | read hcalm _ hs => exact hJ hcalm hs ih
    | accept _ => exact ih

/-- Whoever can always get higher without a loss, and not higher than `bound`, gets to `Q`. -/
theorem CalmRun.climb {I Q : LinkState σ κ δ α → Prop} (rank : LinkState σ κ δ α → Nat)
    (bound : Nat) (hbound : ∀ x, I x → rank x ≤ bound)
    (hstep : ∀ x, I x → ¬Q x → ∃ y, L.CalmRun x y ∧ I y ∧ (Q y ∨ rank x < rank y))
    {x : LinkState σ κ δ α} (hx : I x) : ∃ y, L.CalmRun x y ∧ Q y := by
  induction hrest : bound - rank x using Nat.strong_induction_on generalizing x with
  | _ rest ih =>
    by_cases hQ : Q x
    · exact ⟨x,.refl,hQ⟩
    · obtain ⟨y,hrun,hy,hQ' | hlt⟩ := hstep x hx hQ
      · exact ⟨y,hrun,hQ'⟩
      · have hle := hbound y hy
        obtain ⟨z,hrun',hz⟩ := ih (bound - rank y) (by omega) hy rfl
        exact ⟨z,hrun.trans hrun',hz⟩

section RunWhere

variable {P : σ → ε → Prop} {x : LinkState σ κ δ α} {s s' : σ} {k k' : κ} {D : Multiset δ}
  {A : Multiset α} {d : δ} {a : α}

theorem RunWhere.serve {out : List δ} (h : L.RunWhere P x ⟨s,k,D,A⟩) (e : ε) (hP : P s e)
    (hr : L.reads e = none) (hs : L.serve s e = some (s',out)) :
    L.RunWhere P x ⟨s',k,D + (out : Multiset δ),A⟩ :=
  h.tail (Or.inl (.serve hP hr hs))

theorem RunWhere.read {out : List δ} (h : L.RunWhere P x ⟨s,k,D,a ::ₘ A⟩) (e : ε) (hP : P s e)
    (hr : L.reads e = some a) (hs : L.serve s e = some (s',out)) :
    L.RunWhere P x ⟨s',k,D + (out : Multiset δ),A⟩ :=
  h.tail (Or.inl (.read hP hr hs))

theorem RunWhere.accept {out : List α} (h : L.RunWhere P x ⟨s,k,d ::ₘ D,A⟩)
    (hacc : L.accept k d = some (k',out)) : L.RunWhere P x ⟨s,k',D,A + (out : Multiset α)⟩ :=
  h.tail (Or.inl (.accept hacc))

theorem RunWhere.loseData (h : L.RunWhere P x ⟨s,k,d ::ₘ D,A⟩) : L.RunWhere P x ⟨s,k,D,A⟩ :=
  h.tail (Or.inr .loseData)

theorem RunWhere.dupData (h : L.RunWhere P x ⟨s,k,d ::ₘ D,A⟩) :
    L.RunWhere P x ⟨s,k,d ::ₘ d ::ₘ D,A⟩ :=
  h.tail (Or.inr .dupData)

theorem RunWhere.loseAck (h : L.RunWhere P x ⟨s,k,D,a ::ₘ A⟩) : L.RunWhere P x ⟨s,k,D,A⟩ :=
  h.tail (Or.inr .loseAck)

theorem RunWhere.dupAck (h : L.RunWhere P x ⟨s,k,D,a ::ₘ A⟩) :
    L.RunWhere P x ⟨s,k,D,a ::ₘ a ::ₘ A⟩ :=
  h.tail (Or.inr .dupAck)

end RunWhere

end Link

end Framework
