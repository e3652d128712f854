import ReliableTransfer.Endpoints.Transfers
import ReliableTransfer.Framework.Weights

/-!
# How many children a client gets

A client asks three times at most, and each of its requests is good for one child. Unless the
network duplicates a request no client ever has more children.
-/

namespace ReliableTransfer

open Framework

variable {ι : Type}

namespace Client

/-- How many requests the client may still send; one that is about to send one will. -/
def mayAsk (c : Client ι) : Nat :=
  match c.phase with
  | .asking ntry _ => retries - (ntry + 1) + 1
  | .awaiting ntry => retries - ntry
  | _ => 0

end Client

namespace Deployment

variable [DecidableEq ι] (d : Deployment ι) (i : ι)

abbrev Asks (m : Datagram ι (List UInt8)) : Prop := m.src = i ∧ m.dst = d.address

/-- The requests that `i` may still send, those in flight, and the children they have become. -/
def claims : Network.Weight ι (Process ι) (List UInt8) where
  party
    | _,.listener _ _ => 0
    | _,.child j _ => if j = i then 1 else 0
    | j,.client c => if j = i then c.mayAsk else 0
  datagram m := if d.Asks i m then 1 else 0

variable {d i} {x : NetworkState ι (Process ι) (List UInt8)}

theorem client_claims {j : ι} {c c' : Client ι} {e : ClientEvent ι} {out : List (ι × List UInt8)}
    (hx : d.claim.Holds x) (hj : x.parties j = some (.client c))
    (hread : ∀ m, Session.reads (.client e) = some m → ⟨m.1,j,m.2⟩ ∈ x.flight)
    (h : c.step d.order e = some (c',out)) :
    c'.mayAsk + (out.map fun m => (d.claims i).datagram ⟨j,m.1,m.2⟩).sum ≤ c.mayAsk := by
  have hfits := hx.party j _ hj
  cases Client.step_stepped h with
  | @requested ntry ntrys pack hphase hpack =>
    have hle : (d.claims i).datagram ⟨j,c.server,packetBytes pack⟩ ≤ 1 := by
      simp only [claims]
      split <;> simp
    simp only [Client.mayAsk,hphase,List.map_cons,List.map_nil,List.sum_cons,List.sum_nil]
    omega
  | unsent hphase hnext => rcases hnext with rfl | rfl <;> simp [Client.mayAsk,hphase]
  | silence hphase hnext =>
    rcases hnext with ⟨hlt,rfl⟩ | rfl
    · simp only [Client.mayAsk,hphase,List.map_nil,List.sum_nil]
      omega
    · simp [Client.mayAsk]
  | peeked => simp [Client.mayAsk]
  | @passed worker worker' peeked e buff wouldBlock arrival out hphase he hpass =>
    have harrival := passed_arrival hfits hphase (fun m hm => hx.datagram _ (hread m hm)) he
    have hnone : ∀ m ∈ out, (d.claims i).datagram ⟨j,m.1,m.2⟩ = 0 := by
      cases hfits with
      | client hne hserver hall =>
        obtain ⟨-,⟨file,hfile,hholds⟩,-⟩ := hall worker peeked hphase
        obtain ⟨-,acks,-,hout⟩ := pass_advance hholds (requested_small hfile)
          (fun p hp => (arrival_genuine hne hj hfile (harrival p hp)).2) hpass
        intro m hm
        obtain ⟨p,hp,a,-,rfl⟩ := hout m hm
        -- what the client answers goes to the child it comes from
        obtain ⟨w,hw⟩ := (arrival_genuine hne hj hfile (harrival p hp)).1
        cases hx.party p.1 _ hw with
        | child hnew => simp [claims,Asks,hnew]
    have hzero : (out.map fun m => (d.claims i).datagram ⟨j,m.1,m.2⟩).sum = 0 := by
      rw [List.sum_eq_zero_iff]
      intro n hn
      obtain ⟨m,hm,rfl⟩ := List.mem_map.mp hn
      exact hnone m hm
    rw [hzero]
    simp [Client.mayAsk]

theorem claims_conserved : (d.claims i).Conserved d.network d.claim where
  act := by
    intro x j s e o hx hj hread hreact
    have hfits := hx.party j s hj
    rw [Network.Weight.sum_outgoing]
    change Session.react d.order s e = some o at hreact
    unfold Session.react at hreact
    split at hreact
    · next server buff arrival port =>
      rcases Session.listen_cases hreact with
        ⟨running,rfl⟩ | ⟨src,bytes,pck,at_,feeder,rfl,-,-,rfl⟩
      · simp [claims]
      · cases hfits with
        | listener haddress =>
          -- the request is used up
          simp [claims,Asks,haddress,Network.incoming,Session.network,Session.reads]
    · next k w e buff wouldBlock arrival =>
      split at hreact
      · obtain ⟨⟨w',out⟩,hstep,rfl⟩ := Option.map_eq_some_iff.mp hreact
        cases hfits with
        | child hne hk =>
          cases hx.party k _ hk with
          | client hfar => simp [claims,Asks,hfar,Function.comp_def]
      · contradiction
    · next c e =>
      obtain ⟨⟨c',out⟩,hstep,rfl⟩ := Option.map_eq_some_iff.mp hreact
      by_cases hji : j = i
      · subst hji
        have hle := client_claims (i := j) hx hj hread hstep
        simp only [claims,if_true,Option.elim_none] at hle ⊢
        omega
      · simp [claims,Asks,hji]
    · contradiction
  alter := by
    rintro m m' (⟨-,-⟩ | ⟨-,-⟩) <;> simp [claims]

variable (d) in
theorem start_claims (S : Finset ι) : (d.claims i).total S d.start ≤ retries := by
  have hseat (j : ι) : (d.claims i).seat d.start.parties j ≤ if j = i then retries else 0 := by
    by_cases hja : j = d.address
    · simp [Network.Weight.seat,start,hja,claims]
    · cases hj : d.clients j with
      | none => simp [Network.Weight.seat,start,hja,hj]
      | some c =>
        have hphase := (d.asking j c hj).1
        simp [Network.Weight.seat,start,hja,hj,claims,Client.mayAsk,hphase,retries]
  have hsum : ∑ j ∈ S, (d.claims i).seat d.start.parties j ≤ retries := by
    refine (Finset.sum_le_sum fun j _ => hseat j).trans ?_
    rw [Finset.sum_ite_eq']
    split <;> simp
  simpa [Network.Weight.total,start] using hsum

/-- As long as the network duplicates nothing, the children of a client and its requests in
flight are never more than three together, whatever is lost and delayed. -/
theorem children_bounded (h : d.network.RunWhere Network.Label.Undoubled d.start x) (i : ι)
    (S : Finset ι) (hS : ∀ p ∈ S, ∃ w, x.parties p = some (.child i w)) :
    S.card + (x.flight.filter (d.Asks i)).card ≤ retries := by
  have htotal := claims_conserved.run d.claim_inductive d.start_holds d.start_claims h S
    (W := d.claims i)
  have hchildren : ∑ p ∈ S, (d.claims i).seat x.parties p = S.card := by
    rw [Finset.card_eq_sum_ones]
    refine Finset.sum_congr rfl fun p hp => ?_
    obtain ⟨w,hw⟩ := hS p hp
    simp [Network.Weight.seat,hw,claims]
  have hasked : (x.flight.map (d.claims i).datagram).sum = (x.flight.filter (d.Asks i)).card := by
    rw [← Multiset.countP_eq_card_filter]
    induction x.flight using Multiset.induction_on with
    | empty => simp
    | cons m F ih =>
      rw [Multiset.map_cons,Multiset.sum_cons,ih,Multiset.countP_cons,add_comm]
      rfl
  rw [Network.Weight.total,hchildren,hasked] at htotal
  exact htotal

theorem children_bounded_single : ∃ (d : Deployment ℕ) (x : NetworkState ℕ (Process ℕ) (List UInt8))
    (w : ServerWorker), d.network.RunWhere Network.Label.Undoubled d.start x ∧
      x.parties 2 = some (.child 1 w) ∧ 1 + (x.flight.filter (d.Asks 1)).card ≤ retries := by
  obtain ⟨x,s,k,hcalm,hx,-⟩ := complete_run (d := single .goBackN .waitAndStop 2) (i := 1) (p := 2)
    (c := ⟨.waitAndStop,[97],0,2,.asking 0 0⟩) .refl rfl rfl rfl (single_requested _ _ _) rfl
    single_modest
  have hrun : (single .goBackN .waitAndStop 2).network.RunWhere Network.Label.Undoubled _ x :=
    hcalm.weaken fun l hl => by
      cases l with
      | act i e => trivial
      | lose m => trivial
      | duplicate m => exact hl
      | alter m m' => trivial
  obtain ⟨_,hp,rfl⟩ := hx.server
  have hbound := children_bounded hrun 1 {2} fun p hp' => by
    rw [Finset.mem_singleton.mp hp']
    exact ⟨s,hp⟩
  exact ⟨_,x,s,hrun,hp,hbound⟩

end Deployment

end ReliableTransfer
