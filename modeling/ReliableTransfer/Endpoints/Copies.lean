import ReliableTransfer.Endpoints.Transfers
import ReliableTransfer.Workers.Overtaking

/-!
# What a session is for

Every client copies the file it has asked for, whoever else is served and whatever happens on the
way. What the success of a child says about its client depends on the two protocols.
-/

namespace ReliableTransfer

open Framework

variable {ι : Type}

def Client.output (c : Client ι) : List UInt8 :=
  match c.phase with
  | .receiving worker _ => worker.sink.writer.written
  | _ => List.nil

namespace Deployment

/-- The client has returned with the file it has asked for. -/
def Served (d : Deployment ι) (c : Client ι) : Prop :=
  ∃ file, d.requested c.filename = some file ∧ c.copy.closed = true ∧ c.output = file

variable [DecidableEq ι] {d : Deployment ι} {x y : NetworkState ι (Process ι) (List UInt8)}
  {p i : ι} {c : Client ι} {file : List UInt8}

theorem Reaches.output (hx : d.Reaches x) (hi : x.parties i = some (.client c))
    (hfile : d.requested c.filename = some file) :
    c.output <+: file ∧ (c.copy.closed = true → c.output = file) := by
  unfold Client.output Client.copy
  cases hphase : c.phase with
  | receiving worker peeked =>
    obtain ⟨-,file',hfile',hholds⟩ := hx.receiving hi hphase
    obtain rfl := Option.some.inj (hfile.symm.trans hfile')
    refine ⟨?_,hholds.written_all⟩
    simp only [FileWriter.written,hholds.fed.writer]
    exact List.take_prefix _ _
  | asking ntry ntrys => exact ⟨List.nil_prefix,fun h => absurd h Bool.false_ne_true⟩
  | awaiting ntry => exact ⟨List.nil_prefix,fun h => absurd h Bool.false_ne_true⟩
  | gaveUp => exact ⟨List.nil_prefix,fun h => absurd h Bool.false_ne_true⟩

theorem Reaches.unanswered (hx : d.Reaches x) (hi : x.parties i = some (.client c))
    (hnone : d.requested c.filename = none) : c.copy = .empty ∧ c.output = List.nil := by
  unfold Client.output Client.copy
  cases hphase : c.phase with
  | receiving worker peeked =>
    obtain ⟨-,file,hfile,-⟩ := hx.receiving hi hphase
    rw [hnone] at hfile
    contradiction
  | asking ntry ntrys => exact ⟨rfl,rfl⟩
  | awaiting ntry => exact ⟨rfl,rfl⟩
  | gaveUp => exact ⟨rfl,rfl⟩

/-- From any state of a session on, each client copies the packets of the file it has asked for, in
order and each once, and its output file is the beginning of that file until it is all of it. -/
theorem session_copies (hx : d.Reaches x) (hxy : d.network.Run x y)
    (hi : x.parties i = some (.client c)) :
    ∃ c', y.parties i = some (.client c') ∧ c'.filename = c.filename ∧
      (∀ file, d.requested c.filename = some file →
        Copy.Run (filePackets d.order file 0 (numSegments file)) c.copy c'.copy ∧
          c'.output <+: file ∧ (c'.copy.closed = true → c'.output = file)) ∧
      (d.requested c.filename = none → c'.copy = .empty ∧ c'.output = List.nil) := by
  have hy : d.Reaches y := hx.trans hxy
  have hlater := (d.claim_inductive.run hx.holds.1 hxy).2
  obtain ⟨c',hi',hon⟩ := later_client hlater hi
  refine ⟨c',hi',hon.filename,fun file hfile => ⟨hon.copy file hfile,?_⟩,fun hnone => ?_⟩
  · exact hy.output hi' (hon.filename ▸ hfile)
  · exact hy.unanswered hi' (hon.filename ▸ hnone)

theorem session_copies_single : ∃ (d : Deployment ℕ) (y : NetworkState ℕ (Process ℕ) (List UInt8))
    (c : Client ℕ), d.network.Run d.start y ∧ y.parties 1 = some (.client c) ∧
      Copy.Run (filePackets d.order [7] 0 1) .empty c.copy ∧ c.output <+: [7] := by
  obtain ⟨y,s,k,hrun,-⟩ := complete_run (d := single .waitAndStop .goBackN 2) (i := 1) (p := 2)
    (c := ⟨.goBackN,[97],0,2,.asking 0 0⟩) .refl rfl rfl rfl (single_requested _ _ _) rfl
    single_modest
  obtain ⟨c,hi,-,hfile,-⟩ := session_copies (d := single .waitAndStop .goBackN 2) (i := 1)
    (c := ⟨.goBackN,[97],0,2,.asking 0 0⟩) .refl hrun.run rfl
  obtain ⟨hcopy,houtput,-⟩ := hfile [7] (single_requested _ _ _)
  exact ⟨_,y,c,hrun.run,hi,hcopy,houtput⟩

theorem Reaches.served (hx : d.Reaches x) {w : ServerWorker}
    (hp : x.parties p = some (.child i w)) (hw : w.Succeeded) (hi : x.parties i = some (.client c))
    (hheeds : d.server.type.Heeds c.type) : d.Served c := by
  cases hx.holds.1.party p _ hp with
  | @child _ c' _ file hne hj hfile htype hgood hacked =>
    obtain rfl := Process.client.inj (Option.some.inj (hi.symm.trans hj))
    have hgot (n : UInt32) (hn : n.toNat ≤ numSegments file) : c.Got file n :=
      hacked hheeds n (hgood.all_acked hw hn)
    have hsmall := requested_small hfile
    have hzero := hgot 0 (Nat.zero_le _)
    cases hphase : c.phase with
    | receiving worker peeked =>
      obtain ⟨-,file',hfile',hholds⟩ := hx.receiving hi hphase
      obtain rfl := Option.some.inj (hfile.symm.trans hfile')
      simp only [Client.Got,hphase] at hgot
      have hclosed : c.copy.closed = true := by
        simp only [Client.copy,hphase,ClientWorker.copy]
        exact hholds.returned_of_got (by omega) hgot
      exact ⟨file,hfile,hclosed,(hx.output hi hfile).2 hclosed⟩
    | asking ntry ntrys => simp [Client.Got,hphase] at hzero
    | awaiting ntry => simp [Client.Got,hphase] at hzero
    | gaveUp => simp [Client.Got,hphase] at hzero

theorem single_overtaken {client : ProtoType} (h : ¬client.InOrder) :
    ∃ x w c, (single .goBackN client 2).Reaches x ∧ x.parties 2 = some (.child 1 w) ∧
      w.Succeeded ∧ x.parties 1 = some (.client c) ∧ c.type = client ∧ c.copy.closed = false := by
  obtain ⟨y,hopened,hy⟩ := open_run (d := single .goBackN client 2)
    (x := (single .goBackN client 2).start)
    (i := 1) (p := 2) (c := ⟨client,[97],0,2,.asking 0 0⟩) rfl rfl rfl rfl (single_requested _ _ _)
    rfl
  have hne := not_or.mp h
  obtain ⟨w,k,hrun,hw,hk⟩ := Pair.overtaken .little hne.1 hne.2 List.nil
  obtain ⟨x,hlifted,hx⟩ := hy.run (by decide) hrun
  obtain ⟨_,hchild,rfl⟩ := hx.server
  obtain ⟨_,hclient,phase,hruns,rfl⟩ := hx.client
  refine ⟨x,w,_,hopened.run.trans hlifted.run,hchild,hw,hclient,rfl,?_⟩
  cases hruns with
  | awaiting => rfl
  | receiving => exact hk

/-- The success of a child means that its client has been served, exactly if the server takes no
acknowledgement for more than the client says: a go-back-N server must have a client that takes
packets in order. -/
theorem success_means_served_iff (s t : ProtoType) :
    (∀ (ι : Type) (_ : DecidableEq ι) (d : Deployment ι) x p i w c, d.Reaches x →
      d.server.type = s → x.parties p = some (.child i w) → w.Succeeded →
      x.parties i = some (.client c) → c.type = t → d.Served c) ↔ s.Heeds t := by
  constructor
  · intro hall hs
    subst hs
    by_contra horder
    obtain ⟨x,w,c,hx,hp,hw,hi,htype,hopen⟩ := single_overtaken horder
    obtain ⟨-,-,hclosed,-⟩ := hall ℕ inferInstance _ x 2 1 w c hx rfl hp hw hi htype
    rw [hopen] at hclosed
    contradiction
  · rintro hheeds ι _ d x p i w c hx rfl hp hw hi rfl
    exact hx.served hp hw hi hheeds

end Deployment

end ReliableTransfer
