import ReliableTransfer.Workers.SelectiveRepeat.Runs

/-!
# The order of acknowledgements

Acknowledgements of distinct outstanding packets leave the same containers in whatever order they
are read. Only the window test can get in the way: the end of the window is a 32-bit sum, and a
window that wraps around at its base refuses everything.
-/

namespace ReliableTransfer

open Framework

namespace RepeatServer

variable {γ : Type} {order : ByteOrder} {file : List UInt8} {h : RepeatHooks γ}

/-- `receive_ack` for one datagram after the other. -/
def receiveAcks (h : RepeatHooks γ) : List AckEnv → RepeatServer γ → Option (RepeatServer γ)
  | [],s => some s
  | env :: envs,s => (s.receiveAck h env).bind fun (_,s) => receiveAcks h envs s

def Brings (env : AckEnv) (i : UInt32) : Prop :=
  env.hasData = true ∧ ∃ a, env.recv = .ok a ∧ verifyChecksumAck a = true ∧ a.ackno = i

abbrev Delivers : List AckEnv → List UInt32 → Prop := List.Forall₂ Brings

theorem receiveAcks_append (envs envs' : List AckEnv) (s : RepeatServer γ) :
    receiveAcks h (envs ++ envs') s = (receiveAcks h envs s).bind (receiveAcks h envs') := by
  induction envs generalizing s with
  | nil => rfl
  | cons env envs ih =>
    rw [List.cons_append,receiveAcks,receiveAcks]
    cases s.receiveAck h env with
    | none => rfl
    | some r => exact ih r.2

/-- The containers, as far as a reader of the code can tell them apart. -/
structure Alike (s s' : RepeatServer γ) : Prop where
  baseSeqNo : s.baseSeqNo = s'.baseSeqNo
  acks : s.acks = s'.acks
  seqnumsSent : s.seqnumsSent = s'.seqnumsSent
  dataSent : s.dataSent = s'.dataSent
  sendOrder : s.sendOrder.values = s'.sendOrder.values

/-- The least number below `seq_no` that is acknowledged neither in `s` nor by one of `numbers`, or
`seq_no`. -/
structure LeastUnacked (s : RepeatServer γ) (numbers : List UInt32) (base : UInt32) : Prop where
  le_seqNo : base.toNat ≤ s.seqNo.toNat
  below : ∀ j : UInt32, s.Outstanding j → j ∉ numbers → base.toNat ≤ j.toNat
  unacked : base.toNat < s.seqNo.toNat → s.Outstanding base ∧ base ∉ numbers

theorem LeastUnacked.unique {s : RepeatServer γ} {numbers numbers' : List UInt32} {b b' : UInt32}
    (hb : s.LeastUnacked numbers b) (hb' : s.LeastUnacked numbers' b')
    (hsame : ∀ j, j ∈ numbers ↔ j ∈ numbers') : b = b' := by
  apply UInt32.toNat_inj.mp
  have hle := hb.le_seqNo
  have hle' := hb'.le_seqNo
  rcases Nat.lt_trichotomy b.toNat b'.toNat with hlt | heq | hgt
  · obtain ⟨hout,hnot⟩ := hb.unacked (by omega)
    have := hb'.below b hout ((hsame b).not.mp hnot)
    omega
  · exact heq
  · obtain ⟨hout,hnot⟩ := hb'.unacked (by omega)
    have := hb.below b' hout ((hsame b').not.mpr hnot)
    omega

/-- Exactly `numbers` have been taken off the containers. -/
structure Cleared (order : ByteOrder) (file : List UInt8) (numbers : List UInt32)
    (s s' : RepeatServer γ) : Prop where
  inStep : s'.InStep order file
  seqNo : s'.seqNo = s.seqNo
  outstanding : ∀ j, s'.Outstanding j ↔ s.Outstanding j ∧ j ∉ numbers
  seqnumsSent : ∀ j, s'.seqnumsSent[j]? = if j ∈ numbers then none else s.seqnumsSent[j]?
  sendOrder : s'.sendOrder.values = s.sendOrder.values.filter (· ∉ numbers)

variable {s s' : RepeatServer γ} {numbers : List UInt32}

theorem Cleared.refl (hs : s.InStep order file) : Cleared order file List.nil s s :=
  ⟨hs,rfl,by simp,by simp,by simp⟩

theorem Cleared.trans {t : RepeatServer γ} {numbers' : List UInt32}
    (h₁ : Cleared order file numbers s t) (h₂ : Cleared order file numbers' t s') :
    Cleared order file (numbers ++ numbers') s s' where
  inStep := h₂.inStep
  seqNo := h₂.seqNo.trans h₁.seqNo
  outstanding j := by
    rw [h₂.outstanding,h₁.outstanding,List.mem_append,not_or,and_assoc]
  seqnumsSent j := by
    rw [h₂.seqnumsSent,h₁.seqnumsSent]
    by_cases hj : j ∈ numbers <;> by_cases hj' : j ∈ numbers' <;> simp [hj,hj']
  sendOrder := by
    rw [h₂.sendOrder,h₁.sendOrder,List.filter_filter]
    apply List.filter_congr
    intro j _
    simp [Bool.and_comm]

theorem Cleared.leastUnacked (hc : Cleared order file numbers s s') :
    s.LeastUnacked numbers s'.baseSeqNo where
  le_seqNo := hc.seqNo ▸ hc.inStep.base_le
  below j hj hnot := ((hc.outstanding j).mpr ⟨hj,hnot⟩).1
  unacked hlt := (hc.outstanding _).mp (hc.inStep.base_outstanding (hc.seqNo ▸ hlt))

theorem InStep.mem_acks (hs : s.InStep order file) (i : UInt32) :
    i ∈ s.acks ↔ s.baseSeqNo.toNat ≤ i.toNat ∧ i.toNat < s.seqNo.toNat ∧ ¬s.Outstanding i := by
  constructor
  · intro hi
    obtain ⟨hlo,hhi⟩ := hs.acks i hi
    exact ⟨hlo.le,hhi,fun hout => hout.2.2 hi⟩
  · rintro ⟨hlo,hhi,hnot⟩
    by_contra hi
    exact hnot ⟨hlo,hhi,hi⟩

/-- All containers follow from the set of the numbers taken off. -/
theorem Cleared.alike {t : RepeatServer γ} {numbers' : List UInt32}
    (hc : Cleared order file numbers s s') (ht : Cleared order file numbers' s t)
    (hsame : ∀ j, j ∈ numbers ↔ j ∈ numbers') : Alike s' t := by
  have hbase := hc.leastUnacked.unique ht.leastUnacked hsame
  have hout (j : UInt32) : s'.Outstanding j ↔ t.Outstanding j := by
    rw [hc.outstanding,ht.outstanding,hsame]
  refine ⟨hbase,?_,?_,?_,?_⟩
  · ext i
    rw [hc.inStep.mem_acks,ht.inStep.mem_acks,hbase,hc.seqNo,ht.seqNo,hout]
  · refine Std.ExtTreeMap.ext_getElem? fun i => ?_
    simp only [hc.seqnumsSent,ht.seqnumsSent,hsame]
  · refine Std.ExtTreeMap.ext_getElem? fun i => Option.ext fun p => ?_
    rw [hc.inStep.dataSent,ht.inStep.dataSent,hout]
  · rw [hc.sendOrder,ht.sendOrder]
    apply List.filter_congr
    intro j _
    simp [hsame]

theorem InStep.touch_eq (hs : s.InStep order file) {i : UInt32} (hi : s.Outstanding i)
    (stray : UInt32) : s.touch stray = s := by
  rcases hs.front stray with ⟨hnil,-⟩ | hout
  · have hmem := (hs.mem_order i).mpr hi
    rw [hnil] at hmem
    simp at hmem
  · exact touch_of_mem (hs.mem_seqnumsSent hout)

theorem Brings.answer {env : AckEnv} {i : UInt32} (hb : Brings env i) (sendTime : Timeval) :
    ∃ a, env.answer sendTime = .ok a ∧ verifyChecksumAck a = true ∧ a.ackno = i := by
  obtain ⟨hdata,a,ha,hsum,hnum⟩ := hb
  exact ⟨a,by simp [AckEnv.answer,AckEnv.armed,hdata,ha],hsum,hnum⟩

def InWindow (h : RepeatHooks γ) (s : RepeatServer γ) (i : UInt32) : Prop :=
  i < s.baseSeqNo + h.window s.ctl

theorem InStep.receiveAck_brings (hs : s.InStep order file) {env : AckEnv} {i : UInt32}
    (hi : s.Outstanding i) (hb : Brings env i) (hwin : s.InWindow h i) :
    ∃ s', s.receiveAck h env = some (true,s') ∧ Cleared order file [i] s s' ∧
      s'.ctl = h.afterAck (h.onAck s.ctl) := by
  obtain ⟨a,hanswer,hsum,rfl⟩ := hb.answer (s.seqnumsSent.getD (s.front env.stray) ⟨0,0⟩)
  have htouch := hs.touch_eq hi env.stray
  have htakes : s.Takes h env a := by
    refine ⟨hanswer,hsum,⟨UInt32.le_iff_toNat_le.mpr hi.1,hwin⟩,?_⟩
    rw [htouch]
    exact hs.mem_seqnumsSent hi
  obtain ⟨s',hrun,hack⟩ := hs.acknowledge h hi
  obtain ⟨htimes,hvalues⟩ := hs.acknowledge_order hrun
  refine ⟨s',by rw [htakes.receiveAck,htouch,hrun]; rfl,⟨hack.inStep,hack.seqNo,?_,?_,?_⟩,hack.ctl⟩
  · intro j
    rw [hack.outstanding,List.mem_singleton]
  · intro j
    rw [htimes,Std.ExtTreeMap.getElem?_erase]
    simp only [Std.compare_eq_iff_eq,List.mem_singleton]
    by_cases heq : j = a.ackno
    · simp [heq]
    · simp [heq,eq_comm]
  · rw [hvalues,hs.nodup.erase_eq_filter]
    apply List.filter_congr
    intro j _
    by_cases heq : j = a.ackno <;> simp [heq]

theorem InStep.receiveAck_refuses (hs : s.InStep order file) {env : AckEnv} {i : UInt32}
    (hi : s.Outstanding i) (hb : Brings env i) (hwin : ¬s.InWindow h i) :
    s.receiveAck h env = some (false,s) := by
  obtain ⟨a,hanswer,hsum,rfl⟩ := hb.answer (s.seqnumsSent.getD (s.front env.stray) ⟨0,0⟩)
  have hacc : ¬s.Acceptable h a := fun hacc => hwin hacc.2
  simp only [RepeatServer.receiveAck,hanswer,hs.touch_eq hi]
  rw [if_neg fun htest => hacc htest.2]

end RepeatServer

namespace SelectiveRepeat

open RepeatServer

/-- The containers are in step, and the window spans what is outstanding. -/
structure Held (order : ByteOrder) (file : List UInt8) (window : UInt32)
    (s : SelectiveRepeatServer) : Prop where
  inStep : s.InStep order file
  ctl : s.ctl = window
  seqNo_le : s.seqNo.toNat ≤ s.baseSeqNo.toNat + window.toNat

variable {order : ByteOrder} {file : List UInt8} {window : UInt32} {s s' : SelectiveRepeatServer}
  {numbers : List UInt32} {envs : List AckEnv}

theorem Held.inWindow_iff (hs : Held order file window s) {i : UInt32} (hi : s.Outstanding i) :
    s.InWindow hooks i ↔ s.baseSeqNo.toNat + window.toNat < 2^32 := by
  obtain ⟨hlo,hhi,-⟩ := hi
  have hspan := hs.seqNo_le
  have hbase := s.baseSeqNo.toNat_lt
  have hwindow := window.toNat_lt
  change i < s.baseSeqNo + s.ctl ↔ _
  rw [hs.ctl,UInt32.lt_iff_toNat_lt,UInt32.toNat_add]
  omega

theorem Held.cleared (hs : Held order file window s) (hc : Cleared order file numbers s s')
    (hctl : s'.ctl = s.ctl) : Held order file window s' := by
  refine ⟨hc.inStep,hctl.trans hs.ctl,?_⟩
  have hspan := hs.seqNo_le
  have hleast := hc.leastUnacked
  rw [hc.seqNo]
  by_cases hlt : s'.baseSeqNo.toNat < s.seqNo.toNat
  · have hbase := (hleast.unacked hlt).1.1
    omega
  · omega

/-- Reading `numbers` never brings the base to where the window wraps around, before all of them
have been read. -/
def Room (window : UInt32) (s : SelectiveRepeatServer) (numbers : List UInt32) : Prop :=
  (∀ i ∈ numbers, i.toNat + window.toNat < 2^32) ∨
    ∃ j : UInt32, s.baseSeqNo.toNat ≤ j.toNat ∧ j.toNat + window.toNat < 2^32 ∧ j ∉ s.acks ∧
      j ∉ numbers

theorem Room.head {i : UInt32} (hroom : Room window s (i :: numbers)) (hi : s.Outstanding i) :
    s.baseSeqNo.toNat + window.toNat < 2^32 := by
  rcases hroom with hnear | ⟨j,hj,hfits,-⟩
  · have hfits := hnear i List.mem_cons_self
    have hlo := hi.1
    omega
  · omega

theorem Room.tail {i : UInt32} (hroom : Room window s (i :: numbers))
    (hc : Cleared order file [i] s s') : Room window s' numbers := by
  rcases hroom with hnear | ⟨j,hj,hfits,hack,hnot⟩
  · exact Or.inl fun k hk => hnear k (List.mem_cons_of_mem _ hk)
  · right
    have hnot' : j ∉ numbers := fun hmem => hnot (List.mem_cons_of_mem _ hmem)
    by_cases hlt : j.toNat < s.seqNo.toNat
    · have hout : s'.Outstanding j := (hc.outstanding j).mpr ⟨⟨hj,hlt,hack⟩,by
        rw [List.mem_singleton]
        rintro rfl
        exact hnot List.mem_cons_self⟩
      exact ⟨j,hout.1,hfits,hout.2.2,hnot'⟩
    · have hbase := hc.leastUnacked.le_seqNo
      refine ⟨j,by omega,hfits,fun hmem => ?_,hnot'⟩
      have hhi := (hc.inStep.acks j hmem).2
      rw [hc.seqNo] at hhi
      omega

theorem Held.receiveAcks (hs : Held order file window s) (hd : Delivers envs numbers)
    (hn : numbers.Nodup) (hout : ∀ i ∈ numbers, s.Outstanding i) (hroom : Room window s numbers) :
    ∃ s', receiveAcks hooks envs s = some s' ∧ Cleared order file numbers s s' ∧ s'.ctl = s.ctl := by
  induction hd generalizing s with
  | nil => exact ⟨s,rfl,.refl hs.inStep,rfl⟩
  | @cons env i envs numbers hb _ ih =>
    have hi := hout i List.mem_cons_self
    obtain ⟨hnot,hn⟩ := List.nodup_cons.mp hn
    obtain ⟨s₁,hrun,hc,hctl⟩ := hs.inStep.receiveAck_brings hi hb
      ((hs.inWindow_iff hi).mpr (hroom.head hi))
    have hout' : ∀ j ∈ numbers, s₁.Outstanding j := by
      intro j hj
      refine (hc.outstanding j).mpr ⟨hout j (List.mem_cons_of_mem _ hj),?_⟩
      rw [List.mem_singleton]
      rintro rfl
      exact hnot hj
    obtain ⟨s',hrest,hc',hctl'⟩ := ih (hs.cleared hc hctl) hn hout' (hroom.tail hc)
    refine ⟨s',?_,hc.trans hc',hctl'.trans hctl⟩
    rw [RepeatServer.receiveAcks,hrun]
    exact hrest

theorem Held.receiveAcks_refused (hs : Held order file window s) (hd : Delivers envs numbers)
    (hout : ∀ i ∈ numbers, s.Outstanding i) (hdeaf : 2^32 ≤ s.baseSeqNo.toNat + window.toNat) :
    RepeatServer.receiveAcks hooks envs s = some s := by
  induction hd with
  | nil => rfl
  | cons hb _ ih =>
    have hi := hout _ List.mem_cons_self
    have hwin := (hs.inWindow_iff hi).not.mpr (not_lt.mpr hdeaf)
    rw [RepeatServer.receiveAcks,hs.inStep.receiveAck_refuses hi hb hwin]
    exact ih fun j hj => hout j (List.mem_cons_of_mem _ hj)

/-- Acknowledgements of `numbers` lead to the same containers and to the right base, whatever
their order and whatever the clock says. -/
def OrderFree (s : SelectiveRepeatServer) (numbers : List UInt32) : Prop :=
  ∀ l l' envs envs', l.Perm numbers → l'.Perm numbers → Delivers envs l → Delivers envs' l' →
    ∃ t t', RepeatServer.receiveAcks hooks envs s = some t ∧
      RepeatServer.receiveAcks hooks envs' s = some t' ∧ Alike t t' ∧
      s.LeastUnacked numbers t.baseSeqNo

/-- The end of the window does not wrap around while acknowledgements of `numbers` are still to be
read, or it wraps around from the beginning and the base is none of them. -/
def Unwrapped (window : UInt32) (s : SelectiveRepeatServer) (numbers : List UInt32) : Prop :=
  Room window s numbers ∨ (2^32 ≤ s.baseSeqNo.toNat + window.toNat ∧ s.baseSeqNo ∉ numbers)

theorem Room.perm {l : List UInt32} (hroom : Room window s numbers) (hperm : l.Perm numbers) :
    Room window s l := by
  rcases hroom with hnear | ⟨j,hj,hfits,hack,hnot⟩
  · exact Or.inl fun i hi => hnear i (hperm.mem_iff.mp hi)
  · exact Or.inr ⟨j,hj,hfits,hack,fun hmem => hnot (hperm.mem_iff.mp hmem)⟩

theorem Held.orderFree (hs : Held order file window s) (hn : numbers.Nodup)
    (hout : ∀ i ∈ numbers, s.Outstanding i) (hcond : Unwrapped window s numbers) :
    OrderFree s numbers := by
  intro l l' envs envs' hl hl' hd hd'
  have hin {k : List UInt32} (hk : k.Perm numbers) : ∀ i ∈ k, s.Outstanding i :=
    fun i hi => hout i (hk.mem_iff.mp hi)
  rcases hcond with hroom | ⟨hdeaf,hbase⟩
  · obtain ⟨t,ht,hc,-⟩ := hs.receiveAcks hd (hl.nodup_iff.mpr hn) (hin hl) (hroom.perm hl)
    obtain ⟨t',ht',hc',-⟩ := hs.receiveAcks hd' (hl'.nodup_iff.mpr hn) (hin hl') (hroom.perm hl')
    have hleast := hc.leastUnacked
    refine ⟨t,t',ht,ht',hc.alike hc' fun j => hl.mem_iff.trans hl'.mem_iff.symm,
      ⟨hleast.le_seqNo,fun j hj hnot => hleast.below j hj (hl.mem_iff.not.mpr hnot),fun hlt => ?_⟩⟩
    obtain ⟨hj,hnot⟩ := hleast.unacked hlt
    exact ⟨hj,hl.mem_iff.not.mp hnot⟩
  · refine ⟨s,s,hs.receiveAcks_refused hd (hin hl) hdeaf,
      hs.receiveAcks_refused hd' (hin hl') hdeaf,⟨rfl,rfl,rfl,rfl,rfl⟩,?_⟩
    exact ⟨hs.inStep.base_le,fun j hj _ => hj.1,fun hlt => ⟨hs.inStep.base_outstanding hlt,hbase⟩⟩

def arrivals (numbers : List UInt32) : List AckEnv :=
  numbers.map fun i => arrival ⟨0,0⟩ (createAckPacket i)

theorem delivers_arrivals (numbers : List UInt32) : Delivers (arrivals numbers) numbers := by
  induction numbers with
  | nil => exact .nil
  | cons i numbers ih =>
    exact .cons ⟨rfl,_,rfl,verifyChecksumAck_createAckPacket i,rfl⟩ ih

theorem receiveAcks_arrivals {near far : List UInt32} {t : SelectiveRepeatServer}
    (hrun : RepeatServer.receiveAcks hooks (arrivals near) s = some t) :
    RepeatServer.receiveAcks hooks (arrivals (near ++ far)) s =
      RepeatServer.receiveAcks hooks (arrivals far) t := by
  have happend : arrivals (near ++ far) = arrivals near ++ arrivals far := List.map_append
  rw [happend,receiveAcks_append,hrun,Option.bind_some]

theorem Held.far_refused (hs : Held order file window s) {near far : List UInt32}
    (hn : (near ++ far).Nodup) (hout : ∀ i ∈ near ++ far, s.Outstanding i)
    (hnear : ∀ i ∈ near, i.toNat + window.toNat < 2^32)
    (hall : ∀ j : UInt32, s.baseSeqNo.toNat ≤ j.toNat → j.toNat + window.toNat < 2^32 →
      j ∉ s.acks → j ∈ near) :
    ∃ t, RepeatServer.receiveAcks hooks (arrivals (near ++ far)) s = some t ∧
      Cleared order file near s t := by
  obtain ⟨hnodup,-,hdisjoint⟩ := List.nodup_append.mp hn
  obtain ⟨t,hrun,hc,hctl⟩ := hs.receiveAcks (delivers_arrivals near) hnodup
    (fun i hi => hout i (List.mem_append_left _ hi)) (Or.inl hnear)
  have ht := hs.cleared hc hctl
  have hout' : ∀ i ∈ far, t.Outstanding i := by
    intro i hi
    refine (hc.outstanding i).mpr ⟨hout i (List.mem_append_right _ hi),fun hmem => ?_⟩
    exact hdisjoint i hmem i hi rfl
  have hdeaf : 2^32 ≤ t.baseSeqNo.toNat + window.toNat ∨ far = List.nil := by
    rw [or_iff_not_imp_right]
    intro hne
    by_contra hfits
    obtain ⟨i,hi⟩ := List.exists_mem_of_ne_nil far hne
    obtain ⟨hlo,hhi,-⟩ := hout' i hi
    have hbase := (hc.outstanding _).mp (ht.inStep.base_outstanding (hlo.trans_lt hhi))
    exact hbase.2 (hall _ hbase.1.1 (not_le.mp hfits) hbase.1.2.2)
  refine ⟨t,?_,hc⟩
  rw [receiveAcks_arrivals hrun]
  rcases hdeaf with hdeaf | rfl
  · exact ht.receiveAcks_refused (delivers_arrivals far) hout' hdeaf
  · rfl

theorem Held.far_first (hs : Held order file window s) {near far : List UInt32}
    (hn : (far ++ near).Nodup) (hout : ∀ i ∈ far ++ near, s.Outstanding i)
    (hnear : ∀ i ∈ near, i.toNat + window.toNat < 2^32)
    (hfar : ∀ i ∈ far, ¬i.toNat + window.toNat < 2^32)
    (hfits : s.baseSeqNo.toNat + window.toNat < 2^32) :
    ∃ t, RepeatServer.receiveAcks hooks (arrivals (far ++ near)) s = some t ∧
      Cleared order file (far ++ near) s t := by
  obtain ⟨hnodup,hnodup',hdisjoint⟩ := List.nodup_append.mp hn
  have hroom : Room window s far := Or.inr ⟨s.baseSeqNo,le_refl _,hfits,
    fun hmem => lt_irrefl _ (hs.inStep.acks _ hmem).1,fun hmem => hfar _ hmem hfits⟩
  obtain ⟨t,hrun,hc,hctl⟩ := hs.receiveAcks (delivers_arrivals far) hnodup
    (fun i hi => hout i (List.mem_append_left _ hi)) hroom
  have hout' : ∀ i ∈ near, t.Outstanding i := by
    intro i hi
    refine (hc.outstanding i).mpr ⟨hout i (List.mem_append_right _ hi),fun hmem => ?_⟩
    exact hdisjoint i hmem i hi rfl
  obtain ⟨t',hrun',hc',-⟩ := (hs.cleared hc hctl).receiveAcks (delivers_arrivals near) hnodup' hout'
    (Or.inl hnear)
  exact ⟨t',(receiveAcks_arrivals hrun).trans hrun',hc.trans hc'⟩

theorem Held.unwrapped (hs : Held order file window s) (hn : numbers.Nodup)
    (hout : ∀ i ∈ numbers, s.Outstanding i) (hfree : OrderFree s numbers) :
    Unwrapped window s numbers := by
  by_contra hnot
  obtain ⟨hroom,hwrap⟩ := not_or.mp hnot
  obtain ⟨hsome,hall⟩ := not_or.mp hroom
  push Not at hsome hall
  obtain ⟨i,hi,hifar⟩ := hsome
  by_cases hfits : s.baseSeqNo.toNat + window.toNat < 2^32
  · let near := numbers.filter fun j => j.toNat + window.toNat < 2^32
    let far := numbers.filter fun j => !decide (j.toNat + window.toNat < 2^32)
    have hperm : (near ++ far).Perm numbers := List.filter_append_perm _ _
    have hperm' : (far ++ near).Perm numbers := List.perm_append_comm.trans hperm
    have hin : i ∈ far := by simpa [far] using ⟨hi,hifar⟩
    obtain ⟨t,ht,hc⟩ := hs.far_refused (hperm.nodup_iff.mpr hn)
      (fun j hj => hout j (hperm.mem_iff.mp hj))
      (fun j hj => by simpa using (List.mem_filter.mp hj).2)
      (fun j hj hjfits hack => by simpa [near] using ⟨hall j hj hjfits hack,hjfits⟩)
    obtain ⟨t',ht',hc'⟩ := hs.far_first (hperm'.nodup_iff.mpr hn)
      (fun j hj => hout j (hperm'.mem_iff.mp hj))
      (fun j hj => by simpa using (List.mem_filter.mp hj).2)
      (fun j hj => by simpa using (List.mem_filter.mp hj).2) hfits
    obtain ⟨u,u',hu,hu',halike,-⟩ := hfree _ _ _ _ hperm hperm' (delivers_arrivals _)
      (delivers_arrivals _)
    obtain rfl := Option.some.inj (hu.symm.trans ht)
    obtain rfl := Option.some.inj (hu'.symm.trans ht')
    have hleft : u.Outstanding i := (hc.outstanding i).mpr ⟨hout i hi,fun hmem => by
      have hinear := (List.mem_filter.mp hmem).2
      simp only [decide_eq_true_eq] at hinear
      omega⟩
    have hgone := hc'.seqnumsSent i
    rw [if_pos (List.mem_append_left _ hin),← halike.seqnumsSent] at hgone
    have hmem := hc.inStep.mem_seqnumsSent hleft
    rw [Std.ExtTreeMap.mem_iff_isSome_getElem?,hgone] at hmem
    contradiction
  · have hbase : s.baseSeqNo ∈ numbers := by
      by_contra hnotmem
      exact hwrap ⟨not_lt.mp hfits,hnotmem⟩
    obtain ⟨u,-,hu,-,-,hleast⟩ := hfree _ _ _ _ (List.Perm.refl _) (List.Perm.refl _)
      (delivers_arrivals numbers) (delivers_arrivals numbers)
    rw [hs.receiveAcks_refused (delivers_arrivals numbers) hout (not_lt.mp hfits)] at hu
    obtain rfl := Option.some.inj hu
    exact (hleast.unacked (hout _ hbase).2.1).2 hbase

/-- The order of acknowledgements of distinct outstanding packets does not matter exactly when the
window does not wrap around on the way. -/
theorem ackOrder_iff (order : ByteOrder) (file : List UInt8) (window : UInt32)
    (s : Sending SelectiveRepeatServer) (hrun : Reaches hooks order file window s)
    (numbers : List UInt32) (hn : numbers.Nodup) (hout : ∀ i ∈ numbers, s.worker.Outstanding i) :
    OrderFree s.worker numbers ↔ Unwrapped window s.worker numbers := by
  have hstart : Spanned window (RepeatServer.fresh window) :=
    ⟨fresh_numbered window,rfl,Nat.zero_le _⟩
  have hspan := (keeps_spanned window _).run hstart hrun
  have hs : Held order file window s.worker :=
    ⟨(good_of_runsTo hrun).worker,hspan.ctl,hspan.seqNo_le⟩
  exact ⟨hs.unwrapped hn hout,hs.orderFree hn hout⟩

def bothSent : List SenderEvent :=
  [.send (calmTick ⟨0,0⟩),.idle,.timers fun _ => calmTick ⟨0,0⟩,.send (calmTick ⟨0,0⟩)]

theorem ackOrder_both : ∃ s : Sending SelectiveRepeatServer, s.worker.seqNo = 2 ∧
    (OrderFree s.worker [1,0] ↔ Unwrapped 2 s.worker [1,0]) := by
  obtain ⟨s,hrun,hseq,hzero,hone⟩ : ∃ s, Reaches hooks .little [7] 2 s ∧ s.worker.seqNo = 2 ∧
      s.worker.Outstanding 0 ∧ s.worker.Outstanding 1 :=
    Sending.run_reaches bothSent (by decide +kernel)
  have hout : ∀ i ∈ ([1,0] : List UInt32), s.worker.Outstanding i := by
    intro i hi
    rcases List.mem_pair.mp hi with rfl | rfl
    · exact hone
    · exact hzero
  exact ⟨s,hseq,ackOrder_iff .little [7] 2 s hrun [1,0] (by decide) hout⟩

/-- In the largest window the acknowledgement of packet 1 is taken before that of packet 0, and
refused after it: the window then ends at 0. -/
theorem ackOrder_matters : ∃ (s : Sending SelectiveRepeatServer) (t t' : SelectiveRepeatServer),
    Reaches hooks .little [7] 4294967295 s ∧ s.worker.Outstanding 0 ∧ s.worker.Outstanding 1 ∧
    RepeatServer.receiveAcks hooks (arrivals [1,0]) s.worker = some t ∧
    RepeatServer.receiveAcks hooks (arrivals [0,1]) s.worker = some t' ∧
    t.baseSeqNo = 2 ∧ t'.baseSeqNo = 1 ∧ t'.seqNo = 2 ∧ ¬OrderFree s.worker [0,1] := by
  obtain ⟨s,hrun,hzero,hone,hsome,hsome'⟩ : ∃ s, Reaches hooks .little [7] 4294967295 s ∧
      s.worker.Outstanding 0 ∧ s.worker.Outstanding 1 ∧
      ((RepeatServer.receiveAcks hooks (arrivals [1,0]) s.worker).any fun t =>
        decide (t.baseSeqNo = 2)) ∧
      ((RepeatServer.receiveAcks hooks (arrivals [0,1]) s.worker).any fun t =>
        decide (t.baseSeqNo = 1 ∧ t.seqNo = 2)) :=
    Sending.run_reaches bothSent (by decide +kernel)
  obtain ⟨t,ht,hbase⟩ := (Option.any_eq_true _ _).mp hsome
  obtain ⟨t',ht',hstate⟩ := (Option.any_eq_true _ _).mp hsome'
  have hbase := of_decide_eq_true hbase
  obtain ⟨hbase',hseq'⟩ := of_decide_eq_true hstate
  refine ⟨s,t,t',hrun,hzero,hone,ht,ht',hbase,hbase',hseq',fun hfree => ?_⟩
  obtain ⟨u,u',hu,hu',halike,-⟩ := hfree _ _ _ _ (List.Perm.swap 0 1 _) (List.Perm.refl _)
    (delivers_arrivals [1,0]) (delivers_arrivals [0,1])
  obtain rfl := Option.some.inj (hu.symm.trans ht)
  obtain rfl := Option.some.inj (hu'.symm.trans ht')
  have hsame := halike.baseSeqNo
  rw [hbase,hbase'] at hsame
  contradiction

end SelectiveRepeat

end ReliableTransfer
