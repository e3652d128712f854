import ReliableTransfer.Workers.SelectiveRepeat.Bookkeeping

/-!
# The containers stay in step

`sendOrder`, `sendOrderIterators` and `data_sent` hold exactly the outstanding numbers, and
`seqnums_sent` agrees with them on the numbers from `base_seq_no` to `seq_no - 1`. It may hold a
number outside that range, which `seqnums_sent[sendOrder.front()]` puts there when nothing is
outstanding.
-/

namespace ReliableTransfer

open Framework

namespace RepeatServer

variable {γ : Type}

def Outstanding (s : RepeatServer γ) (i : UInt32) : Prop :=
  s.baseSeqNo.toNat ≤ i.toNat ∧ i.toNat < s.seqNo.toNat ∧ i ∉ s.acks

instance (s : RepeatServer γ) (i : UInt32) : Decidable (s.Outstanding i) :=
  inferInstanceAs (Decidable (_ ∧ _ ∧ _))

structure InStep (order : ByteOrder) (file : List UInt8) (s : RepeatServer γ) : Prop where
  base_le : s.baseSeqNo.toNat ≤ s.seqNo.toNat
  acks : ∀ i ∈ s.acks, s.baseSeqNo.toNat < i.toNat ∧ i.toNat < s.seqNo.toNat
  nodup : s.sendOrder.values.Nodup
  mem_order : ∀ i, i ∈ s.sendOrder.values ↔ s.Outstanding i
  iterators : ∀ i it, s.sendOrderIterators[i]? = some it ↔ (it,i) ∈ s.sendOrder.nodes
  dataSent : ∀ i p, s.dataSent[i]? = some p ↔ s.Outstanding i ∧ p = filePacket order file i
  times : ∀ i, s.baseSeqNo.toNat ≤ i.toNat → i.toNat < s.seqNo.toNat →
    (i ∈ s.seqnumsSent ↔ s.Outstanding i)

/-- No number outside the range has got into `seqnums_sent`. -/
def Tidy (s : RepeatServer γ) : Prop := ∀ i ∈ s.seqnumsSent, s.Outstanding i

variable {order : ByteOrder} {file : List UInt8} {s : RepeatServer γ}

theorem InStep.mem_seqnumsSent (hs : s.InStep order file) {i : UInt32} (hi : s.Outstanding i) :
    i ∈ s.seqnumsSent :=
  (hs.times i hi.1 hi.2.1).mpr hi

theorem InStep.mem_dataSent (hs : s.InStep order file) (i : UInt32) :
    i ∈ s.dataSent ↔ s.Outstanding i := by
  constructor
  · intro hi
    obtain ⟨p,hp⟩ := Option.isSome_iff_exists.mp (Std.ExtTreeMap.mem_iff_isSome_getElem?.mp hi)
    exact ((hs.dataSent i p).mp hp).1
  · intro hi
    exact (Std.ExtTreeMap.getElem?_eq_some_iff.mp ((hs.dataSent i _).mpr ⟨hi,rfl⟩)).fst

theorem InStep.setCtl (hs : s.InStep order file) (ctl : γ) :
    InStep order file { s with ctl := ctl } :=
  ⟨hs.base_le,hs.acks,hs.nodup,hs.mem_order,hs.iterators,hs.dataSent,hs.times⟩

theorem fresh_inStep (order : ByteOrder) (file : List UInt8) (ctl : γ) :
    (fresh ctl).InStep order file where
  base_le := le_refl _
  acks := by simp [fresh]
  nodup := by simp [fresh]
  mem_order := by simp [fresh,Outstanding]
  iterators := by simp [fresh,NodeList.empty]
  dataSent := by simp [fresh,Outstanding]
  times := by simp [fresh]

theorem InStep.base_outstanding (hs : s.InStep order file)
    (hlt : s.baseSeqNo.toNat < s.seqNo.toNat) : s.Outstanding s.baseSeqNo :=
  ⟨le_refl _,hlt,fun h => lt_irrefl _ (hs.acks _ h).1⟩

theorem InStep.order_nil (hs : s.InStep order file) :
    s.sendOrder.values = List.nil ↔ s.baseSeqNo = s.seqNo := by
  constructor
  · intro h
    by_contra hne
    have hlt := lt_of_le_of_ne hs.base_le fun heq => hne (UInt32.toNat_inj.mp heq)
    have hmem := (hs.mem_order _).mpr (hs.base_outstanding hlt)
    simp [h] at hmem
  · intro h
    rw [List.eq_nil_iff_forall_not_mem]
    intro i hi
    obtain ⟨hlo,hhi,-⟩ := (hs.mem_order i).mp hi
    rw [h] at hlo
    omega

theorem InStep.outstanding_recordSent (hs : s.InStep order file) {h : RepeatHooks γ}
    (hopen : s.windowOpen h = true) (packet : Packet) (t : Timeval) (i : UInt32) :
    (s.recordSent packet t).Outstanding i ↔ s.Outstanding i ∨ i = s.seqNo := by
  have hsucc : (s.seqNo + 1).toNat = s.seqNo.toNat + 1 :=
    toNat_add_one_of_lt (of_decide_eq_true hopen)
  have hbase := hs.base_le
  change s.baseSeqNo.toNat ≤ i.toNat ∧ i.toNat < (s.seqNo + 1).toNat ∧ i ∉ s.acks ↔ _
  rw [hsucc]
  constructor
  · rintro ⟨hlo,hhi,hack⟩
    by_cases heq : i = s.seqNo
    · exact Or.inr heq
    · have hne : i.toNat ≠ s.seqNo.toNat := fun h => heq (UInt32.toNat_inj.mp h)
      exact Or.inl ⟨hlo,by omega,hack⟩
  · rintro (⟨hlo,hhi,hack⟩ | rfl)
    · exact ⟨hlo,by omega,hack⟩
    · exact ⟨hbase,by omega,fun hack => lt_irrefl _ (hs.acks _ hack).2⟩

theorem InStep.recordSent (hs : s.InStep order file) {h : RepeatHooks γ}
    (hopen : s.windowOpen h = true) (t : Timeval) :
    (s.recordSent (filePacket order file s.seqNo) t).InStep order file ∧
      (s.recordSent (filePacket order file s.seqNo) t).seqNo.toNat = s.seqNo.toNat + 1 ∧
      (∀ i, (s.recordSent (filePacket order file s.seqNo) t).Outstanding i ↔
        s.Outstanding i ∨ i = s.seqNo) := by
  have hsucc : (s.seqNo + 1).toNat = s.seqNo.toNat + 1 :=
    toNat_add_one_of_lt (of_decide_eq_true hopen)
  have hbase := hs.base_le
  have hnot : ¬s.Outstanding s.seqNo := fun ho => lt_irrefl _ ho.2.1
  have hout := hs.outstanding_recordSent hopen (filePacket order file s.seqNo) t
  have hdata : s.dataSent[s.seqNo]? = none := by
    rw [← Option.not_isSome_iff_eq_none,Option.isSome_iff_exists]
    rintro ⟨p,hp⟩
    exact hnot ((hs.dataSent _ p).mp hp).1
  refine ⟨⟨?_,?_,?_,?_,?_,?_,?_⟩,hsucc,hout⟩
  · change s.baseSeqNo.toNat ≤ (s.seqNo + 1).toNat
    omega
  · intro i hi
    have := hs.acks i hi
    change s.baseSeqNo.toNat < i.toNat ∧ i.toNat < (s.seqNo + 1).toNat
    omega
  · change (s.sendOrder.pushBack s.seqNo).values.Nodup
    rw [NodeList.values_pushBack,List.nodup_append]
    refine ⟨hs.nodup,by simp,fun a ha b hb hab => hnot ?_⟩
    rw [← List.mem_singleton.mp hb,← hab]
    exact (hs.mem_order a).mp ha
  · intro i
    rw [hout,← hs.mem_order]
    change i ∈ (s.sendOrder.pushBack s.seqNo).values ↔ _
    simp
  · intro i it
    change (s.sendOrderIterators.insert s.seqNo s.sendOrder.fresh)[i]? = some it ↔
      (it,i) ∈ (s.sendOrder.pushBack s.seqNo).nodes
    simp only [Std.ExtTreeMap.getElem?_insert,Std.compare_eq_iff_eq,NodeList.nodes_pushBack,
      List.mem_append,List.mem_singleton,Prod.mk.injEq,← hs.iterators]
    by_cases heq : s.seqNo = i
    · subst heq
      have hnone : s.sendOrderIterators[s.seqNo]? ≠ some it := fun h => hnot
        ((hs.mem_order _).mp (NodeList.mem_values.mpr ⟨it,(hs.iterators _ _).mp h⟩))
      simp [hnone,eq_comm]
    · simp [heq,Ne.symm heq]
  · intro i p
    rw [hout]
    change (s.dataSent.insertIfNew s.seqNo (filePacket order file s.seqNo))[i]? = some p ↔ _
    simp only [Std.ExtTreeMap.getElem?_insertIfNew,Std.compare_eq_iff_eq]
    have hfree : s.seqNo ∉ s.dataSent := by
      rw [Std.ExtTreeMap.mem_iff_isSome_getElem?,hdata]
      simp
    by_cases heq : s.seqNo = i
    · subst heq
      simp [hfree,hnot,eq_comm]
    · simp [heq,Ne.symm heq,hs.dataSent]
  · intro i hlo hhi
    rw [hout]
    change i ∈ s.seqnumsSent.insertIfNew s.seqNo t ↔ _
    rw [Std.ExtTreeMap.mem_insertIfNew,Std.compare_eq_iff_eq]
    by_cases heq : i = s.seqNo
    · simp [heq]
    · have hne : i.toNat ≠ s.seqNo.toNat := fun h => heq (UInt32.toNat_inj.mp h)
      have hhi' : i.toNat < (s.seqNo + 1).toNat := hhi
      simp [heq,Ne.symm heq,hs.times i hlo (by omega)]

theorem Tidy.recordSent (htidy : s.Tidy) (hs : s.InStep order file) {h : RepeatHooks γ}
    (hopen : s.windowOpen h = true) (t : Timeval) :
    (s.recordSent (filePacket order file s.seqNo) t).Tidy := by
  intro i hi
  change i ∈ s.seqnumsSent.insertIfNew s.seqNo t at hi
  rw [Std.ExtTreeMap.mem_insertIfNew,Std.compare_eq_iff_eq] at hi
  rw [(hs.recordSent hopen t).2.2]
  exact hi.elim (fun heq => Or.inr heq.symm) fun hi => Or.inl (htidy i hi)

theorem InStep.front (hs : s.InStep order file) (stray : UInt32) :
    (s.sendOrder.values = List.nil ∧ s.front stray = stray) ∨ s.Outstanding (s.front stray) := by
  cases hfront : s.sendOrder.front? with
  | none =>
    left
    exact ⟨NodeList.front?_eq_none.mp hfront,by simp [RepeatServer.front,hfront]⟩
  | some p =>
    right
    obtain ⟨it,v⟩ := p
    obtain ⟨rest,hrest⟩ := NodeList.front?_eq_some hfront
    have hv : s.front stray = v := by simp [RepeatServer.front,hfront]
    rw [hv,← hs.mem_order]
    simp [NodeList.values,hrest]

theorem InStep.touch (hs : s.InStep order file) (stray : UInt32) :
    (s.touch stray).InStep order file := by
  refine ⟨hs.base_le,hs.acks,hs.nodup,hs.mem_order,hs.iterators,hs.dataSent,fun i hlo hhi => ?_⟩
  change i ∈ s.seqnumsSent.insertIfNew (s.front stray) ⟨0,0⟩ ↔ s.Outstanding i
  rw [Std.ExtTreeMap.mem_insertIfNew,Std.compare_eq_iff_eq,hs.times i hlo hhi]
  rcases hs.front stray with ⟨hnil,-⟩ | hout
  · have heq := hs.order_nil.mp hnil
    change s.baseSeqNo.toNat ≤ i.toNat at hlo
    change i.toNat < s.seqNo.toNat at hhi
    rw [heq] at hlo
    omega
  · exact ⟨fun h => h.elim (fun heq => heq ▸ hout) id,Or.inr⟩

theorem Tidy.touch (htidy : s.Tidy) (hs : s.InStep order file)
    (hne : s.sendOrder.values ≠ List.nil) (stray : UInt32) : (s.touch stray).Tidy := by
  intro i hi
  change i ∈ s.seqnumsSent.insertIfNew (s.front stray) ⟨0,0⟩ at hi
  rw [Std.ExtTreeMap.mem_insertIfNew,Std.compare_eq_iff_eq] at hi
  have hout := (hs.front stray).resolve_left fun h => hne h.1
  exact hi.elim (fun heq => heq ▸ hout) (htidy i)

theorem touch_of_mem {s : RepeatServer γ} {stray : UInt32} (hmem : s.front stray ∈ s.seqnumsSent) :
    s.touch stray = s := by
  have hsame : s.seqnumsSent.insertIfNew (s.front stray) ⟨0,0⟩ = s.seqnumsSent := by
    refine Std.ExtTreeMap.ext_getElem? fun i => ?_
    simp only [Std.ExtTreeMap.getElem?_insertIfNew,Std.compare_eq_iff_eq,hmem,not_true,and_false,
      if_false]
  rw [touch,hsame]

/-- The base moves to the first number that is not acknowledged. -/
theorem slide_spec {seq : Nat} (hseq : seq < 2^32) (n : Nat) (acks : Finset UInt32) (base : UInt32)
    (hcard : acks.card ≤ n) (hacks : ∀ i ∈ acks, base.toNat ≤ i.toNat ∧ i.toNat < seq)
    (hle : base.toNat ≤ seq) :
    base.toNat ≤ (slide n acks base).2.toNat ∧ (slide n acks base).2.toNat ≤ seq ∧
      (slide n acks base).2 ∉ (slide n acks base).1 ∧
      (∀ i, i ∈ (slide n acks base).1 ↔ i ∈ acks ∧ (slide n acks base).2.toNat ≤ i.toNat) ∧
      ∀ i : UInt32, base.toNat ≤ i.toNat → i.toNat < (slide n acks base).2.toNat → i ∈ acks := by
  induction n generalizing acks base with
  | zero =>
    obtain rfl := Finset.card_eq_zero.mp (Nat.le_zero.mp hcard)
    refine ⟨le_refl _,hle,by simp [slide],by simp [slide],fun i hlo hhi => ?_⟩
    change i.toNat < base.toNat at hhi
    omega
  | succ n ih =>
    by_cases hmem : base ∈ acks
    · have hlt := (hacks base hmem).2
      have hsucc : (base + 1).toNat = base.toNat + 1 := toNat_add_one (by omega)
      have hrest : ∀ i ∈ acks.erase base, (base + 1).toNat ≤ i.toNat ∧ i.toNat < seq := by
        intro i hi
        obtain ⟨hne,hi⟩ := Finset.mem_erase.mp hi
        have hne' : i.toNat ≠ base.toNat := fun h => hne (UInt32.toNat_inj.mp h)
        have := hacks i hi
        omega
      obtain ⟨hlo,hhi,hnot,hleft,hpassed⟩ := ih (acks.erase base) (base + 1)
        (by rw [Finset.card_erase_of_mem hmem]; omega) hrest (by omega)
      rw [slide,if_pos hmem]
      refine ⟨by omega,hhi,hnot,fun i => ?_,fun i hi hi' => ?_⟩
      · rw [hleft,Finset.mem_erase]
        refine ⟨fun h => ⟨h.1.2,h.2⟩,fun h => ⟨⟨fun heq => ?_,h.1⟩,h.2⟩⟩
        have := h.2
        rw [heq] at this
        omega
      · by_cases heq : i = base
        · exact heq ▸ hmem
        · have hne' : i.toNat ≠ base.toNat := fun h => heq (UInt32.toNat_inj.mp h)
          exact Finset.mem_of_mem_erase (hpassed i (by omega) hi')
    · rw [slide,if_neg hmem]
      refine ⟨le_refl _,hle,hmem,fun i => ⟨fun h => ⟨h,(hacks i h).1⟩,And.left⟩,fun i hi hi' => ?_⟩
      change i.toNat < base.toNat at hi'
      omega

theorem InStep.slide_outstanding (hs : s.InStep order file) {i base' : UInt32}
    {acks' : Finset UInt32} (hi : s.Outstanding i)
    (hslide : slide (insert i s.acks).card (insert i s.acks) s.baseSeqNo = (acks',base')) :
    s.baseSeqNo.toNat ≤ base'.toNat ∧ base'.toNat ≤ s.seqNo.toNat ∧
      (∀ j ∈ acks', base'.toNat < j.toNat ∧ j.toNat < s.seqNo.toNat) ∧
      (i = s.baseSeqNo → s.baseSeqNo.toNat < base'.toNat) ∧
      ∀ j : UInt32, (base'.toNat ≤ j.toNat ∧ j.toNat < s.seqNo.toNat ∧ j ∉ acks') ↔
        s.Outstanding j ∧ j ≠ i := by
  have hacks : ∀ j ∈ insert i s.acks, s.baseSeqNo.toNat ≤ j.toNat ∧ j.toNat < s.seqNo.toNat := by
    intro j hj
    rcases Finset.mem_insert.mp hj with rfl | hj
    · exact ⟨hi.1,hi.2.1⟩
    · exact ⟨(hs.acks j hj).1.le,(hs.acks j hj).2⟩
  obtain ⟨hlo,hhi,hnot,hleft,hpassed⟩ := slide_spec s.seqNo.toNat_lt (insert i s.acks).card
    (insert i s.acks) s.baseSeqNo (le_refl _) hacks hs.base_le
  rw [hslide] at hlo hhi hnot hleft hpassed
  dsimp only at hlo hhi hnot hleft hpassed
  refine ⟨hlo,hhi,fun j hj => ?_,?_,fun j => ?_⟩
  · have hj' := (hleft j).mp hj
    refine ⟨lt_of_le_of_ne hj'.2 fun heq => ?_,(hacks j hj'.1).2⟩
    rw [← UInt32.toNat_inj.mp heq] at hj
    exact hnot hj
  · rintro rfl
    refine lt_of_le_of_ne hlo fun heq => ?_
    have hbase : s.baseSeqNo = base' := UInt32.toNat_inj.mp heq
    rw [← hbase] at hnot
    exact hnot ((hleft _).mpr ⟨Finset.mem_insert_self _ _,heq.ge⟩)
  · rw [hleft,Finset.mem_insert]
    constructor
    · rintro ⟨hj,hj',hjacks⟩
      push Not at hjacks
      have hjnot : j ≠ i ∧ j ∉ s.acks := by
        constructor
        · rintro rfl
          exact absurd (hjacks (Or.inl rfl)) (by omega)
        · intro hjs
          exact absurd (hjacks (Or.inr hjs)) (by omega)
      exact ⟨⟨hlo.trans hj,hj',hjnot.2⟩,hjnot.1⟩
    · rintro ⟨⟨hj,hj',hjacks⟩,hne⟩
      have hpast : base'.toNat ≤ j.toNat := by
        by_contra hlt
        rcases Finset.mem_insert.mp (hpassed j hj (by omega)) with heq | hmem
        · exact hne heq
        · exact hjacks hmem
      exact ⟨hpast,hj',fun h => h.1.elim hne hjacks⟩

structure Acknowledged (order : ByteOrder) (file : List UInt8) (h : RepeatHooks γ) (i : UInt32)
    (s s' : RepeatServer γ) : Prop where
  inStep : s'.InStep order file
  seqNo : s'.seqNo = s.seqNo
  ctl : s'.ctl = h.afterAck (h.onAck s.ctl)
  seqnumsSent : s'.seqnumsSent = s.seqnumsSent.erase i
  base_le : s.baseSeqNo.toNat ≤ s'.baseSeqNo.toNat
  base_lt : i = s.baseSeqNo → s.baseSeqNo.toNat < s'.baseSeqNo.toNat
  outstanding : ∀ j, s'.Outstanding j ↔ s.Outstanding j ∧ j ≠ i

theorem InStep.acknowledge (hs : s.InStep order file) (h : RepeatHooks γ) {i : UInt32}
    (hi : s.Outstanding i) : ∃ s', s.acknowledge h i = some s' ∧ Acknowledged order file h i s s' := by
  obtain ⟨acks',base',hslide⟩ : ∃ acks' base',
      slide (insert i s.acks).card (insert i s.acks) s.baseSeqNo = (acks',base') := ⟨_,_,rfl⟩
  obtain ⟨hlo,hhi,hacks,hbase,hout⟩ := hs.slide_outstanding hi hslide
  obtain ⟨it,hit⟩ := NodeList.mem_values.mp ((hs.mem_order i).mpr hi)
  obtain ⟨order',herase,-,hvalues,hnodes⟩ := NodeList.erase_of_mem hit hs.nodup
  have hdata := (hs.dataSent i _).mpr ⟨hi,rfl⟩
  have hiter := (hs.iterators i it).mpr hit
  have hrun : s.acknowledge h i = some { s with
      baseSeqNo := base'
      acks := acks'
      seqnumsSent := s.seqnumsSent.erase i
      dataSent := s.dataSent.erase i
      sendOrder := order'
      sendOrderIterators := s.sendOrderIterators.erase i
      ctl := h.afterAck (h.onAck s.ctl) } := by
    simp [RepeatServer.acknowledge,hslide,hdata,hiter,herase]
  refine ⟨_,hrun,?_⟩
  refine ⟨⟨hhi,hacks,?_,?_,?_,?_,?_⟩,rfl,rfl,rfl,hlo,hbase,hout⟩
  · rw [hvalues]
    exact hs.nodup.erase i
  · intro j
    change j ∈ order'.values ↔ (base'.toNat ≤ j.toNat ∧ j.toNat < s.seqNo.toNat ∧ j ∉ acks')
    rw [hout,hvalues,hs.nodup.mem_erase_iff,hs.mem_order,and_comm]
  · intro j jt
    change (s.sendOrderIterators.erase i)[j]? = some jt ↔ (jt,j) ∈ order'.nodes
    simp only [Std.ExtTreeMap.getElem?_erase,Std.compare_eq_iff_eq,hnodes,← hs.iterators]
    by_cases heq : i = j
    · simp [heq]
    · simp [heq,Ne.symm heq]
  · intro j p
    change (s.dataSent.erase i)[j]? = some p ↔
      (base'.toNat ≤ j.toNat ∧ j.toNat < s.seqNo.toNat ∧ j ∉ acks') ∧ _
    rw [hout]
    simp only [Std.ExtTreeMap.getElem?_erase,Std.compare_eq_iff_eq]
    by_cases heq : i = j
    · simp [heq]
    · simp [heq,Ne.symm heq,hs.dataSent]
  · intro j hj hj'
    change j ∈ s.seqnumsSent.erase i ↔ (base'.toNat ≤ j.toNat ∧ j.toNat < s.seqNo.toNat ∧ j ∉ acks')
    rw [hout,Std.ExtTreeMap.mem_erase,hs.times j (hlo.trans hj) hj',and_comm]
    exact and_congr_right fun _ => not_congr (Std.compare_eq_iff_eq.trans eq_comm)

theorem Acknowledged.tidy {h : RepeatHooks γ} {i : UInt32} {s' : RepeatServer γ}
    (ha : Acknowledged order file h i s s') (htidy : s.Tidy) : s'.Tidy := by
  intro j hj
  rw [ha.seqnumsSent,Std.ExtTreeMap.mem_erase,Ne,Std.compare_eq_iff_eq] at hj
  exact (ha.outstanding j).mpr ⟨htidy j hj.2,Ne.symm hj.1⟩

theorem Acknowledged.base_eq {h : RepeatHooks γ} {i : UInt32} {s' : RepeatServer γ}
    (ha : Acknowledged order file h i s s') (hs : s.InStep order file) (hi : s.Outstanding i)
    (hne : i ≠ s.baseSeqNo) : s'.baseSeqNo = s.baseSeqNo := by
  have hbase := hs.base_outstanding (lt_of_le_of_lt hi.1 hi.2.1)
  have hkept := (ha.outstanding _).mpr ⟨hbase,hne.symm⟩
  exact UInt32.toNat_inj.mp (le_antisymm hkept.1 ha.base_le)

/-- What one call of `receive_ack` does: it may touch `seqnums_sent` and the window, and it takes
an accepted outstanding number off the containers. -/
inductive Received (order : ByteOrder) (file : List UInt8) (h : RepeatHooks γ) (env : AckEnv)
    (s : RepeatServer γ) : RepeatServer γ → Prop
  | kept (ctl : γ) : (ctl = s.ctl ∨ (¬env.Calm ∧ ctl = h.onTimeout s.ctl)) →
      Received order file h env s { s.touch env.stray with ctl := ctl }
  | taken {a s'} : env.recv = .ok a → s.Acceptable h a → s.Outstanding a.ackno →
      Acknowledged order file h a.ackno (s.touch env.stray) s' → Received order file h env s s'

theorem InStep.receiveAck (hs : s.InStep order file) (h : RepeatHooks γ) (env : AckEnv)
    (hlegit : ∀ a, env.recv = .ok a → a.ackno ∈ (s.touch env.stray).seqnumsSent →
      a.ackno.toNat < s.seqNo.toNat) :
    ∃ noErr s', s.receiveAck h env = some (noErr,s') ∧ Received order file h env s s' := by
  unfold RepeatServer.receiveAck
  dsimp only
  split
  · next hanswer =>
    refine ⟨_,_,rfl,.kept _ (Or.inr ⟨fun hcalm => ?_,rfl⟩)⟩
    obtain ⟨a,ha⟩ := hcalm.answer (s.seqnumsSent.getD (s.front env.stray) ⟨0,0⟩)
    rw [ha] at hanswer
    contradiction
  · exact ⟨_,_,rfl,.kept _ (Or.inl rfl)⟩
  · next a hanswer =>
    have hrecv := AckEnv.answer_ok hanswer
    split
    · next htest =>
      split
      · next hmem =>
        have hacc : s.Acceptable h a := htest.2
        have hout : s.Outstanding a.ackno := ((hs.touch env.stray).times _
          (UInt32.le_iff_toNat_le.mp hacc.1) (hlegit a hrecv hmem)).mp hmem
        obtain ⟨s',hs',hack⟩ := (hs.touch env.stray).acknowledge h (i := a.ackno) hout
        exact ⟨true,s',by rw [hs']; rfl,.taken hrecv hacc hout hack⟩
      · exact ⟨_,_,rfl,.kept _ (Or.inl rfl)⟩
    · exact ⟨_,_,rfl,.kept _ (Or.inl rfl)⟩

theorem InStep.receiveAck_taken (hs : s.InStep order file) (h : RepeatHooks γ) {i : UInt32}
    (hacc : s.Acceptable h (createAckPacket i)) (hi : s.Outstanding i) (t : Timeval) :
    ∃ s', s.receiveAck h (arrival t (createAckPacket i)) = some (true,s') ∧
      Acknowledged order file h i (s.touch 0) s' := by
  obtain ⟨s',hs',hack⟩ := (hs.touch 0).acknowledge h (i := i) hi
  refine ⟨s',?_,hack⟩
  have hmem := (hs.touch 0).mem_seqnumsSent (i := i) hi
  have hacc' : (s.touch 0).Acceptable h (createAckPacket i) := hacc
  simp only [RepeatServer.receiveAck,answer_arrival]
  rw [if_pos ⟨verifyChecksumAck_createAckPacket i,hacc'⟩,createAckPacket_ackno]
  change (if i ∈ (s.touch 0).seqnumsSent then _ else _) = _
  rw [if_pos hmem]
  change ((s.touch 0).acknowledge h i).map (fun s => (true,s)) = _
  rw [hs']
  rfl

section Received

variable {h : RepeatHooks γ} {env : AckEnv} {s' : RepeatServer γ}

theorem Received.inStep (hr : Received order file h env s s') (hs : s.InStep order file) :
    s'.InStep order file := by
  cases hr with
  | kept ctl _ => exact (hs.touch env.stray).setCtl ctl
  | taken _ _ _ hack => exact hack.inStep

theorem Received.seqNo (hr : Received order file h env s s') : s'.seqNo = s.seqNo := by
  cases hr with
  | kept ctl _ => rfl
  | taken _ _ _ hack => exact hack.seqNo

theorem Received.base_eq (hr : Received order file h env s s') (hs : s.InStep order file)
    (hne : ∀ a, env.recv = .ok a → a.ackno ≠ s.baseSeqNo) : s'.baseSeqNo = s.baseSeqNo := by
  cases hr with
  | kept ctl _ => rfl
  | taken hrecv _ hout hack => exact hack.base_eq (hs.touch env.stray) hout (hne _ hrecv)

theorem Received.base_le (hr : Received order file h env s s') :
    s.baseSeqNo.toNat ≤ s'.baseSeqNo.toNat := by
  cases hr with
  | kept ctl _ => exact le_refl _
  | taken _ _ _ hack => exact hack.base_le

theorem Received.outstanding (hr : Received order file h env s s') (j : UInt32) :
    (s'.Outstanding j → s.Outstanding j) ∧
      (s.Outstanding j → s'.Outstanding j ∨ ∃ a, env.recv = .ok a ∧ a.ackno = j) := by
  cases hr with
  | kept ctl _ => exact ⟨id,Or.inl⟩
  | @taken a _ hrecv _ _ hack =>
    refine ⟨fun hj => ((hack.outstanding j).mp hj).1,fun hj => ?_⟩
    by_cases heq : j = a.ackno
    · exact Or.inr ⟨a,hrecv,heq.symm⟩
    · exact Or.inl ((hack.outstanding j).mpr ⟨hj,heq⟩)

theorem Received.tidy (hr : Received order file h env s s') (hs : s.InStep order file)
    (htidy : s.Tidy) (hne : s.sendOrder.values ≠ List.nil) : s'.Tidy := by
  have htouch := htidy.touch hs hne env.stray
  cases hr with
  | kept ctl _ => exact htouch
  | taken _ _ _ hack => exact hack.tidy htouch

end Received

structure Requeued (order : ByteOrder) (file : List UInt8) (h : RepeatHooks γ)
    (s s' : RepeatServer γ) : Prop where
  inStep : s'.InStep order file
  baseSeqNo : s'.baseSeqNo = s.baseSeqNo
  seqNo : s'.seqNo = s.seqNo
  acks : s'.acks = s.acks
  mem_seqnumsSent : ∀ i, i ∈ s'.seqnumsSent ↔ i ∈ s.seqnumsSent
  ctl : ∃ n, s'.ctl = h.onTimeout^[n] s.ctl ∧ (n ≠ 0 → ∃ i, s.Outstanding i)

section Requeued

variable {h : RepeatHooks γ}

theorem Requeued.refl (hs : s.InStep order file) : Requeued order file h s s :=
  ⟨hs,rfl,rfl,rfl,fun _ => Iff.rfl,0,rfl,fun hne => absurd rfl hne⟩

theorem Requeued.failed (hs : s.InStep order file) {i : UInt32} (hi : s.Outstanding i) :
    Requeued order file h s { s with ctl := h.onTimeout s.ctl } :=
  ⟨hs.setCtl _,rfl,rfl,rfl,fun _ => Iff.rfl,1,rfl,fun _ => ⟨i,hi⟩⟩

theorem Requeued.outstanding {s' : RepeatServer γ} (hr : Requeued order file h s s') (i : UInt32) :
    s'.Outstanding i ↔ s.Outstanding i := by
  rw [Outstanding,Outstanding,hr.baseSeqNo,hr.seqNo,hr.acks]

theorem Requeued.trans {s₁ s₂ : RepeatServer γ} (h₁ : Requeued order file h s s₁)
    (h₂ : Requeued order file h s₁ s₂) : Requeued order file h s s₂ := by
  obtain ⟨n,hn,hn'⟩ := h₁.ctl
  obtain ⟨m,hm,hm'⟩ := h₂.ctl
  refine ⟨h₂.inStep,h₂.baseSeqNo.trans h₁.baseSeqNo,h₂.seqNo.trans h₁.seqNo,
    h₂.acks.trans h₁.acks,fun i => (h₂.mem_seqnumsSent i).trans (h₁.mem_seqnumsSent i),m + n,?_,
    fun hne => ?_⟩
  · rw [hm,hn,Function.iterate_add_apply]
  · by_cases hzero : n = 0
    · obtain ⟨i,hi⟩ := hm' (by omega)
      exact ⟨i,(h₁.outstanding i).mp hi⟩
    · exact hn' hzero

theorem Requeued.tidy {s' : RepeatServer γ} (hr : Requeued order file h s s') (htidy : s.Tidy) :
    s'.Tidy :=
  fun i hi => (hr.outstanding i).mpr (htidy i ((hr.mem_seqnumsSent i).mp hi))

end Requeued

theorem InStep.requeue (hs : s.InStep order file) {it : Nat} {v : UInt32}
    {rest : List (Nat × UInt32)} (hnodes : s.sendOrder.nodes = (it,v) :: rest) (t : Timeval)
    (h : RepeatHooks γ) :
    ∃ l, s.sendOrder.erase it = some l ∧ l.nodes = rest ∧ l.fresh = s.sendOrder.fresh ∧
      Requeued order file h s (RepeatServer.requeue v (filePacket order file v) t l
        { s with ctl := h.onTimeout s.ctl }) := by
  obtain ⟨l,herase,hl,hfresh⟩ := NodeList.erase_head hnodes
  have hvalues : s.sendOrder.values = v :: l.values := by
    simp only [NodeList.values,hnodes,hl,List.map_cons]
  have hnodup := hs.nodup
  rw [hvalues,List.nodup_cons] at hnodup
  have hv : s.Outstanding v := by
    rw [← hs.mem_order,hvalues]
    exact List.mem_cons_self
  refine ⟨l,herase,hl,hfresh,⟨⟨hs.base_le,hs.acks,?_,fun i => ?_,fun i jt => ?_,hs.dataSent,
    fun i hlo hhi => ?_⟩,rfl,rfl,rfl,fun i => ?_,1,rfl,fun _ => ⟨v,hv⟩⟩⟩
  · change (l.pushBack v).values.Nodup
    rw [NodeList.values_pushBack]
    exact (List.nodup_append_comm.mp (List.nodup_cons.mpr hnodup))
  · change i ∈ (l.pushBack v).values ↔ s.Outstanding i
    rw [NodeList.values_pushBack,← hs.mem_order,hvalues,List.mem_append,List.mem_singleton,
      List.mem_cons,or_comm]
  · change (s.sendOrderIterators.insert v l.fresh)[i]? = some jt ↔ (jt,i) ∈ (l.pushBack v).nodes
    simp only [Std.ExtTreeMap.getElem?_insert,Std.compare_eq_iff_eq,NodeList.nodes_pushBack,
      List.mem_append,List.mem_singleton,Prod.mk.injEq]
    by_cases heq : v = i
    · subst heq
      have hnone : (jt,v) ∉ l.nodes := fun h => hnodup.1 (NodeList.mem_values.mpr ⟨jt,h⟩)
      simp [hnone,eq_comm]
    · simp [heq,Ne.symm heq,hs.iterators,hnodes,hl]
  · change i ∈ s.seqnumsSent.insert v t ↔ s.Outstanding i
    rw [Std.ExtTreeMap.mem_insert,Std.compare_eq_iff_eq,hs.times i hlo hhi]
    exact ⟨fun h => h.elim (fun heq => heq ▸ hv) id,Or.inr⟩
  · change i ∈ s.seqnumsSent.insert v t ↔ i ∈ s.seqnumsSent
    rw [Std.ExtTreeMap.mem_insert,Std.compare_eq_iff_eq]
    exact ⟨fun h => h.elim (fun heq => heq ▸ hs.mem_seqnumsSent hv) id,Or.inr⟩

theorem InStep.timerLoop_turn (hs : s.InStep order file) (h : RepeatHooks γ) (ticks : Nat → Tick)
    (fuel i : Nat) {it : Nat} {v : UInt32} {rest : List (Nat × UInt32)}
    (hnodes : s.sendOrder.nodes = (it,v) :: rest) {resent : List UInt32} (hv : v ∉ resent) :
    ∃ sentAt l, s.seqnumsSent[v]? = some sentAt ∧ l.nodes = rest ∧
      l.fresh = s.sendOrder.fresh ∧
      Requeued order file h s (RepeatServer.requeue v (filePacket order file v)
        (ticks i).sendTime l { s with ctl := h.onTimeout s.ctl }) ∧
      timerLoop h ticks (fuel + 1) i (some it) resent s =
        if expired sentAt (ticks i).now then
          if ((ticks i).transmit (filePacket order file v)).1 then
            (timerLoop h ticks fuel (i + 1) (rest.head?.map Prod.fst) (v :: resent)
              (RepeatServer.requeue v (filePacket order file v) (ticks i).sendTime l
                { s with ctl := h.onTimeout s.ctl })).map
              fun (noErr,s',more) =>
                (noErr,s',((ticks i).transmit (filePacket order file v)).2 ++ more)
          else some (false,{ s with ctl := h.onTimeout s.ctl },List.nil)
        else some (true,s,List.nil) := by
  have hout : s.Outstanding v := by
    rw [← hs.mem_order]
    simp [NodeList.values,hnodes]
  obtain ⟨sentAt,hsentAt⟩ := Option.isSome_iff_exists.mp
    (Std.ExtTreeMap.mem_iff_isSome_getElem?.mp (hs.mem_seqnumsSent hout))
  obtain ⟨l,herase,hl,hfresh,hreq⟩ := hs.requeue hnodes (ticks i).sendTime h
  refine ⟨sentAt,l,hsentAt,hl,hfresh,hreq,?_⟩
  have hdata := (hs.dataSent v _).mpr ⟨hout,rfl⟩
  simp only [timerLoop,NodeList.get?_head hnodes,NodeList.next_head hnodes,Option.bind_eq_bind,
    Option.bind_some,hv,if_false,hsentAt,hdata,herase,filePacket_seqno]
  split
  · split
    · generalize timerLoop h ticks fuel (i + 1) _ _ _ = result
      cases result <;> rfl
    · next hsent => rw [Tick.transmit_failed hsent]
  · rfl

end RepeatServer

end ReliableTransfer
