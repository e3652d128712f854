import Mathlib

/-!
# Linked lists with stable iterators

A list of values kept in nodes. An iterator names a node, survives insertions and erasures of
other nodes, and is what `erase` takes. Names are never used twice.
-/

namespace Framework

structure NodeList (α : Type*) where
  nodes : List (Nat × α)
  fresh : Nat
  nodup : (nodes.map Prod.fst).Nodup
  lt_fresh : ∀ p ∈ nodes, p.1 < fresh

namespace NodeList

variable {α : Type*}

def empty : NodeList α := ⟨List.nil,0,List.nodup_nil,by simp⟩

def values (l : NodeList α) : List α := l.nodes.map Prod.snd

def front? (l : NodeList α) : Option (Nat × α) := l.nodes.head?

/-- The value of the node an iterator names. -/
def get? (l : NodeList α) (it : Nat) : Option α := (l.nodes.find? fun p => p.1 == it).map Prod.snd

/-- The iterator to the node after the named one; `none` is the end. -/
def next (l : NodeList α) (it : Nat) : Option Nat :=
  (l.nodes.dropWhile fun p => p.1 != it).tail.head?.map Prod.fst

/-- Appends a node; the iterator to it is `l.fresh`. -/
def pushBack (l : NodeList α) (value : α) : NodeList α where
  nodes := l.nodes ++ [(l.fresh,value)]
  fresh := l.fresh + 1
  nodup := by
    rw [List.map_append,List.nodup_append]
    refine ⟨l.nodup,by simp,?_⟩
    intro a ha b hb
    obtain ⟨p,hp,rfl⟩ := List.mem_map.mp ha
    obtain rfl : b = l.fresh := by simpa using hb
    exact (l.lt_fresh p hp).ne
  lt_fresh := by
    intro p hp
    rcases List.mem_append.mp hp with hp | hp
    · exact Nat.lt_succ_of_lt (l.lt_fresh p hp)
    · obtain rfl : p = (l.fresh,value) := by simpa using hp
      exact Nat.lt_succ_self _

/-- Removes the node an iterator names; `none` when the list has no such node. -/
def erase (l : NodeList α) (it : Nat) : Option (NodeList α) :=
  if it ∈ l.nodes.map Prod.fst then
    some
      { nodes := l.nodes.filter fun p => p.1 ≠ it
        fresh := l.fresh
        nodup := l.nodup.sublist (List.filter_sublist.map _)
        lt_fresh := fun p hp => l.lt_fresh p (List.mem_filter.mp hp).1 }
  else none

@[simp] theorem values_empty : (empty : NodeList α).values = List.nil := rfl

@[simp] theorem nodes_pushBack (l : NodeList α) (value : α) :
    (l.pushBack value).nodes = l.nodes ++ [(l.fresh,value)] := rfl

@[simp] theorem values_pushBack (l : NodeList α) (value : α) :
    (l.pushBack value).values = l.values ++ [value] := by
  simp [values]

theorem mem_values {l : NodeList α} {value : α} :
    value ∈ l.values ↔ ∃ it, (it,value) ∈ l.nodes := by
  simp [values]

theorem value_unique {l : NodeList α} {it : Nat} {a b : α} (ha : (it,a) ∈ l.nodes)
    (hb : (it,b) ∈ l.nodes) : a = b :=
  congrArg Prod.snd (List.inj_on_of_nodup_map l.nodup ha hb rfl)

theorem front?_eq_none {l : NodeList α} : l.front? = none ↔ l.values = List.nil := by
  simp [front?,values]

theorem front?_eq_some {l : NodeList α} {it : Nat} {value : α} (h : l.front? = some (it,value)) :
    ∃ rest, l.nodes = (it,value) :: rest := by
  obtain ⟨rest,hrest⟩ := List.head?_eq_some_iff.mp h
  exact ⟨rest,hrest⟩

theorem erase_of_mem [DecidableEq α] {l : NodeList α} {it : Nat} {value : α}
    (h : (it,value) ∈ l.nodes) (hn : l.values.Nodup) :
    ∃ l', l.erase it = some l' ∧ l'.fresh = l.fresh ∧ l'.values = l.values.erase value ∧
      ∀ p, p ∈ l'.nodes ↔ p ∈ l.nodes ∧ p.2 ≠ value := by
  have hit : it ∈ l.nodes.map Prod.fst := List.mem_map.mpr ⟨_,h,rfl⟩
  have hsame (p : Nat × α) (hp : p ∈ l.nodes) : p.1 = it ↔ p.2 = value := by
    constructor
    · intro he
      have hpair : (it,p.2) ∈ l.nodes := by rw [← he]; exact hp
      exact value_unique hpair h
    · intro he
      have hpair := List.inj_on_of_nodup_map hn hp h he
      exact congrArg Prod.fst hpair
  refine ⟨_,if_pos hit,rfl,?_,?_⟩
  · rw [hn.erase_eq_filter]
    simp only [values,List.filter_map]
    congr 1
    apply List.filter_congr
    intro p hp
    have := hsame p hp
    by_cases he : p.2 = value <;> simp [he,this]
  · intro p
    rw [List.mem_filter]
    constructor
    · rintro ⟨hp,hne⟩
      exact ⟨hp,fun he => by simp [(hsame p hp).mpr he] at hne⟩
    · rintro ⟨hp,hne⟩
      exact ⟨hp,by simpa using fun he => hne ((hsame p hp).mp he)⟩

section Head

variable {l : NodeList α} {it : Nat} {value : α} {rest : List (Nat × α)}

theorem get?_head (h : l.nodes = (it,value) :: rest) : l.get? it = some value := by
  simp [get?,h]

theorem next_head (h : l.nodes = (it,value) :: rest) : l.next it = rest.head?.map Prod.fst := by
  simp [next,h]

theorem erase_head (h : l.nodes = (it,value) :: rest) :
    ∃ l', l.erase it = some l' ∧ l'.nodes = rest ∧ l'.fresh = l.fresh := by
  have hit : it ∈ l.nodes.map Prod.fst := by simp [h]
  have hnodup := l.nodup
  rw [h,List.map_cons,List.nodup_cons] at hnodup
  refine ⟨_,if_pos hit,?_,rfl⟩
  change l.nodes.filter _ = rest
  rw [h,List.filter_cons_of_neg (by simp),List.filter_eq_self]
  intro p hp
  have hne : p.1 ≠ it := fun heq => hnodup.1 (List.mem_map.mpr ⟨p,hp,heq⟩)
  simpa using hne

end Head

end NodeList

end Framework
