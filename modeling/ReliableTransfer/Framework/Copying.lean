import Mathlib

/-!
# Copying a list

What a transfer is for: a copy grows by the next element of its source until it has them all, and
is closed then, once.
-/

namespace Framework

variable {α : Type*}

structure Copy (α : Type*) where
  written : List α
  closed : Bool

namespace Copy

def empty : Copy α := ⟨List.nil,false⟩

inductive Step (source : List α) : Copy α → Copy α → Prop
  | next {done a rest} : source = done ++ a :: rest → Step source ⟨done,false⟩ ⟨done ++ [a],false⟩
  | close : Step source ⟨source,false⟩ ⟨source,true⟩

def Run (source : List α) : Copy α → Copy α → Prop := Relation.ReflTransGen (Step source)

/-- Nothing but the beginning of the source is written, and all of it before the end. -/
structure Faithful (source : List α) (c : Copy α) : Prop where
  written : c.written <+: source
  closed : c.closed = true → c.written = source

variable {source : List α} {c c' : Copy α}

theorem run_onward (hopen : c.closed = false) (hle : c.written <+: c'.written)
    (hc' : c'.Faithful source) : Run source c c' := by
  obtain ⟨written,closed⟩ := c
  obtain ⟨written',closed'⟩ := c'
  obtain ⟨more,rfl⟩ := hle
  obtain rfl : closed = false := hopen
  have hgrown : Run source ⟨written,false⟩ ⟨written ++ more,false⟩ := by
    have hsource : written ++ more <+: source := hc'.written
    clear hc'
    induction more generalizing written with
    | nil =>
      rw [List.append_nil]
      exact .refl
    | cons a more ih =>
      obtain ⟨rest,hrest⟩ := hsource
      have hnext : Step source ⟨written,false⟩ ⟨written ++ [a],false⟩ :=
        Step.next (show source = written ++ a :: (more ++ rest) by
          rw [← hrest,List.append_assoc]
          rfl)
      have hsplit : written ++ a :: more = written ++ [a] ++ more := by simp
      rw [hsplit] at hrest ⊢
      exact .head hnext (ih (written ++ [a]) ⟨rest,hrest⟩)
  cases closed'
  · exact hgrown
  · obtain rfl : written ++ more = source := hc'.closed rfl
    exact hgrown.tail .close

end Copy

end Framework
