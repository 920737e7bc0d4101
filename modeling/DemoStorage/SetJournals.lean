import Mathlib.Order.BooleanAlgebra.Set

/-!
# Journals of a set

A set changes by adding and dropping elements, and a journal lists the edits. Replaying the
journal from the set at the beginning gives the set at the end; an edit that changes
nothing may be listed or not.
-/

namespace DemoStorage.SetJournals

inductive Edit (α : Type*) where
  | add (a : α)
  | drop (a : α)
  deriving DecidableEq

section
variable {α : Type*}

def Edit.apply (s : Set α) : Edit α → Set α
  | .add a => insert a s
  | .drop a => s \ {a}

def replay (s : Set α) (es : List (Edit α)) : Set α := es.foldl Edit.apply s

@[simp] theorem replay_nil (s : Set α) : replay s [] = s := rfl

@[simp] theorem replay_cons (s : Set α) (e : Edit α) (es : List (Edit α)) :
    replay s (e :: es) = replay (e.apply s) es := rfl

theorem replay_append (s : Set α) (es fs : List (Edit α)) :
    replay s (es ++ fs) = replay (replay s es) fs := List.foldl_append

/-- Adding what is there changes nothing. -/
theorem apply_add_of_mem {s : Set α} {a : α} (h : a ∈ s) : (Edit.add a).apply s = s :=
  Set.insert_eq_of_mem h

/-- Dropping what is not there changes nothing. -/
theorem apply_drop_of_notMem {s : Set α} {a : α} (h : a ∉ s) : (Edit.drop a).apply s = s :=
  Set.sdiff_singleton_eq_self h

/-- Adding and dropping again restores the set. -/
theorem apply_drop_add {s : Set α} {a : α} (h : a ∉ s) :
    (Edit.drop a).apply ((Edit.add a).apply s) = s :=
  Set.insert_sdiff_self_of_notMem h

end
end DemoStorage.SetJournals
