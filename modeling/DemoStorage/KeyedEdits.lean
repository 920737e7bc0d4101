import Mathlib.Logic.Function.Basic

/-!
# Edits of a keyed store

A store maps keys to values. An edit creates a value unless there is one, puts a value in any
case, or removes what is there. At one key a sequence of edits either ends in the same value
from wherever it starts, or keeps every value it finds; in both cases doing it twice does no
more than doing it once.
-/

namespace DemoStorage.KeyedEdits

inductive Edit (κ ν : Type*) where
  | create (k : κ) (v : ν)
  | put (k : κ) (v : ν)
  | remove (k : κ)

section
variable {κ ν : Type*} [DecidableEq κ]

def Edit.key : Edit κ ν → κ
  | .create k _ => k
  | .put k _ => k
  | .remove k => k

/-- What an edit makes of the value at its key. -/
def Edit.value : Edit κ ν → Option ν → Option ν
  | .create _ v, x => some (x.getD v)
  | .put _ v, _ => some v
  | .remove _, _ => none

def Edit.apply (m : κ → Option ν) (e : Edit κ ν) : κ → Option ν :=
  Function.update m e.key (e.value (m e.key))

def applyAll (m : κ → Option ν) (es : List (Edit κ ν)) : κ → Option ν := es.foldl Edit.apply m

@[simp] theorem applyAll_nil (m : κ → Option ν) : applyAll m [] = m := rfl

@[simp] theorem applyAll_cons (m : κ → Option ν) (e : Edit κ ν) (es : List (Edit κ ν)) :
    applyAll m (e :: es) = applyAll (e.apply m) es := rfl

/-- What a sequence of edits makes of the value at one key. -/
def valueAt (k : κ) (es : List (Edit κ ν)) (x : Option ν) : Option ν :=
  es.foldl (fun x e => if e.key = k then e.value x else x) x

/-- The value at a key depends on the edits and on the value that was there. -/
theorem applyAll_apply (m : κ → Option ν) (es : List (Edit κ ν)) (k : κ) :
    applyAll m es k = valueAt k es (m k) := by
  induction es generalizing m with
  | nil => rfl
  | cons e es ih =>
    rw [applyAll_cons, ih]
    by_cases h : e.key = k
    · subst h
      simp [Edit.apply, valueAt]
    · have hne : k ≠ e.key := fun he => h he.symm
      simp [Edit.apply, valueAt, h, hne]

/-- A function that forgets what it is given, or keeps every value. -/
def Settles (f : Option ν → Option ν) : Prop :=
  (∃ y, ∀ x, f x = y) ∨ ∀ v, f (some v) = some v

theorem Settles.comp {f g : Option ν → Option ν} (hf : Settles f) (hg : Settles g) :
    Settles (fun x => g (f x)) := by
  rcases hf with ⟨y, hf⟩ | hf
  · exact .inl ⟨g y, fun x => congrArg g (hf x)⟩
  · rcases hg with ⟨z, hg⟩ | hg
    · exact .inl ⟨z, fun x => hg _⟩
    · exact .inr fun v => (congrArg g (hf v)).trans (hg v)

theorem Settles.idempotent {f : Option ν → Option ν} (h : Settles f) (x : Option ν) :
    f (f x) = f x := by
  rcases h with ⟨y, hy⟩ | hkeep
  · rw [hy, hy]
  · cases hx : f x with
    | some v => exact hkeep v
    | none =>
      cases x with
      | none => exact hx
      | some w =>
        rw [hkeep] at hx
        cases hx

omit [DecidableEq κ] in
theorem Edit.settles (e : Edit κ ν) : Settles e.value := by
  cases e with
  | create k v => exact .inr fun _ => rfl
  | put k v => exact .inl ⟨some v, fun _ => rfl⟩
  | remove k => exact .inl ⟨none, fun _ => rfl⟩

theorem valueAt_settles (k : κ) (es : List (Edit κ ν)) : Settles (valueAt k es) := by
  induction es with
  | nil => exact .inr fun _ => rfl
  | cons e es ih =>
    have hfirst : Settles fun x : Option ν => if e.key = k then e.value x else x := by
      by_cases h : e.key = k
      · simpa only [h, if_true] using e.settles
      · exact .inr fun _ => if_neg h
    exact hfirst.comp ih

/-- Applying the edits twice does no more than applying them once. -/
theorem applyAll_twice (m : κ → Option ν) (es : List (Edit κ ν)) :
    applyAll (applyAll m es) es = applyAll m es := by
  funext k
  rw [applyAll_apply, applyAll_apply, (valueAt_settles k es).idempotent]

end
end DemoStorage.KeyedEdits
