import Mathlib.Data.List.Basic

/-!
# Runs whose steps meet a condition

A step function takes a state and an input; a run is its fold over a list of inputs. A run
meets a condition when every step does, in the state it is taken from. What every step
meeting the condition keeps holds in every state such a run reaches.
-/

namespace DemoStorage.ConditionedRuns

section
variable {σ ι : Type*} {step : σ → ι → σ} {C : σ → ι → Prop}

def run (step : σ → ι → σ) (s : σ) (is : List ι) : σ := is.foldl step s

@[simp] theorem run_nil (s : σ) : run step s [] = s := rfl

@[simp] theorem run_cons (s : σ) (i : ι) (is : List ι) :
    run step s (i :: is) = run step (step s i) is := rfl

theorem run_append (s : σ) (is js : List ι) :
    run step s (is ++ js) = run step (run step s is) js := List.foldl_append

/-- An invariant of all steps holds at the end of every run. -/
theorem run_invariant {I : σ → Prop} {s : σ} (h0 : I s) (hstep : ∀ s i, I s → I (step s i))
    (is : List ι) : I (run step s is) := by
  induction is generalizing s with
  | nil => exact h0
  | cons i is ih => exact ih (hstep s i h0)

/-- What an invariant leaves undone gets done when some step always brings it nearer. -/
theorem exists_run {I D : σ → Prop} {μ : σ → ℕ} (hstep : ∀ s i, I s → I (step s i))
    (hnearer : ∀ s, I s → ¬ D s → ∃ i, μ (step s i) < μ s) {s : σ} (h0 : I s) :
    ∃ is, is.length ≤ μ s ∧ D (run step s is) := by
  induction hμ : μ s using Nat.strongRecOn generalizing s with
  | ind n ih =>
    by_cases hd : D s
    · exact ⟨[], Nat.zero_le _, hd⟩
    · obtain ⟨i, hi⟩ := hnearer s h0 hd
      rw [hμ] at hi
      obtain ⟨is, hlen, hdone⟩ := ih _ hi (hstep s i h0) rfl
      exact ⟨i :: is, by rw [List.length_cons]; omega, hdone⟩

/-- Every step of the run meets the condition. -/
def Meets (step : σ → ι → σ) (C : σ → ι → Prop) : σ → List ι → Prop
  | _, [] => True
  | s, i :: is => C s i ∧ Meets step C (step s i) is

theorem meets_append (s : σ) (is js : List ι) :
    Meets step C s (is ++ js) ↔ Meets step C s is ∧ Meets step C (run step s is) js := by
  induction is generalizing s with
  | nil => simp [Meets]
  | cons i is ih => simp only [List.cons_append, Meets, ih, run_cons, and_assoc]

theorem Meets.of_prefix {s : σ} {is js : List ι} (h : Meets step C s js) (hp : is <+: js) :
    Meets step C s is := by
  obtain ⟨ks, rfl⟩ := hp
  exact ((meets_append s is ks).mp h).1

theorem Meets.imp {D : σ → ι → Prop} {s : σ} {is : List ι} (h : Meets step C s is)
    (hD : ∀ s i, C s i → D s i) : Meets step D s is := by
  induction is generalizing s with
  | nil => trivial
  | cons i is ih => exact ⟨hD s i h.1, ih h.2⟩

/-- Along a run whose steps meet a condition, two further conditions that agree under it
are met together. -/
theorem Meets.congr {D E : σ → ι → Prop} {s : σ} {is : List ι} (h : Meets step C s is)
    (hDE : ∀ s i, C s i → (D s i ↔ E s i)) : Meets step D s is ↔ Meets step E s is := by
  induction is generalizing s with
  | nil => exact Iff.rfl
  | cons i is ih => exact and_congr (hDE s i h.1) (ih h.2)

/-- An invariant of the steps that meet the condition holds at the end of the run. -/
theorem Meets.invariant {I : σ → Prop} {s : σ} {is : List ι} (h : Meets step C s is)
    (h0 : I s) (hstep : ∀ s i, I s → C s i → I (step s i)) : I (run step s is) := by
  induction is generalizing s with
  | nil => exact h0
  | cons i is ih => exact ih h.2 (hstep s i h0 h.1)

/-- With an invariant kept, each step has what the invariant and its condition give. -/
theorem Meets.conclude {I : σ → Prop} {D : σ → ι → Prop} {s : σ} {is : List ι}
    (h : Meets step C s is) (h0 : I s) (hstep : ∀ s i, I s → C s i → D s i ∧ I (step s i)) :
    Meets step D s is := by
  induction is generalizing s with
  | nil => trivial
  | cons i is ih =>
    obtain ⟨hd, hi⟩ := hstep s i h0 h.1
    exact ⟨hd, ih h.2 hi⟩

/-- The invariant holds in every state the run reaches. -/
theorem Meets.always {I : σ → Prop} {s : σ} {is : List ι} (h : Meets step C s is) (h0 : I s)
    (hstep : ∀ s i, I s → C s i → I (step s i)) {js : List ι} (hp : js <+: is) :
    I (run step s js) :=
  (h.of_prefix hp).invariant h0 hstep

/-- Where the steps that meet the condition keep an invariant giving a property, and every
other step breaks the property, the runs with the property throughout are those whose steps
meet the condition. -/
theorem meets_iff_always {I P : σ → Prop} {s : σ} {is : List ι} (h0 : I s) (hP : ∀ s, I s → P s)
    (hkeep : ∀ s i, I s → C s i → I (step s i)) (hbreak : ∀ s i, I s → ¬ C s i → ¬ P (step s i)) :
    (∀ js, js <+: is → P (run step s js)) ↔ Meets step C s is := by
  constructor
  · intro h
    induction is generalizing s with
    | nil => trivial
    | cons i is ih =>
      have hc : C s i := by
        by_contra hn
        exact hbreak s i h0 hn (h [i] ⟨is, rfl⟩)
      refine ⟨hc, ih (hkeep s i h0 hc) fun js hjs => ?_⟩
      exact h (i :: js) (List.cons_prefix_cons.mpr ⟨rfl, hjs⟩)
  · intro h js hjs
    exact hP _ (h.always h0 hkeep hjs)

end
end DemoStorage.ConditionedRuns
