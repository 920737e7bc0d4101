import DemoStorage.ConditionedRuns
import Mathlib.Algebra.BigOperators.Group.List.Basic
import Mathlib.Algebra.Ring.Int.Defs

/-!
# Traces and the acceptors of their events

A machine tells the events of each of its steps, and a run has the events of its steps in
their order. An acceptor reads events one by one and may refuse one. When every step takes
the acceptor from a state that fits the machine to one that fits it again, every trace is
accepted.
-/

namespace DemoStorage.TraceAcceptors
open ConditionedRuns

section
variable {σ ι ε α : Type*} {step : σ → ι → σ × List ε} {next : α → ε → Option α}

/-- The step without its events. -/
def move (step : σ → ι → σ × List ε) (s : σ) (i : ι) : σ := (step s i).1

instance decidableMeets {τ : σ → ι → σ} {C : σ → ι → Prop} [∀ s i, Decidable (C s i)] (s : σ)
    (is : List ι) : Decidable (Meets τ C s is) :=
  match is with
  | [] => inferInstanceAs (Decidable True)
  | i :: is =>
    have : Decidable (Meets τ C (τ s i) is) := decidableMeets (τ s i) is
    inferInstanceAs (Decidable (C s i ∧ Meets τ C (τ s i) is))

/-- The events of a run. -/
def trace (step : σ → ι → σ × List ε) : σ → List ι → List ε
  | _, [] => []
  | s, i :: is => (step s i).2 ++ trace step (step s i).1 is

theorem trace_append (s : σ) (is js : List ι) :
    trace step s (is ++ js) = trace step s is ++ trace step (run (move step) s is) js := by
  induction is generalizing s with
  | nil => rfl
  | cons i is ih => simp only [List.cons_append, trace, ih, run_cons, List.append_assoc, move]

/-- The state of an acceptor behind some events, unless it refuses one. -/
def drive (next : α → ε → Option α) : α → List ε → Option α
  | a, [] => some a
  | a, e :: es => (next a e).bind fun b => drive next b es

@[simp] theorem drive_nil (a : α) : drive next a [] = some a := rfl

@[simp] theorem drive_cons (a : α) (e : ε) (es : List ε) :
    drive next a (e :: es) = (next a e).bind fun b => drive next b es := rfl

theorem drive_append (a : α) (es fs : List ε) :
    drive next a (es ++ fs) = (drive next a es).bind fun b => drive next b fs := by
  induction es generalizing a with
  | nil => rfl
  | cons e es ih =>
    simp only [List.cons_append, drive_cons, ih]
    cases next a e <;> rfl

/-- What is accepted has been accepted all along. -/
theorem drive_prefix {a b : α} {es fs : List ε} (h : drive next a fs = some b) (hp : es <+: fs) :
    ∃ c, drive next a es = some c := by
  obtain ⟨gs, rfl⟩ := hp
  rw [drive_append] at h
  obtain ⟨c, hc, -⟩ := Option.bind_eq_some_iff.mp h
  exact ⟨c, hc⟩

/-- The acceptor reads the events of a step and fits again. -/
def Reads (next : α → ε → Option α) (R : σ → α → Prop) (a : α) (r : σ × List ε) : Prop :=
  ∃ b, drive next a r.2 = some b ∧ R r.1 b

/-- A trace is accepted when the steps that meet the condition are read. -/
theorem trace_accepted {R : σ → α → Prop} {C : σ → ι → Prop}
    (hstep : ∀ s i a, R s a → C s i → Reads next R a (step s i)) {s : σ} {a : α} {is : List ι}
    (h : R s a) (hm : Meets (move step) C s is) :
    ∃ b, drive next a (trace step s is) = some b ∧ R (run (move step) s is) b := by
  induction is generalizing s a with
  | nil => exact ⟨a, rfl, h⟩
  | cons i is ih =>
    obtain ⟨b, hb, hR⟩ := hstep s i a h hm.1
    obtain ⟨c, hc, hend⟩ := ih hR hm.2
    refine ⟨c, ?_, hend⟩
    rw [trace, drive_append, hb]
    exact hc

/-- A trace is accepted when every step is read. -/
theorem trace_accepted_always {R : σ → α → Prop}
    (hstep : ∀ s i a, R s a → Reads next R a (step s i)) {s : σ} {a : α} (h : R s a)
    (is : List ι) :
    ∃ b, drive next a (trace step s is) = some b ∧ R (run (move step) s is) b := by
  induction is generalizing s a with
  | nil => exact ⟨a, rfl, h⟩
  | cons i is ih =>
    obtain ⟨b, hb, hR⟩ := hstep s i a h
    obtain ⟨c, hc, hend⟩ := ih hR
    refine ⟨c, ?_, hend⟩
    rw [trace, drive_append, hb]
    exact hc

/-- A property of the events of every step is one of the trace. -/
theorem forall_mem_trace {I : σ → Prop} {P : ε → Prop} (hkeep : ∀ s i, I s → I (step s i).1)
    (hstep : ∀ s i, I s → ∀ e ∈ (step s i).2, P e) {s : σ} (h : I s) (is : List ι) :
    ∀ e ∈ trace step s is, P e := by
  induction is generalizing s with
  | nil => simp [trace]
  | cons i is ih =>
    intro e he
    rcases List.mem_append.mp he with hnow | hlater
    · exact hstep s i h e hnow
    · exact ih (hkeep s i h) e hlater

end
end DemoStorage.TraceAcceptors
