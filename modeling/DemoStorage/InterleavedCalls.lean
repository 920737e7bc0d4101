import DemoStorage.ConditionedRuns
import Mathlib.Algebra.Order.Group.Int
import Mathlib.Logic.Function.Basic

/-!
# Threads whose calls interleave

A thread is a sequence of calls on a shared state, each of them one step, where what a call
finds decides how the thread goes on. Alone it runs to its end; in a pool the calls of all
threads interleave in any order. Where every thread has a part of the state that the calls of
the others leave alone, what it does to its part alone is what it does in every order. A quantity
that calls only add to is nowhere greater for a thread alone than among others.
-/

namespace DemoStorage.InterleavedCalls
open ConditionedRuns

universe u v

/-- A call changes the state; how the thread goes on depends on the state it was made in. -/
inductive Thread (σ : Type u) (α : Type v) where
  | done (a : α)
  | call (f : σ → σ) (next : σ → Thread σ α)

namespace Thread
variable {σ : Type u} {α β : Type v}

/-- One call with a result. -/
def atomic (f : σ → σ × α) : Thread σ α := .call (fun s => (f s).1) fun s => .done (f s).2

def bind : Thread σ α → (α → Thread σ β) → Thread σ β
  | .done a, k => k a
  | .call f next, k => .call f fun s => (next s).bind k

instance : Monad (Thread σ) where
  pure := .done
  bind := .bind

/-- The thread alone. -/
def alone : Thread σ α → σ → σ × α
  | .done a, s => (s, a)
  | .call f next, s => (next s).alone (f s)

@[simp] theorem alone_pure (a : α) (s : σ) : (pure a : Thread σ α).alone s = (s, a) := rfl

@[simp] theorem alone_atomic (f : σ → σ × α) (s : σ) : (atomic f).alone s = f s := rfl

@[simp] theorem alone_bind (p : Thread σ α) (k : α → Thread σ β) (s : σ) :
    (p >>= k).alone s = (k (p.alone s).2).alone (p.alone s).1 := by
  induction p generalizing s with
  | done a => rfl
  | call f next ih => exact ih s (f s)

@[simp] theorem alone_ite (c : Prop) [Decidable c] (p q : Thread σ α) (s : σ) :
    (if c then p else q).alone s = if c then p.alone s else q.alone s := by
  split_ifs <;> rfl

/-- What a thread at its end has ended with. -/
def result : Thread σ α → Option α
  | .done a => some a
  | .call _ _ => none

/-- Every state in which the thread, alone, makes a call. -/
def Along (A : σ → Prop) : Thread σ α → σ → Prop
  | .done _, _ => True
  | .call f next, s => A s ∧ (next s).Along A (f s)

/-- A thread at its end makes no call. -/
theorem along_of_result {A : σ → Prop} {p : Thread σ α} {s : σ} {a : α}
    (h : p.result = some a) : p.Along A s := by
  cases p with
  | done b => trivial
  | call f next => cases h

instance Along.decidable {A : σ → Prop} [DecidablePred A] :
    (p : Thread σ α) → (s : σ) → Decidable (p.Along A s)
  | .done _, _ => .isTrue trivial
  | .call f next, s =>
    have := decidable (A := A) (next s) (f s)
    inferInstanceAs (Decidable (A s ∧ (next s).Along A (f s)))

end Thread

/-- The threads, and the state they share. -/
structure Pool (ι : Type*) (σ : Type u) (α : Type v) where
  state : σ
  thread : ι → Thread σ α

section
variable {ι τ : Type*} {σ : Type u} {α β : Type v} {A : σ → Prop} {V : ι → τ → σ → Prop} {i : ι}

/-- The next call of a thread. -/
def Pool.step [DecidableEq ι] (x : Pool ι σ α) (i : ι) : Pool ι σ α :=
  match x.thread i with
  | .done _ => x
  | .call f next => ⟨f x.state, Function.update x.thread i (next x.state)⟩

/-- Every other thread is shown the part it was shown before. -/
def Harmless (V : ι → τ → σ → Prop) (i : ι) (s s' : σ) : Prop :=
  ∀ j, j ≠ i → ∀ t, V j t s → V j t s'

theorem Harmless.refl (s : σ) : Harmless V i s s := fun _ _ _ h => h

theorem Harmless.trans {s s' s'' : σ} (h : Harmless V i s s') (h' : Harmless V i s' s'') :
    Harmless V i s s'' := fun j hj t ht => h' j hj t (h j hj t ht)

/-- Whatever state shows the thread its part, each of its calls leaves the other parts alone and
changes its own, and it ends with what is asked for. -/
def Secures (A : σ → Prop) (V : ι → τ → σ → Prop) (i : ι) :
    Thread σ α → (α → τ → Prop) → τ → Prop
  | .done a, Q, t => Q a t
  | .call f next, Q, t => ∀ s, A s → V i t s →
      Harmless V i s (f s) ∧ ∃ t', V i t' (f s) ∧ Secures A V i (next s) Q t'

namespace Secures
variable {p : Thread σ α} {Q Q' : α → τ → Prop} {t : τ}

theorem pure {a : α} (h : Q a t) : Secures A V i (Pure.pure a : Thread σ α) Q t := h

theorem atomic {f : σ → σ × α} (h : ∀ s, A s → V i t s →
    Harmless V i s (f s).1 ∧ ∃ t', V i t' (f s).1 ∧ Q (f s).2 t') :
    Secures A V i (Thread.atomic f) Q t := h

theorem imp (h : Secures A V i p Q t) (hQ : ∀ a t, Q a t → Q' a t) : Secures A V i p Q' t := by
  induction p generalizing t with
  | done a => exact hQ a t h
  | call f next ih =>
    intro s hs hv
    obtain ⟨hharm, t', hv', hnext⟩ := h s hs hv
    exact ⟨hharm, t', hv', ih s hnext⟩

theorem bind {k : α → Thread σ β} {Q : β → τ → Prop}
    (h : Secures A V i p (fun a t => Secures A V i (k a) Q t) t) :
    Secures A V i (p >>= k) Q t := by
  induction p generalizing t with
  | done a => exact h
  | call f next ih =>
    intro s hs hv
    obtain ⟨hharm, t', hv', hnext⟩ := h s hs hv
    exact ⟨hharm, t', hv', ih s hnext⟩

end Secures

/-- Among the calls of all others, the thread ends with `a` and with its part `t'`: its part decides
what each of its calls finds, and what the call adds to a quantity of the state. -/
inductive Yields (A : σ → Prop) (V : ι → τ → σ → Prop) (size : σ → ℤ) (i : ι) :
    Thread σ α → τ → α → τ → Prop
  | done (a : α) (t : τ) : Yields A V size i (.done a) t a t
  | call {f : σ → σ} {next : σ → Thread σ α} {p : Thread σ α} {t u t' : τ} {a : α} (n : ℕ)
      (h : ∀ s, A s → V i t s →
        Harmless V i s (f s) ∧ V i u (f s) ∧ next s = p ∧ size (f s) = size s + n)
      (hp : Yields A V size i p u a t') : Yields A V size i (.call f next) t a t'

namespace Yields
variable {size : σ → ℤ} {p : Thread σ α} {t u t' : τ} {a : α} {b : β}

theorem pure : Yields A V size i (Pure.pure a : Thread σ α) t a t := done a t

theorem atomic {f : σ → σ × α} (n : ℕ) (h : ∀ s, A s → V i t s →
    Harmless V i s (f s).1 ∧ V i t' (f s).1 ∧ (f s).2 = a ∧ size (f s).1 = size s + n) :
    Yields A V size i (Thread.atomic f) t a t' := by
  refine call n (fun s hs hv => ?_) (done a t')
  obtain ⟨hharm, hv', ha, hsize⟩ := h s hs hv
  exact ⟨hharm, hv', congrArg Thread.done ha, hsize⟩

theorem bind {k : α → Thread σ β} (h : Yields A V size i p t a u)
    (hk : Yields A V size i (k a) u b t') : Yields A V size i (p >>= k) t b t' := by
  induction h with
  | done a t => exact hk
  | call n h hp ih =>
    refine call n (fun s hs hv => ?_) (ih hk)
    obtain ⟨hharm, hv', hnext, hsize⟩ := h s hs hv
    exact ⟨hharm, hv', congrArg (Thread.bind · k) hnext, hsize⟩

theorem secures (h : Yields A V size i p t a t') :
    Secures A V i p (fun b u => b = a ∧ u = t') t := by
  induction h with
  | done a t => exact ⟨rfl, rfl⟩
  | call n h hp ih =>
    intro s hs hv
    obtain ⟨hharm, hv', rfl, -⟩ := h s hs hv
    exact ⟨hharm, _, hv', ih⟩

/-- What a thread yields among others is what it does alone. -/
theorem alone (h : Yields A V size i p t a t') {s : σ} (hA : p.Along A s) (hv : V i t s) :
    (p.alone s).2 = a ∧ V i t' (p.alone s).1 := by
  induction h generalizing s with
  | done a t => exact ⟨rfl, hv⟩
  | call n h hp ih =>
    obtain ⟨-, hu, rfl, -⟩ := h s hA.1 hv
    exact ih hA.2 hu

end Yields

variable [DecidableEq ι] {x : Pool ι σ α} {Q : ι → α → τ → Prop} {size : σ → ℤ}

/-- Every thread is shown a part from which it secures what is asked of it. -/
def Pool.Secured (A : σ → Prop) (V : ι → τ → σ → Prop) (Q : ι → α → τ → Prop)
    (x : Pool ι σ α) : Prop :=
  ∀ i, ∃ t, V i t x.state ∧ Secures A V i (x.thread i) (Q i) t

theorem Pool.Secured.step (h : x.Secured A V Q) (hA : A x.state) (i : ι) :
    (x.step i).Secured A V Q := by
  obtain ⟨t, hv, hsec⟩ := h i
  unfold Pool.step
  cases hp : x.thread i with
  | done a => exact h
  | call f next =>
    rw [hp] at hsec
    obtain ⟨hharm, t', hv', hnext⟩ := hsec x.state hA hv
    intro j
    by_cases hj : j = i
    · subst hj
      exact ⟨t', hv', by simpa using hnext⟩
    · obtain ⟨u, hu, hsecj⟩ := h j
      exact ⟨u, hharm j hj u hu, by simpa [hj] using hsecj⟩

/-- In whatever order the calls are made. -/
theorem Pool.Secured.run (h : x.Secured A V Q) {is : List ι}
    (hA : Meets Pool.step (fun x _ => A x.state) x is) : (run Pool.step x is).Secured A V Q :=
  hA.invariant h fun _ i hx ha => hx.step ha i

/-- A thread that has come to its end has what it yields, in whatever order all calls were made. -/
theorem Pool.yields_of_done {a : ι → α} {t t' : ι → τ} (hv : ∀ i, V i (t i) x.state)
    (h : ∀ i, Yields A V size i (x.thread i) (t i) (a i) (t' i)) {is : List ι}
    (hA : Meets Pool.step (fun x _ => A x.state) x is) {b : α}
    (hi : ((run Pool.step x is).thread i).result = some b) :
    b = a i ∧ V i (t' i) (run Pool.step x is).state := by
  have hx : x.Secured A V fun i b u => b = a i ∧ u = t' i := fun i => ⟨t i, hv i, (h i).secures⟩
  obtain ⟨u, hu, hsec⟩ := hx.run hA i
  cases hp : (run Pool.step x is).thread i with
  | call f next =>
    rw [hp] at hi
    cases hi
  | done b' =>
    rw [hp] at hi hsec
    obtain rfl : b' = b := Option.some.inj hi
    obtain ⟨rfl, rfl⟩ : b' = a i ∧ u = t' i := hsec
    exact ⟨rfl, hu⟩

/-- Every thread has a part from which it yields something. -/
def Pool.Yielding (A : σ → Prop) (V : ι → τ → σ → Prop) (size : σ → ℤ) (x : Pool ι σ α) : Prop :=
  ∀ i, ∃ t a t', V i t x.state ∧ Yields A V size i (x.thread i) t a t'

/-- What a step of another thread leaves to a thread, and that it takes nothing off the quantity. -/
theorem Pool.Yielding.other (h : x.Yielding A V size) (hA : A x.state) {k : ι} (hk : i ≠ k) :
    (x.step k).thread i = x.thread i ∧ (∀ t, V i t x.state → V i t (x.step k).state) ∧
      size x.state ≤ size (x.step k).state := by
  obtain ⟨t, a, t', hv, hy⟩ := h k
  unfold Pool.step
  cases hp : x.thread k with
  | done b => exact ⟨rfl, fun _ ht => ht, le_refl _⟩
  | call f next =>
    rw [hp] at hy
    cases hy with
    | call n hf hnext =>
      obtain ⟨hharm, -, -, hsize⟩ := hf x.state hA hv
      refine ⟨by simp [hk], hharm i hk, ?_⟩
      dsimp only
      omega

theorem Pool.Yielding.step (h : x.Yielding A V size) (hA : A x.state) (k : ι) :
    (x.step k).Yielding A V size := by
  intro j
  obtain ⟨t, a, t', hv, hy⟩ := h j
  by_cases hj : j = k
  · subst hj
    unfold Pool.step
    cases hp : x.thread j with
    | done b => exact ⟨t, a, t', hv, hy⟩
    | call f next =>
      rw [hp] at hy
      cases hy with
      | call n hf hnext =>
        obtain ⟨-, hu, rfl, -⟩ := hf x.state hA hv
        exact ⟨_, a, t', hu, by simpa using hnext⟩
  · obtain ⟨hthread, hshown, -⟩ := h.other hA hj
    exact ⟨t, a, t', hshown t hv, hthread ▸ hy⟩

/-- Alone, a thread that has ended among others meets states that are no greater than those it
has met there. -/
theorem Pool.along_of_done {s s' : σ} {t t' : τ} {a : α} (hx : x.Yielding A V size)
    (hbetween : ∀ u v, A v → size s ≤ size u → size u ≤ size v → A u) {is : List ι}
    (hA : Meets Pool.step (fun x _ => A x.state) x is) {b : α}
    (hi : ((run Pool.step x is).thread i).result = some b)
    (hy : Yields A V size i (x.thread i) t a t') (hv : V i t x.state) (hv' : V i t s')
    (hleast : size s ≤ size s') (hle : size s' ≤ size x.state) : (x.thread i).Along A s' := by
  induction is generalizing x t s' with
  | nil => exact Thread.along_of_result hi
  | cons k is ih =>
    obtain ⟨hnow, hlater⟩ := hA
    by_cases hk : i = k
    · subst hk
      have hstep := hx.step hnow i
      simp only [run, List.foldl_cons] at hi
      cases hp : x.thread i with
      | done b' => trivial
      | call f next =>
        rw [hp] at hy
        cases hy with
        | @call _ _ p _ u _ _ n hf hnext =>
          have hhere := hbetween s' x.state hnow hleast hle
          obtain ⟨-, hu, hsame, hsize⟩ := hf x.state hnow hv
          obtain ⟨-, hu', hsame', hsize'⟩ := hf s' hhere hv'
          have hmoved : x.step i = ⟨f x.state, Function.update x.thread i p⟩ := by
            rw [Pool.step, hp]
            exact congrArg (fun q => Pool.mk (f x.state) (Function.update x.thread i q)) hsame
          rw [hmoved] at hstep hlater hi
          refine ⟨hhere, ?_⟩
          rw [hsame']
          have hrest := ih hstep hlater hi (by simpa using hnext) hu hu' (by omega)
            (by dsimp only; omega)
          simpa using hrest
    · obtain ⟨hthread, hshown, hsize⟩ := hx.other hnow hk
      have hrest := ih (hx.step hnow k) hlater hi (hthread ▸ hy) (hshown t hv) hv' hleast
        (hle.trans hsize)
      rwa [hthread] at hrest

end
end DemoStorage.InterleavedCalls
