import Mathlib.Order.Basic

/-!
# Runs of a deterministic step function

A system given by `step : σ → ε → σ` runs a list of events by a left fold.
External nondeterminism (which message arrives, what a backend answers) lives
in the events, so one step function describes every interleaving.

`run_invariant` is the induction rule the invariants of this development go
through: what holds initially and is kept by every step holds after any run.
`run_monotone` carries a measure that no step from an invariant state
decreases to whole runs. `run_simulation` carries a relation between two
systems that run the same events.
-/

namespace Run

variable {σ ε : Type}

/-- The state reached from `s` by the events `es`, in order. -/
def run (step : σ → ε → σ) (s : σ) (es : List ε) : σ :=
  es.foldl step s

@[simp] theorem run_nil (step : σ → ε → σ) (s : σ) : run step s [] = s := rfl

@[simp] theorem run_cons (step : σ → ε → σ) (s : σ) (e : ε) (es : List ε) :
    run step s (e :: es) = run step (step s e) es := rfl

theorem run_append (step : σ → ε → σ) (s : σ) (es fs : List ε) :
    run step s (es ++ fs) = run step (run step s es) fs :=
  List.foldl_append

theorem run_concat (step : σ → ε → σ) (s : σ) (es : List ε) (e : ε) :
    run step s (es ++ [e]) = step (run step s es) e := by
  rw [run_append]
  rfl

/-- **Invariant rule.** A property kept by every step holds after every run. -/
theorem run_invariant (step : σ → ε → σ) (P : σ → Prop)
    (hstep : ∀ s e, P s → P (step s e)) :
    ∀ (es : List ε) (s : σ), P s → P (run step s es) := by
  intro es
  induction es with
  | nil => intro s hs; exact hs
  | cons e es ih => intro s hs; exact ih (step s e) (hstep s e hs)

/-- **Invariant rule for admissible events.** A property kept by every step
on an event satisfying `Q` holds after every run of such events. -/
theorem run_invariant_of_forall (step : σ → ε → σ) (P : σ → Prop) (Q : ε → Prop)
    (hstep : ∀ s e, Q e → P s → P (step s e)) :
    ∀ (es : List ε) (s : σ), (∀ e ∈ es, Q e) → P s → P (run step s es) := by
  intro es
  induction es with
  | nil => intro s _ hs; exact hs
  | cons e es ih =>
    intro s hes hs
    exact ih (step s e) (fun e' he' => hes e' (List.mem_cons_of_mem e he'))
      (hstep s e (hes e List.mem_cons_self) hs)

/-- **Simulation rule.** If every admissible event keeps a relation between
the states of two systems, it holds after both run the same admissible
events. -/
theorem run_simulation {τ : Type} (step : σ → ε → σ) (step' : τ → ε → τ) (R : σ → τ → Prop)
    (Q : ε → Prop) (hstep : ∀ s t e, Q e → R s t → R (step s e) (step' t e)) :
    ∀ (es : List ε) (s : σ) (t : τ), (∀ e ∈ es, Q e) → R s t →
      R (run step s es) (run step' t es) := by
  intro es
  induction es with
  | nil => intro s t _ h; exact h
  | cons e es ih =>
    intro s t hes h
    exact ih (step s e) (step' t e) (fun e' he' => hes e' (List.mem_cons_of_mem e he'))
      (hstep s t e (hes e List.mem_cons_self) h)

/-- **Monotonicity rule.** If every step from a state satisfying the invariant
`P` does not decrease the measure `f`, no run decreases it. -/
theorem run_monotone (step : σ → ε → σ) (P : σ → Prop) {β : Type} [Preorder β] (f : σ → β)
    (hinv : ∀ s e, P s → P (step s e)) (hmono : ∀ s e, P s → f s ≤ f (step s e)) :
    ∀ (es : List ε) (s : σ), P s → f s ≤ f (run step s es) := by
  intro es
  induction es with
  | nil => intro s _; exact le_rfl
  | cons e es ih =>
    intro s hs
    exact (hmono s e hs).trans (ih (step s e) (hinv s e hs))

end Run
