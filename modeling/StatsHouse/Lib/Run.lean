import Mathlib.Data.List.Basic

/-! # Runs of a step function

A program that is called again and again is a step function on states: `exec`
is the state a list of calls leads to. Every safety result of the development
is one of the two induction rules below, applied to an invariant and its step
lemma.
-/

namespace Run

variable {σ ε : Type*}

/-- The state after the calls `es`, from `s`. -/
def exec (step : σ → ε → σ) (s : σ) : List ε → σ
  | [] => s
  | e :: es => exec step (step s e) es

/-- Each call of the run meets `ok` in the state in which it is made. -/
def Meets (step : σ → ε → σ) (ok : σ → ε → Prop) (s : σ) : List ε → Prop
  | [] => True
  | e :: es => ok s e ∧ Meets step ok (step s e) es

-- by recursion on the calls, so that the kernel can decide concrete runs
instance Meets.decidable (step : σ → ε → σ) (ok : σ → ε → Prop) [∀ s e, Decidable (ok s e)] :
    (s : σ) → (es : List ε) → Decidable (Meets step ok s es)
  | _, [] => isTrue trivial
  | s, e :: es =>
    match (inferInstance : Decidable (ok s e)), Meets.decidable step ok (step s e) es with
    | isTrue he, isTrue hes => isTrue ⟨he, hes⟩
    | isFalse he, _ => isFalse fun h => he h.1
    | _, isFalse hes => isFalse fun h => hes h.2

theorem exec_append (step : σ → ε → σ) (s : σ) (es es' : List ε) :
    exec step s (es ++ es') = exec step (exec step s es) es' := by
  induction es generalizing s with
  | nil => rfl
  | cons e es ih => exact ih (step s e)

theorem meets_append {step : σ → ε → σ} {ok : σ → ε → Prop} {s : σ} {es es' : List ε} :
    Meets step ok s (es ++ es') ↔ Meets step ok s es ∧ Meets step ok (exec step s es) es' := by
  induction es generalizing s with
  | nil => exact (iff_of_eq (true_and _)).symm
  | cons e es ih => exact (and_congr_right fun _ => ih).trans and_assoc.symm

/-- Inductive invariance: what every step keeps holds at the end of every run. -/
theorem exec_invariant {step : σ → ε → σ} {inv : σ → Prop}
    (hstep : ∀ s e, inv s → inv (step s e)) {s : σ} (hs : inv s) (es : List ε) :
    inv (exec step s es) := by
  induction es generalizing s with
  | nil => exact hs
  | cons e es ih => exact ih (hstep s e hs)

/-- Inductive invariance for the runs whose calls meet a condition. -/
theorem exec_invariant_of_meets {step : σ → ε → σ} {ok : σ → ε → Prop} {inv : σ → Prop}
    (hstep : ∀ s e, ok s e → inv s → inv (step s e)) {s : σ} (hs : inv s) {es : List ε}
    (hes : Meets step ok s es) : inv (exec step s es) := by
  induction es generalizing s with
  | nil => exact hs
  | cons e es ih => exact ih (hstep s e hes.1 hs) hes.2

/-- Calls that meet a condition meet what it and the invariant give. -/
theorem meets_of_invariant {step : σ → ε → σ} {ok good : σ → ε → Prop} {inv : σ → Prop}
    (hstep : ∀ s e, ok s e → inv s → inv (step s e)) (hgood : ∀ s e, ok s e → inv s → good s e)
    {s : σ} (hs : inv s) {es : List ε} (hes : Meets step ok s es) : Meets step good s es := by
  induction es generalizing s with
  | nil => trivial
  | cons e es ih => exact ⟨hgood s e hes.1 hs, ih (hstep s e hes.1 hs) hes.2⟩

/-- What holds of each call holds along the run. -/
theorem Meets.and_forall {step : σ → ε → σ} {ok : σ → ε → Prop} {call : ε → Prop} {s : σ}
    {es : List ε} (hes : Meets step ok s es) (h : ∀ e ∈ es, call e) :
    Meets step (fun s e => ok s e ∧ call e) s es := by
  induction es generalizing s with
  | nil => trivial
  | cons e es ih =>
      exact ⟨⟨hes.1, h e (by simp)⟩, ih hes.2 fun e' he' => h e' (by simp [he'])⟩

/-- A condition that each call meets in every state is met by the run. -/
theorem meets_of_forall {step : σ → ε → σ} {ok : σ → ε → Prop} {es : List ε}
    (h : ∀ e ∈ es, ∀ s, ok s e) (s : σ) : Meets step ok s es := by
  induction es generalizing s with
  | nil => trivial
  | cons e es ih =>
      exact ⟨h e (by simp) s, ih (fun e' he' => h e' (by simp [he'])) (step s e)⟩

/-- Inductive invariance along a clock: the invariant may depend on the time, and
each call is made at its own, in order. -/
theorem exec_invariant_of_clock {step : σ → ε → σ} {clock : ε → Nat} {ok : ε → Prop}
    {inv : Nat → σ → Prop}
    (hstep : ∀ t s e, ok e → t ≤ clock e → inv t s → inv (clock e) (step s e)) {t : Nat} {s : σ}
    (hs : inv t s) {es : List ε} (hok : ∀ e ∈ es, ok e) (hfrom : ∀ e ∈ es, t ≤ clock e)
    (hclock : es.Pairwise fun e e' => clock e ≤ clock e') : ∃ t', inv t' (exec step s es) := by
  induction es generalizing t s with
  | nil => exact ⟨t, hs⟩
  | cons e es ih =>
      -- the invariant now holds at the time of `e`, from which the rest is in order
      rcases List.pairwise_cons.mp hclock with ⟨hlater, hrest⟩
      exact ih (hstep t s e (hok e (by simp)) (hfrom e (by simp)) hs)
        (fun e' he' => hok e' (by simp [he'])) hlater hrest

/-- Inductive invariance with the calls to come: the invariant may depend on them. -/
theorem exec_invariant_of_rest {step : σ → ε → σ} {inv : List ε → σ → Prop}
    (hstep : ∀ s e es, inv (e :: es) s → inv es (step s e)) {s : σ} {es : List ε}
    (hs : inv es s) : inv [] (exec step s es) := by
  induction es generalizing s with
  | nil => exact hs
  | cons e es ih => exact ih (hstep s e es hs)

/-- Each call is made in a state with the invariant for it and the calls after it. -/
theorem meets_of_rest {step : σ → ε → σ} {good : σ → ε → Prop} {inv : List ε → σ → Prop}
    (hstep : ∀ s e es, inv (e :: es) s → inv es (step s e))
    (hgood : ∀ s e es, inv (e :: es) s → good s e) {s : σ} {es : List ε} (hs : inv es s) :
    Meets step good s es := by
  induction es generalizing s with
  | nil => trivial
  | cons e es ih => exact ⟨hgood s e es hs, ih (hstep s e es hs)⟩

/-- Simulation: where each step of one program, under its invariant, is a step of
another, so is each run. -/
theorem exec_simulation {τ : Type*} {step : σ → ε → σ} {step' : τ → ε → τ} {f : σ → τ}
    {inv : σ → Prop} (hsim : ∀ s e, inv s → f (step s e) = step' (f s) e)
    (hstep : ∀ s e, inv s → inv (step s e)) {s : σ} (hs : inv s) (es : List ε) :
    inv (exec step s es) ∧ f (exec step s es) = exec step' (f s) es := by
  induction es generalizing s with
  | nil => exact ⟨hs, rfl⟩
  | cons e es ih =>
      rw [exec, exec, ← hsim s e hs]
      exact ih (hstep s e hs)

/-- Simulation along a relation. -/
theorem exec_related {τ : Type*} {step : σ → ε → σ} {step' : τ → ε → τ} {rel : σ → τ → Prop}
    (hstep : ∀ s t e, rel s t → rel (step s e) (step' t e)) {s : σ} {t : τ} (h : rel s t)
    (es : List ε) : rel (exec step s es) (exec step' t es) := by
  induction es generalizing s t with
  | nil => exact h
  | cons e es ih => exact ih (hstep s t e h)

end Run
