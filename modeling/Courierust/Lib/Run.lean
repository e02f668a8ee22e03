import Mathlib.Tactic

/-!
# Runs of a system

A system takes one operation after another. `Along` is a condition on the steps of a
run, each judged in the state it is taken from, and `invariant` is the induction every
result about whole runs uses.
-/

namespace Run

variable {σ ο : Type}

def run (step : σ → ο → σ) (s : σ) (ops : List ο) : σ := ops.foldl step s

variable {ok : σ → ο → Prop} (step : σ → ο → σ) (s : σ)

theorem run_append (ops ops' : List ο) :
    run step s (ops ++ ops') = run step (run step s ops) ops' := List.foldl_append

/-- Every step of the run meets `ok` in the state it is taken from. -/
def Along (step : σ → ο → σ) (ok : σ → ο → Prop) : σ → List ο → Prop
  | _, [] => True
  | s, op :: ops => ok s op ∧ Along step ok (step s op) ops

instance decidableAlong {step : σ → ο → σ} {ok : σ → ο → Prop} [∀ s op, Decidable (ok s op)] :
    ∀ s ops, Decidable (Along step ok s ops)
  | _, [] => isTrue trivial
  | s, op :: ops =>
    match (inferInstance : Decidable (ok s op)), decidableAlong (step s op) ops with
    | isTrue h, isTrue h' => isTrue ⟨h, h'⟩
    | isFalse h, _ => isFalse fun hall => h hall.1
    | _, isFalse h => isFalse fun hall => h hall.2

theorem along_of_forall {step : σ → ο → σ} (h : ∀ s op, ok s op) (s : σ) (ops : List ο) :
    Along step ok s ops := by
  induction ops generalizing s with
  | nil => trivial
  | cons op ops ih => exact ⟨h s op,ih (step s op)⟩

theorem invariant {step : σ → ο → σ} {I : σ → Prop}
    (hstep : ∀ s op, I s → ok s op → I (step s op)) {s : σ} (h : I s) {ops : List ο}
    (hops : Along step ok s ops) : I (run step s ops) := by
  induction ops generalizing s with
  | nil => exact h
  | cons op ops ih => exact ih (hstep s op h hops.1) hops.2

/-- A property that the invariant gives, and that a step keeps only if it meets the condition,
    holds all along a run exactly when the condition does. -/
theorem along_iff {step : σ → ο → σ} {dom : σ → ο → Prop} {I P : σ → Prop}
    (hgives : ∀ s, I s → P s) (hkeeps : ∀ s op, I s → dom s op → ok s op → I (step s op))
    (hneeds : ∀ s op, I s → dom s op → P (step s op) → ok s op) {s : σ} (h : I s) {ops : List ο}
    (hdom : Along step dom s ops) :
    (∀ ops', ops' <+: ops → P (run step s ops')) ↔ Along step ok s ops := by
  induction ops generalizing s with
  | nil =>
    exact ⟨fun _ => trivial,fun _ ops' hpre => by rw [List.prefix_nil.1 hpre]; exact hgives s h⟩
  | cons op ops ih =>
    constructor
    · intro hall
      have hok : ok s op := hneeds s op h hdom.1 (hall [op] (by simp))
      refine ⟨hok,(ih (hkeeps s op h hdom.1 hok) hdom.2).1 fun ops' hpre => ?_⟩
      exact hall (op :: ops') (List.cons_prefix_cons.2 ⟨rfl,hpre⟩)
    · rintro ⟨hok,hrest⟩ ops' hpre
      cases ops' with
      | nil => exact hgives s h
      | cons op' ops' =>
        obtain ⟨rfl,htail⟩ := List.cons_prefix_cons.1 hpre
        exact (ih (hkeeps s op' h hdom.1 hok) hdom.2).2 hrest ops' htail

end Run
