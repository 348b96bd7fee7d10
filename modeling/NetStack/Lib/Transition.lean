import Mathlib.Tactic

/-!
# Labelled transition systems

`Run step s ls s'` is a finite run of a labelled step relation, with its labels in order.  The rule
every safety proof uses is `Run.invariant`: what one step preserves, a run preserves.
-/

namespace Transition

variable {σ ι : Type*} {step : σ → ι → σ → Prop}

/-- A finite run, with the labels of its steps in order. -/
inductive Run (step : σ → ι → σ → Prop) : σ → List ι → σ → Prop
  | nil (s : σ) : Run step s [] s
  | cons {s s' s'' : σ} {a : ι} {ls : List ι} :
      step s a s' → Run step s' ls s'' → Run step s (a :: ls) s''

/-- **The invariant rule.** -/
theorem Run.invariant {P : σ → Prop} (hstep : ∀ s a s', step s a s' → P s → P s') :
    ∀ {s s' : σ} {ls : List ι}, Run step s ls s' → P s → P s'
  | _, _, _, .nil _, h => h
  | _, _, _, .cons hs hr, h => hr.invariant hstep (hstep _ _ _ hs h)

/-- A run stays one when more steps are allowed. -/
lemma Run.mono {step' : σ → ι → σ → Prop} (h : ∀ s a s', step s a s' → step' s a s') {s s' : σ}
    {ls : List ι} (hr : Run step s ls s') : Run step' s ls s' := by
  induction hr with
  | nil s => exact .nil s
  | cons hs _ ih => exact .cons (h _ _ _ hs) ih

/-- Runs compose. -/
lemma Run.append {s s' s'' : σ} {l l' : List ι} (h : Run step s l s') (h' : Run step s' l' s'') :
    Run step s (l ++ l') s'' := by
  induction h with
  | nil _ => exact h'
  | cons hs _ ih => exact .cons hs (ih h')

lemma Run.snoc {s s' s'' : σ} {a : ι} {ls : List ι} (h : Run step s ls s')
    (hs : step s' a s'') : Run step s (ls ++ [a]) s'' :=
  h.append (.cons hs (.nil _))

end Transition
