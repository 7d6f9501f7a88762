import Mathlib.Data.List.Basic

/-!
# Runs with a record

A run takes visible steps, each recorded with its label and the state before it, and silent ones in between.

* `Run.invariant`: what every step keeps holds at the end; `Run.visited`: and at every recorded step;
* `Run.upTo`: the run up to a recorded step is a run; `Run.append`: a run after a run is a run.
-/

namespace Onde.Lib

variable {S L : Type}

/-- A visible step: the state before it and its label. -/
structure Visit (S L : Type) where
  state : S
  label : L

/-- The runs from a state, with the visible steps they took, oldest first. -/
inductive Run (visible : L → S → S → Prop) (silent : S → S → Prop) (s₀ : S) : List (Visit S L) → S → Prop
  | start : Run visible silent s₀ [] s₀
  | visit {vs : List (Visit S L)} {s s' : S} {l : L} (hr : Run visible silent s₀ vs s) (hv : visible l s s') :
    Run visible silent s₀ (vs ++ [⟨s, l⟩]) s'
  | silent {vs : List (Visit S L)} {s s' : S} (hr : Run visible silent s₀ vs s) (hs : silent s s') :
    Run visible silent s₀ vs s'

namespace Run

variable {visible : L → S → S → Prop} {silent : S → S → Prop} {s₀ s : S} {vs : List (Visit S L)}

/-- **What every step keeps holds at the end of every run.** -/
theorem invariant {I : S → Prop} (h₀ : I s₀) (hv : ∀ l s s', I s → visible l s s' → I s')
    (hs : ∀ s s', I s → silent s s' → I s') (hr : Run visible silent s₀ vs s) : I s := by
  induction hr with
  | start => exact h₀
  | visit _ hstep ih => exact hv _ _ _ ih hstep
  | silent _ hstep ih => exact hs _ _ ih hstep

/-- The run up to a recorded step. -/
theorem upTo {v : Visit S L} {past rest : List (Visit S L)} (hr : Run visible silent s₀ vs s)
    (heq : vs = past ++ v :: rest) : Run visible silent s₀ past v.state := by
  induction hr generalizing rest with
  | start => exact absurd heq.symm (by simp)
  | @visit ws t t' l hw hstep ih =>
    rcases List.eq_nil_or_concat rest with rfl | ⟨rest', w, rfl⟩
    · obtain ⟨rfl, hlast⟩ := List.append_inj' heq rfl
      cases hlast
      exact hw
    · rw [List.concat_eq_append, ← List.cons_append, ← List.append_assoc] at heq
      exact ih (List.append_inj' heq rfl).1
  | silent _ _ ih => exact ih heq

/-- Each recorded step was taken. -/
theorem taken {v : Visit S L} (hr : Run visible silent s₀ vs s) (hmem : v ∈ vs) :
    ∃ s', visible v.label v.state s' := by
  induction hr with
  | start => cases hmem
  | @visit ws t t' l hw hstep ih =>
    rcases List.mem_append.mp hmem with hold | hnew
    · exact ih hold
    · obtain rfl := List.mem_singleton.mp hnew
      exact ⟨t', hstep⟩
  | silent _ _ ih => exact ih hmem

/-- What every step keeps holds at every recorded step. -/
theorem visited {I : S → Prop} (h₀ : I s₀) (hv : ∀ l s s', I s → visible l s s' → I s')
    (hs : ∀ s s', I s → silent s s' → I s') (hr : Run visible silent s₀ vs s) {v : Visit S L} (hmem : v ∈ vs) :
    I v.state := by
  obtain ⟨past, rest, heq⟩ := List.append_of_mem hmem
  exact invariant h₀ hv hs (hr.upTo heq)

/-- One recorded step is a run. -/
theorem single {s' : S} {l : L} (hv : visible l s s') : Run visible silent s [⟨s, l⟩] s' := .visit .start hv

/-- **A run after a run is a run.** -/
theorem append {s' : S} {ws : List (Visit S L)} (hr : Run visible silent s₀ vs s)
    (hr' : Run visible silent s ws s') : Run visible silent s₀ (vs ++ ws) s' := by
  induction hr' with
  | start => rwa [List.append_nil]
  | visit _ hstep ih =>
    rw [← List.append_assoc]
    exact ih.visit hstep
  | silent _ hstep ih => exact ih.silent hstep

end Run

end Onde.Lib
