import Onde.Lib.Outcome
import Onde.Lib.Reader

/-!
# Computations that mirror others up to faults

A computation on machine words does what the same computation on numbers does, except in the states where it faults.
`Mirrors I m g F` says so for the states with `I`, which the computation keeps; `F` are the states where it faults.
Such a computation is shown by the rules for returning (`Mirrors.pure`), failing (`Mirrors.throw`), sequencing
(`Mirrors.bind`) and repetition (`Mirrors.repeats`).
-/

namespace Onde.Lib

variable {ε σ α β : Type}

/-- A result as the outcome of a call. -/
def Outcome.ofExcept : Except ε α → Outcome ε α
  | .ok a => .ok a
  | .error e => .error e

theorem Outcome.calm_ofExcept (r : Except ε α) : (ofExcept r).Calm := by
  cases r with
  | ok a => exact calm_ok a
  | error e => exact calm_error e

/-- A computation that only fails. -/
def fail (e : ε) : StateT σ (Outcome ε) α := fun _ => .error e

/-- `m` does what `g` does in the states with `I`, and faults in those with `F`. -/
structure Mirrors (I : σ → Prop) (m : StateT σ (Outcome ε) α) (g : StateT σ (Except ε) α) (F : σ → Prop) : Prop where
  keeps : ∀ s a s', I s → g s = .ok (a, s') → I s'
  faults : ∀ s, I s → F s → m s = .panic
  agrees : ∀ s, I s → ¬F s → m s = .ofExcept (g s)

/-- Run a computation `n` times and collect the results. -/
def repeats : Nat → StateT σ (Outcome ε) α → StateT σ (Outcome ε) (List α)
  | 0, _ => pure []
  | n + 1, m => do
    let a ← m
    let as ← repeats n m
    pure (a :: as)

namespace Mirrors

variable {I : σ → Prop} {m : StateT σ (Outcome ε) α} {g : StateT σ (Except ε) α} {F F' : σ → Prop}

theorem congr (h : Mirrors I m g F) (hF : ∀ s, I s → (F s ↔ F' s)) : Mirrors I m g F' where
  keeps := h.keeps
  faults s hs hf := h.faults s hs ((hF s hs).mpr hf)
  agrees s hs hf := h.agrees s hs fun hF' => hf ((hF s hs).mp hF')

theorem pure (a : α) : Mirrors (ε := ε) I (pure a) (pure a) fun _ => False where
  keeps s b s' hs h := by
    cases h
    exact hs
  faults _ _ hF := hF.elim
  agrees _ _ _ := rfl

theorem throw (e : ε) : Mirrors I (fail e : StateT σ (Outcome ε) α) (throw e) fun _ => False where
  keeps s b s' _ h := by cases h
  faults _ _ hF := hF.elim
  agrees _ _ _ := rfl

/-- **Sequencing.** It faults in the first part, or after it in the rest. -/
theorem bind {k : α → StateT σ (Outcome ε) β} {l : α → StateT σ (Except ε) β} {G : α → σ → Prop}
    (h : Mirrors I m g F) (hk : ∀ s a s', g s = .ok (a, s') → Mirrors I (k a) (l a) (G a)) :
    Mirrors I (m >>= k) (g >>= l) fun s => F s ∨ ∃ a s', g s = .ok (a, s') ∧ G a s' where
  keeps s b s' hs hb := by
    obtain ⟨a, s₁, ha, hb⟩ := Reads.bind_ok.mp hb
    exact (hk _ _ _ ha).keeps _ _ _ (h.keeps _ _ _ hs ha) hb
  faults s hs hF := by
    show (m s).bind (fun p => k p.1 p.2) = .panic
    by_cases hfirst : F s
    · rw [h.faults s hs hfirst]
      rfl
    · obtain ⟨a, s', ha, hG⟩ := hF.resolve_left hfirst
      rw [h.agrees s hs hfirst, ha]
      exact (hk _ _ _ ha).faults s' (h.keeps _ _ _ hs ha) hG
  agrees s hs hF := by
    show (m s).bind (fun p => k p.1 p.2) = .ofExcept (Except.bind (g s) fun p => l p.1 p.2)
    rw [h.agrees s hs fun hfirst => hF (.inl hfirst)]
    cases hg : g s with
    | error e => rfl
    | ok p =>
      obtain ⟨a, s'⟩ := p
      exact (hk _ _ _ hg).agrees s' (h.keeps _ _ _ hs hg) fun hG => hF (.inr ⟨a, s', hg, hG⟩)

/-- Sequencing after a part that does not fault. -/
theorem after {k : α → StateT σ (Outcome ε) β} {l : α → StateT σ (Except ε) β} {G : α → σ → Prop}
    (h : Mirrors I m g fun _ => False) (hk : ∀ s a s', g s = .ok (a, s') → Mirrors I (k a) (l a) (G a)) :
    Mirrors I (m >>= k) (g >>= l) fun s => ∃ a s', g s = .ok (a, s') ∧ G a s' :=
  (h.bind hk).congr fun _ _ => by rw [false_or]

/-- Sequencing before parts that do not fault. -/
theorem before {k : α → StateT σ (Outcome ε) β} {l : α → StateT σ (Except ε) β}
    (h : Mirrors I m g F) (hk : ∀ a, Mirrors I (k a) (l a) fun _ => False) : Mirrors I (m >>= k) (g >>= l) F :=
  (h.bind fun _ a _ _ => hk a).congr fun _ _ => by simp

/-- **Repetition.** It faults after some of the rounds. -/
theorem repeats (h : Mirrors I m g F) : ∀ n, Mirrors I (repeats n m) (times n g) fun s =>
    ∃ k < n, ∃ as s', times k g s = .ok (as, s') ∧ F s'
  | 0 => (pure []).congr fun s _ => by simp
  | n + 1 => by
    have hmore := h.bind fun _ a _ _ => (repeats h n).before fun as => pure (I := I) (ε := ε) (a :: as)
    refine hmore.congr fun s _ => ⟨?_, ?_⟩
    · rintro (hF | ⟨a, s₁, ha, k, hk, as, s', has, hF⟩)
      · exact ⟨0, Nat.succ_pos n, [], s, rfl, hF⟩
      · refine ⟨k + 1, Nat.succ_lt_succ hk, a :: as, s', ?_, hF⟩
        exact Reads.bind_ok.mpr ⟨a, s₁, ha, Reads.bind_ok.mpr ⟨as, s', has, rfl⟩⟩
    · rintro ⟨k, hk, as, s', has, hF⟩
      cases k with
      | zero =>
        cases has
        exact .inl hF
      | succ k =>
        obtain ⟨a, s₁, ha, has⟩ := Reads.bind_ok.mp has
        obtain ⟨as', s₂, has', heq⟩ := Reads.bind_ok.mp has
        cases heq
        exact .inr ⟨a, s₁, ha, k, Nat.lt_of_succ_lt_succ hk, as', s', has', hF⟩

end Mirrors

end Onde.Lib
