import Mathlib.Data.List.Forall2

/-!
# Computations that may fail

What the success of a composed computation says about its parts.
-/

namespace Onde.Lib

variable {ε α β : Type}

/-- **A composition succeeds exactly when its parts do.** -/
theorem bind_eq_ok {x : Except ε α} {f : α → Except ε β} {b : β} :
    x >>= f = .ok b ↔ ∃ a, x = .ok a ∧ f a = .ok b := by
  cases x with
  | error e => simp [bind, Except.bind]
  | ok a => simp [bind, Except.bind]

/-- A check before a computation. -/
theorem check_eq_ok {p : Prop} [Decidable p] {e : ε} {x : Except ε α} {a : α} :
    (if p then .error e else x) = .ok a ↔ ¬p ∧ x = .ok a := by
  by_cases h : p
  · rw [if_pos h]
    exact ⟨nofun, fun hok => absurd h hok.1⟩
  · rw [if_neg h, and_iff_right h]

/-- A check at the end of a computation. -/
theorem accept_eq_ok {p : Prop} [Decidable p] {e : ε} {a b : α} :
    (if p then .ok a else .error e) = Except.ok b ↔ p ∧ a = b := by
  by_cases h : p
  · rw [if_pos h, and_iff_right h, Except.ok.injEq]
  · rw [if_neg h]
    exact ⟨nofun, fun hok => absurd hok.1 h⟩

/-- A check that stops the computation. -/
theorem guard_eq_ok {p : Prop} [Decidable p] {e : ε} {x : Except ε α} {a : α} :
    (if p then throw e >>= fun _ : PUnit => x else x) = .ok a ↔ ¬p ∧ x = .ok a :=
  check_eq_ok

/-- Renaming an error changes no success. -/
theorem mapError_eq_ok {ε' : Type} {x : Except ε α} {f : ε → ε'} {a : α} : x.mapError f = .ok a ↔ x = .ok a := by
  cases x with
  | error e => constructor <;> intro h <;> cases h
  | ok b => constructor <;> intro h <;> cases h <;> rfl

/-- **A list of computations succeeds exactly when each does.** -/
theorem Except.mapM_eq_ok {f : α → Except ε β} {l : List α} {bs : List β} :
    l.mapM f = .ok bs ↔ List.Forall₂ (fun a b => f a = .ok b) l bs := by
  induction l generalizing bs with
  | nil =>
    rw [List.mapM_nil, List.forall₂_nil_left_iff]
    exact ⟨fun h => by cases h; rfl, fun h => h ▸ rfl⟩
  | cons a l ih =>
    rw [List.mapM_cons, bind_eq_ok, List.forall₂_cons_left_iff]
    refine exists_congr fun b => ?_
    rw [bind_eq_ok]
    constructor
    · rintro ⟨ha, bs', hbs', h⟩
      cases h
      exact ⟨bs', ha, ih.mp hbs', rfl⟩
    · rintro ⟨bs', ha, hbs', rfl⟩
      exact ⟨ha, bs', ih.mpr hbs', rfl⟩

theorem Except.exists_mapM_eq_ok {f : α → Except ε β} {l : List α} (h : ∀ a ∈ l, ∃ b, f a = .ok b) :
    ∃ bs, l.mapM f = .ok bs := by
  induction l with
  | nil => exact ⟨[], rfl⟩
  | cons a l ih =>
    obtain ⟨b, hb⟩ := h a List.mem_cons_self
    obtain ⟨bs, hbs⟩ := ih fun a' ha' => h a' (List.mem_cons_of_mem a ha')
    exact ⟨b :: bs, Except.mapM_eq_ok.mpr (.cons hb (Except.mapM_eq_ok.mp hbs))⟩

end Onde.Lib
