import Mathlib.Data.List.Forall2
import Mathlib.Logic.Relation
import Mathlib.Order.Preorder.Finite
import Onde.Lib.Bytes

/-!
# Calls that may fail, fault or never return

A call returns a value or an error, faults on an index out of range, or is still running when its fuel is spent.

* `Outcome`: the four of them, with sequencing (`bind_eq_ok`, `Calm.bind`);
* `Calm`: neither a fault nor still running; `Safe`: so with enough fuel, and the same for ever more;
* `wadd`, `wmul`: words of `w` bits that wrap; `getRange`, `slice`, `sliceFrom`, `wordAt`: reading bytes;
  `withCapacity`: room for a vector;
* `loop`: a loop with fuel (`loop_ok`, `loop_calm`); a loop over finitely many positions returns exactly when no
  position comes back (`loop_returns_iff`).
-/

namespace Onde.Lib

/-- The result of a call. -/
inductive Outcome (ε α : Type) where
  | ok (a : α)
  | error (e : ε)
  | panic
  | running
  deriving DecidableEq

namespace Outcome

variable {ε ε' α β : Type}

def bind (m : Outcome ε α) (k : α → Outcome ε β) : Outcome ε β :=
  match m with
  | ok a => k a
  | error e => error e
  | panic => panic
  | running => running

instance : Monad (Outcome ε) where
  pure := ok
  bind := bind

@[simp] theorem pure_eq_ok (a : α) : (pure a : Outcome ε α) = ok a := rfl

@[simp] theorem ok_bind (a : α) (k : α → Outcome ε β) : (ok a >>= k) = k a := rfl

@[simp] theorem error_bind (e : ε) (k : α → Outcome ε β) : (error e >>= k) = error e := rfl

@[simp] theorem panic_bind (k : α → Outcome ε β) : ((panic : Outcome ε α) >>= k) = panic := rfl

@[simp] theorem running_bind (k : α → Outcome ε β) : ((running : Outcome ε α) >>= k) = running := rfl

instance : LawfulMonad (Outcome ε) :=
  LawfulMonad.mk' _ (fun m => by cases m <;> rfl) (fun _ _ => rfl) (fun m _ _ => by cases m <;> rfl)

theorem bind_eq_ok {m : Outcome ε α} {k : α → Outcome ε β} {b : β} :
    (m >>= k) = ok b ↔ ∃ a, m = ok a ∧ k a = ok b := by
  cases m <;> simp

/-- The value of an option, or an error. -/
def okOr (o : Option α) (e : ε) : Outcome ε α :=
  match o with
  | some a => ok a
  | none => error e

/-- An error if a check fails. -/
def failIf (p : Prop) [Decidable p] (e : ε) : Outcome ε Unit := if p then error e else ok ()

/-- A value in the place of an error. -/
def orDefault (m : Outcome ε α) (a : α) : Outcome ε' α :=
  match m with
  | ok b => ok b
  | error _ => ok a
  | panic => panic
  | running => running

/-- Neither a fault nor still running. -/
def Calm (m : Outcome ε α) : Prop := m ≠ panic ∧ m ≠ running

instance [DecidableEq ε] [DecidableEq α] (m : Outcome ε α) : Decidable m.Calm := inferInstanceAs (Decidable (_ ∧ _))

@[simp] theorem calm_ok (a : α) : (ok a : Outcome ε α).Calm := ⟨nofun, nofun⟩

@[simp] theorem calm_error (e : ε) : (error e : Outcome ε α).Calm := ⟨nofun, nofun⟩

@[simp] theorem not_calm_panic : ¬(panic : Outcome ε α).Calm := fun h => h.1 rfl

@[simp] theorem not_calm_running : ¬(running : Outcome ε α).Calm := fun h => h.2 rfl

@[simp] theorem calm_okOr (o : Option α) (e : ε) : (okOr o e).Calm := by
  cases o <;> simp [okOr]

@[simp] theorem calm_failIf (p : Prop) [Decidable p] (e : ε) : (failIf p e).Calm := by
  unfold failIf
  split <;> simp

theorem okOr_eq_ok {o : Option α} {e : ε} {a : α} : okOr o e = ok a ↔ o = some a := by
  cases o <;> simp [okOr]

theorem failIf_neg {p : Prop} [Decidable p] (e : ε) (h : ¬p) : failIf p e = ok () := if_neg h

theorem failIf_eq_ok {p : Prop} [Decidable p] {e : ε} {u : Unit} : failIf p e = ok u ↔ ¬p := by
  unfold failIf
  split <;> simp [*]

@[simp] theorem calm_orDefault {m : Outcome ε α} {a : α} : (m.orDefault a : Outcome ε' α).Calm ↔ m.Calm := by
  cases m <;> simp [orDefault]

/-- **Sequencing.** It is calm exactly if the first part is and then the rest. -/
theorem calm_bind {m : Outcome ε α} {k : α → Outcome ε β} :
    (m >>= k).Calm ↔ m.Calm ∧ ∀ a, m = ok a → (k a).Calm := by
  cases m <;> simp

theorem Calm.bind {m : Outcome ε α} {k : α → Outcome ε β} (hm : m.Calm) (hk : ∀ a, m = ok a → (k a).Calm) :
    (m >>= k).Calm := calm_bind.mpr ⟨hm, hk⟩

/-- The call is calm, and what it returns has a property. -/
def Meets (m : Outcome ε α) (Q : α → Prop) : Prop := m.Calm ∧ ∀ a, m = ok a → Q a

variable {m : Outcome ε α} {P Q : α → Prop}

theorem Meets.mono (hm : m.Meets P) (h : ∀ a, P a → Q a) : m.Meets Q := ⟨hm.1, fun a ha => h a (hm.2 a ha)⟩

theorem meets_ok {a : α} (h : Q a) : (ok a : Outcome ε α).Meets Q :=
  ⟨calm_ok a, fun _ hb => by cases hb; exact h⟩

/-- The rule of sequencing. -/
theorem Meets.bind {k : α → Outcome ε β} {R : β → Prop} (hm : m.Meets P) (hk : ∀ a, P a → (k a).Meets R) :
    (m >>= k).Meets R := by
  refine ⟨hm.1.bind fun a ha => (hk a (hm.2 a ha)).1, fun b hb => ?_⟩
  obtain ⟨a, ha, hkb⟩ := bind_eq_ok.mp hb
  exact (hk a (hm.2 a ha)).2 b hkb

theorem meets_okOr (o : Option α) (e : ε) : (okOr o e).Meets fun a => o = some a :=
  ⟨calm_okOr o e, fun _ => okOr_eq_ok.mp⟩

theorem meets_failIf (p : Prop) [Decidable p] (e : ε) : (failIf p e).Meets fun _ => ¬p :=
  ⟨calm_failIf p e, fun _ => failIf_eq_ok.mp⟩

/-! ## Lists -/

theorem meets_mapM {f : α → Outcome ε β} {l : List α} {R : β → Prop} (hf : ∀ a ∈ l, (f a).Meets R) :
    (l.mapM f).Meets fun bs => bs.length = l.length ∧ ∀ b ∈ bs, R b := by
  induction l with
  | nil => exact meets_ok ⟨rfl, nofun⟩
  | cons a l ih =>
    rw [List.mapM_cons]
    refine (hf a List.mem_cons_self).bind fun b hb => ?_
    refine (ih fun a' ha' => hf a' (List.mem_cons_of_mem a ha')).bind fun bs hbs => meets_ok ⟨?_, ?_⟩
    · rw [List.length_cons, List.length_cons, hbs.1]
    · exact List.forall_mem_cons.mpr ⟨hb, hbs.2⟩

theorem mapM_eq_ok {f : α → Outcome ε β} {l : List α} {bs : List β} :
    l.mapM f = ok bs ↔ List.Forall₂ (fun a b => f a = ok b) l bs := by
  induction l generalizing bs with
  | nil =>
    rw [List.mapM_nil, List.forall₂_nil_left_iff]
    exact ⟨fun h => by cases h; rfl, fun h => h ▸ rfl⟩
  | cons a l ih =>
    rw [List.mapM_cons, bind_eq_ok, List.forall₂_cons_left_iff]
    refine exists_congr fun b => ?_
    rw [bind_eq_ok]
    constructor
    · rintro ⟨ha, bs', hbs', h⟩
      cases h
      exact ⟨bs', ha, ih.mp hbs', rfl⟩
    · rintro ⟨bs', ha, hbs', rfl⟩
      exact ⟨ha, bs', ih.mpr hbs', rfl⟩

/-- A fold of steps that all return. -/
theorem foldlM_eq_ok {f : β → α → Outcome ε β} {g : β → α → β} {l : List α} (hf : ∀ a ∈ l, ∀ b, f b a = ok (g b a))
    (b : β) : l.foldlM f b = ok (l.foldl g b) := by
  induction l generalizing b with
  | nil => rfl
  | cons a l ih =>
    rw [List.foldlM_cons, hf a List.mem_cons_self, ok_bind, ih fun a' ha' => hf a' (List.mem_cons_of_mem a ha')]
    rfl

/-- A fold of steps without errors, each calm or not whatever the earlier ones gave. -/
theorem calm_foldlM {f : β → α → Outcome Empty β} {P : α → Prop} (hf : ∀ b a, (f b a).Calm ↔ P a) {l : List α} {b : β} :
    (l.foldlM f b).Calm ↔ ∀ a ∈ l, P a := by
  induction l generalizing b with
  | nil => simp
  | cons a l ih =>
    rw [List.foldlM_cons, calm_bind, hf, List.forall_mem_cons]
    refine and_congr_right fun ha => ⟨fun h => ?_, fun h b' _ => ih.mpr h⟩
    cases hr : f b a with
    | ok b' => exact ih.mp (h b' hr)
    | error e => exact e.elim
    | panic => exact absurd hr ((hf b a).mpr ha).1
    | running => exact absurd hr ((hf b a).mpr ha).2

/-! ## Fuel -/

/-- More fuel does not change a result. -/
def Settles (f : Nat → Outcome ε α) : Prop := ∀ n k, n ≤ k → f n ≠ running → f k = f n

/-- Some fuel gives a value or an error. -/
def Safe (f : Nat → Outcome ε α) : Prop := ∃ fuel, (f fuel).Calm

theorem settles_const (m : Outcome ε α) : Settles fun _ => m := fun _ _ _ _ => rfl

@[simp] theorem safe_const {m : Outcome ε α} : Safe (fun _ => m) ↔ m.Calm := ⟨fun ⟨_, h⟩ => h, fun h => ⟨0, h⟩⟩

theorem Settles.bind {f : Nat → Outcome ε α} {g : α → Nat → Outcome ε β} (hf : Settles f) (hg : ∀ a, Settles (g a)) :
    Settles fun n => f n >>= fun a => g a n := by
  intro n k hnk hn
  dsimp only at hn ⊢
  have hfn : f n ≠ running := fun h => by rw [h] at hn; exact hn rfl
  rw [hf n k hnk hfn]
  cases hr : f n with
  | ok a =>
    rw [hr] at hn
    exact hg a n k hnk hn
  | error e => rfl
  | panic => rfl
  | running => exact absurd hr hfn

theorem Settles.orDefault {f : Nat → Outcome ε α} (hf : Settles f) (a : α) :
    Settles fun n => ((f n).orDefault a : Outcome ε' α) := by
  intro n k hnk hn
  dsimp only at hn ⊢
  rw [hf n k hnk]
  intro h
  rw [h] at hn
  exact hn rfl

/-- What two amounts of fuel give is the same. -/
theorem Settles.eq {f : Nat → Outcome ε α} (hf : Settles f) {n k : Nat} (hn : f n ≠ running) (hk : f k ≠ running) :
    f n = f k := by
  rw [← hf n (max n k) (Nat.le_max_left n k) hn, ← hf k (max n k) (Nat.le_max_right n k) hk]

/-- **Sequencing.** It is safe exactly if the first part is and then the rest. -/
theorem safe_bind {f : Nat → Outcome ε α} {g : α → Nat → Outcome ε β} (hf : Settles f) (hg : ∀ a, Settles (g a)) :
    Safe (fun n => f n >>= fun a => g a n) ↔ Safe f ∧ ∀ n a, f n = ok a → Safe (g a) := by
  constructor
  · rintro ⟨n, hn⟩
    obtain ⟨hfn, hgn⟩ := calm_bind.mp hn
    refine ⟨⟨n, hfn⟩, fun k a hk => ⟨n, hgn a ?_⟩⟩
    rw [← hk]
    exact hf.eq hfn.2 (by rw [hk]; nofun)
  · rintro ⟨⟨n, hfn⟩, hrest⟩
    cases hr : f n with
    | ok a =>
      obtain ⟨k, hk⟩ := hrest n a hr
      refine ⟨max n k, ?_⟩
      dsimp only
      rw [hf n _ (Nat.le_max_left n k) hfn.2, hr, ok_bind, hg a k _ (Nat.le_max_right n k) hk.2]
      exact hk
    | error e =>
      refine ⟨n, ?_⟩
      dsimp only
      rw [hr]
      exact calm_error e
    | panic => exact absurd hr hfn.1
    | running => exact absurd hr hfn.2

theorem safe_orDefault {f : Nat → Outcome ε α} {a : α} :
    Safe (fun n => ((f n).orDefault a : Outcome ε' α)) ↔ Safe f := exists_congr fun _ => calm_orDefault

end Outcome

open Outcome

/-! ## Words and bytes -/

/-- Addition of words of `w` bits. -/
def wadd (w a b : Nat) : Nat := (a + b) % 2 ^ w

/-- Multiplication. -/
def wmul (w a b : Nat) : Nat := a * b % 2 ^ w

theorem wadd_eq {w a b : Nat} (h : a + b < 2 ^ w) : wadd w a b = a + b := Nat.mod_eq_of_lt h

theorem wadd_lt (w a b : Nat) : wadd w a b < 2 ^ w := Nat.mod_lt _ (Nat.two_pow_pos w)

theorem wmul_eq {w a b : Nat} (h : a * b < 2 ^ w) : wmul w a b = a * b := Nat.mod_eq_of_lt h

/-- Bytes that fit in the address space: their length is a signed word. -/
structure Buffer (w : Nat) where
  bytes : Bytes
  length_lt : bytes.length < 2 ^ (w - 1)

variable {ε : Type}

/-- The bytes from `a` up to `b`, if they are there. -/
def getRange (data : Bytes) (a b : Nat) : Option Bytes :=
  if a ≤ b ∧ b ≤ data.length then some ((data.drop a).take (b - a)) else none

/-- The same, at the price of a fault. -/
def slice (data : Bytes) (a b : Nat) : Outcome ε Bytes :=
  match getRange data a b with
  | some bs => .ok bs
  | none => .panic

def sliceFrom (data : Bytes) (a : Nat) : Outcome ε Bytes := if a ≤ data.length then .ok (data.drop a) else .panic

/-- An element of a list, or a fault. -/
def elemAt {α : Type} (l : List α) (i : Nat) : Outcome ε α :=
  match l[i]? with
  | some a => .ok a
  | none => .panic

/-- The number in `n` bytes read one by one. -/
def wordAt (data : Bytes) (a n : Nat) : Outcome ε Nat := do
  let bs ← slice data a (a + n)
  .ok (ofLe bs)

/-- Room for `n` elements of `size` bytes, at the price of a fault: their bytes are counted by a signed word. -/
def withCapacity (w size n : Nat) : Outcome ε Unit := if n * size < 2 ^ (w - 1) then .ok () else .panic

theorem withCapacity_eq_ok {w size n : Nat} :
    (withCapacity w size n : Outcome ε Unit) = .ok () ↔ n * size < 2 ^ (w - 1) := by
  unfold withCapacity
  split <;> simp [*]

theorem calm_withCapacity {w size n : Nat} :
    (withCapacity w size n : Outcome ε Unit).Calm ↔ n * size < 2 ^ (w - 1) := by
  unfold withCapacity
  split <;> simp [*]

theorem getRange_eq_some {data bs : Bytes} {a b : Nat} :
    getRange data a b = some bs ↔ a ≤ b ∧ b ≤ data.length ∧ (data.drop a).take (b - a) = bs := by
  unfold getRange
  split
  · next h => simp [h]
  · next h =>
    simp only [reduceCtorEq, false_iff, not_and]
    exact fun hab hb => absurd ⟨hab, hb⟩ h

theorem length_of_getRange {data bs : Bytes} {a b : Nat} (h : getRange data a b = some bs) : bs.length = b - a := by
  obtain ⟨hab, hb, rfl⟩ := getRange_eq_some.mp h
  rw [List.length_take, List.length_drop]
  omega

theorem slice_eq_ok {data bs : Bytes} {a b : Nat} :
    (slice data a b : Outcome ε Bytes) = .ok bs ↔ getRange data a b = some bs := by
  unfold slice
  cases getRange data a b <;> simp

theorem calm_slice {data : Bytes} {a b : Nat} : (slice data a b : Outcome ε Bytes).Calm ↔ a ≤ b ∧ b ≤ data.length := by
  unfold slice getRange
  split <;> split at * <;> simp_all

theorem meets_slice {data : Bytes} {a b : Nat} (hab : a ≤ b) (hb : b ≤ data.length) :
    (slice data a b : Outcome ε Bytes).Meets fun bs => bs.length = b - a :=
  ⟨calm_slice.mpr ⟨hab, hb⟩, fun _ h => length_of_getRange (slice_eq_ok.mp h)⟩

theorem sliceFrom_eq_ok {data : Bytes} {a : Nat} (h : a ≤ data.length) :
    (sliceFrom data a : Outcome ε Bytes) = .ok (data.drop a) := if_pos h

theorem elemAt_eq_ok {α : Type} {l : List α} {i : Nat} {a : α} :
    (elemAt l i : Outcome ε α) = .ok a ↔ l[i]? = some a := by
  unfold elemAt
  cases l[i]? <;> simp

theorem wordAt_eq_ok {data : Bytes} {a n : Nat} (h : a + n ≤ data.length) :
    (wordAt data a n : Outcome ε Nat) = .ok (ofLe ((data.drop a).take n)) := by
  have hrange : getRange data a (a + n) = some ((data.drop a).take n) :=
    getRange_eq_some.mpr ⟨Nat.le_add_right a n, h, by rw [Nat.add_sub_cancel_left]⟩
  rw [wordAt, slice_eq_ok.mpr hrange]
  rfl

theorem calm_wordAt {data : Bytes} {a n : Nat} : (wordAt data a n : Outcome ε Nat).Calm ↔ a + n ≤ data.length := by
  unfold wordAt
  rw [calm_bind, calm_slice]
  simp

/-- The number in `n` bytes has no more than them. -/
theorem word_lt (data : Bytes) (a n : Nat) : ofLe ((data.drop a).take n) < 256 ^ n :=
  (ofLe_lt _).trans_le (Nat.pow_le_pow_right (by decide) (List.length_take_le n _))

theorem meets_wordAt {data : Bytes} {a n : Nat} (h : a + n ≤ data.length) :
    (wordAt data a n : Outcome ε Nat).Meets fun v => v < 256 ^ n := by
  rw [wordAt_eq_ok h]
  exact meets_ok (word_lt data a n)

/-! ## Loops -/

variable {σ ρ κ : Type} {step : σ → Outcome ε (σ ⊕ ρ)} {s t : σ} {n : Nat}

/-- Take steps until one of them is the last. -/
def loop (step : σ → Outcome ε (σ ⊕ ρ)) : Nat → σ → Outcome ε ρ
  | 0, _ => .running
  | n + 1, s => do
    match ← step s with
    | .inl t => loop step n t
    | .inr r => .ok r

theorem loop_again (h : step s = .ok (.inl t)) : loop step (n + 1) s = loop step n t := by
  rw [loop, h]
  rfl

theorem loop_done {r : ρ} (h : step s = .ok (.inr r)) : loop step (n + 1) s = .ok r := by
  rw [loop, h]
  rfl

theorem settles_loop (step : σ → Outcome ε (σ ⊕ ρ)) (s : σ) : Settles fun n => loop step n s := by
  intro n
  dsimp only
  induction n generalizing s with
  | zero => exact fun _ _ h => absurd rfl h
  | succ n ih =>
    intro k hnk hn
    obtain ⟨k, rfl⟩ : ∃ j, k = j + 1 := ⟨k - 1, by omega⟩
    rw [loop] at hn ⊢
    rw [loop]
    cases hs : step s with
    | ok next =>
      rw [hs] at hn
      cases next with
      | inl t => exact ih t k (by omega) hn
      | inr r => rfl
    | error e => rfl
    | panic => rfl
    | running => rfl

/-- **The rule of loops**: an invariant, and a number that every step but the last makes smaller. -/
theorem meets_loop {I : σ → Prop} {Q : ρ → Prop} (m : σ → Nat)
    (hstep : ∀ s, I s → (step s).Meets fun | .inl t => I t ∧ m t < m s | .inr r => Q r) (hs : I s) (hn : m s < n) :
    (loop step n s).Meets Q := by
  induction n generalizing s with
  | zero => omega
  | succ n ih =>
    rw [loop]
    refine (hstep s hs).bind fun next hnext => ?_
    cases next with
    | inl t => exact ih hnext.1 (by omega)
    | inr r => exact meets_ok hnext

/-- A loop faults at a step only. -/
theorem loop_ne_panic (hstep : ∀ s, step s ≠ .panic) (n : Nat) (s : σ) : loop step n s ≠ .panic := by
  induction n generalizing s with
  | zero => nofun
  | succ n ih =>
    rw [loop]
    cases hs : step s with
    | ok next =>
      cases next with
      | inl t => exact ih t
      | inr r => nofun
    | error e => nofun
    | panic => exact absurd hs (hstep s)
    | running => nofun

/-- A loop fails at a step only. -/
theorem loop_ne_error {e : ε} (hstep : ∀ s, step s ≠ .error e) (n : Nat) (s : σ) : loop step n s ≠ .error e := by
  induction n generalizing s with
  | zero => nofun
  | succ n ih =>
    rw [loop]
    cases hs : step s with
    | ok next =>
      cases next with
      | inl t => exact ih t
      | inr r => nofun
    | error e' =>
      rintro heq
      cases heq
      exact hstep s hs
    | panic => nofun
    | running => nofun

/-! ### Loops that come back -/

/-- A step goes from one position to another. -/
def After (step : σ → Outcome ε (σ ⊕ ρ)) (key : σ → κ) (p q : κ) : Prop :=
  ∃ s t, key s = p ∧ step s = .ok (.inl t) ∧ key t = q

/-- Some position is reached again. -/
def ComesBack (step : σ → Outcome ε (σ ⊕ ρ)) (key : σ → κ) (p : κ) : Prop :=
  ∃ q, Relation.ReflTransGen (After step key) p q ∧ Relation.TransGen (After step key) q q

variable {key : σ → κ}

/-- The state after a step that is not the last. -/
def nextState (step : σ → Outcome ε (σ ⊕ ρ)) (s : σ) : σ :=
  match step s with
  | .ok (.inl t) => t
  | _ => s

/-- A loop that never returns goes on after every step. -/
theorem step_of_running (hcalm : ∀ s, (step s).Calm) (hrun : ∀ n, loop step n s = .running) (k : Nat) :
    step ((nextState step)^[k] s) = .ok (.inl ((nextState step)^[k + 1] s)) ∧
      ∀ n, loop step n ((nextState step)^[k + 1] s) = .running := by
  have hone : ∀ s, (∀ n, loop step n s = .running) →
      step s = .ok (.inl (nextState step s)) ∧ ∀ n, loop step n (nextState step s) = .running := by
    intro s hrun
    have hfirst := hrun 1
    rw [loop] at hfirst
    cases hs : step s with
    | ok next =>
      cases next with
      | inl t =>
        have hnext : nextState step s = t := by rw [nextState, hs]
        rw [hnext]
        exact ⟨rfl, fun n => (loop_again hs).symm.trans (hrun (n + 1))⟩
      | inr r =>
        rw [hs] at hfirst
        cases hfirst
    | error e =>
      rw [hs] at hfirst
      cases hfirst
    | panic => exact absurd hs (hcalm s).1
    | running => exact absurd hs (hcalm s).2
  induction k with
  | zero => exact hone s hrun
  | succ k ih =>
    rw [Function.iterate_succ_apply' _ (k + 1)]
    exact hone _ ih.2

/-- **A loop over finitely many positions returns exactly when none comes back**, if the position decides where the next
step leads. -/
theorem loop_returns_iff (hcalm : ∀ s, (step s).Calm) {S : Set κ} (hfin : S.Finite)
    (hmem : ∀ s t, step s = .ok (.inl t) → key s ∈ S)
    (hkey : ∀ s s' t, key s = key s' → step s = .ok (.inl t) → ∃ t', step s' = .ok (.inl t') ∧ key t' = key t) :
    Safe (fun n => loop step n s) ↔ ¬ComesBack step key (key s) := by
  constructor
  · rintro ⟨n, hn⟩ ⟨q, hreach, hcycle⟩
    have hrunning : ∀ n s, Relation.ReflTransGen (After step key) (key s) q → loop step n s = .running := by
      intro n
      induction n with
      | zero => exact fun _ _ => rfl
      | succ n ih =>
        intro s hs
        obtain ⟨p, ⟨s₁, t₁, hs₁, hstep, rfl⟩, hrest⟩ :=
          Relation.TransGen.head'_iff.mp (Relation.TransGen.trans_right hs hcycle)
        obtain ⟨t, ht, heq⟩ := hkey s₁ s t₁ hs₁ hstep
        rw [loop_again ht]
        exact ih t (heq ▸ hrest)
    exact hn.2 (hrunning n s hreach)
  · intro hback
    by_contra hunsafe
    have hrun : ∀ n, loop step n s = .running := by
      intro n
      cases hr : loop step n s with
      | running => rfl
      | ok r => exact absurd ⟨n, by simp [hr]⟩ hunsafe
      | error e => exact absurd ⟨n, by simp [hr]⟩ hunsafe
      | panic => exact absurd hr (loop_ne_panic (fun s => (hcalm s).1) n s)
    have hstep := step_of_running hcalm hrun
    have hafter : ∀ k, After step key (key ((nextState step)^[k] s)) (key ((nextState step)^[k + 1] s)) :=
      fun k => ⟨_, _, rfl, (hstep k).1, rfl⟩
    obtain ⟨i, j, hij, heq⟩ := Set.Finite.exists_lt_map_eq_of_forall_mem
      (f := fun k => key ((nextState step)^[k] s)) (fun k => hmem _ _ (hstep k).1) hfin
    have hcycle := Nat.rel_of_forall_rel_succ_of_lt (Relation.TransGen (After step key))
      (f := fun k => key ((nextState step)^[k] s)) (fun k => .single (hafter k)) hij
    have hreach := Nat.rel_of_forall_rel_succ_of_le (Relation.ReflTransGen (After step key))
      (f := fun k => key ((nextState step)^[k] s)) (fun k => .single (hafter k)) (Nat.zero_le i)
    rw [← heq] at hcycle
    exact hback ⟨_, hreach, hcycle⟩

end Onde.Lib
