import Mathlib.Algebra.BigOperators.Group.Finset.Piecewise
import Mathlib.Algebra.Order.BigOperators.Group.Finset
import Mathlib.Algebra.Order.Ring.Int

/-!
# A cell without a lock

Threads operate on a cell, either in one atomic step or in a loop that reads the value and exchanges it for the new one
unless another thread came first. What a load or a failed exchange returns may be any value the cell has had.

* `Linear`: the value is what the operations make of it one after the other, each thread's in its own order;
* `step_cases`, `linear_run`: so it is in every interleaving;
* `exists_finish`: every thread can always finish;
* `Prompt`, `length_le`: if no exchange fails without a reason, no run is longer than the operations allow;
* `sum_threads`, `nonneg_of_threads`: what the threads did amounts to what each of them did.
-/

namespace Onde.Lib

/-- A thread: what it has still to do, and the value that its loop has read. -/
structure Worker (V O : Type) where
  todo : List O
  held : Option V

/-- A cell: its value, the values it had before, the threads, and what they did to it, oldest first. -/
structure Shared (T V O : Type) where
  value : V
  past : List V
  workers : T → Worker V O
  done : List (T × O)

/-- What can happen. -/
inductive CellAction (T V : Type) where
  | update (t : T)
  | load (t : T) (seen : V)
  | exchange (t : T)
  | fail (t : T) (seen : V)

namespace Shared

variable {T V O : Type} [DecidableEq T]

/-- The threads before they run. -/
def start (program : T → List O) (v₀ : V) : Shared T V O := ⟨v₀, [], fun t => ⟨program t, none⟩, []⟩

/-- An operation takes effect. -/
def commit (effect : O → V → V) (s : Shared T V O) (t : T) (o : O) (rest : List O) : Shared T V O where
  value := effect o s.value
  past := s.past ++ [s.value]
  workers := Function.update s.workers t ⟨rest, none⟩
  done := s.done ++ [(t, o)]

/-- A loop reads a value. -/
def hold (s : Shared T V O) (t : T) (v : V) : Shared T V O :=
  { s with workers := Function.update s.workers t ⟨(s.workers t).todo, some v⟩ }

/-- Every thread has finished. -/
def Finished (s : Shared T V O) : Prop := ∀ t, (s.workers t).todo = []

/-- What is done makes the value, and each thread does its operations in its order. -/
structure Linear (effect : O → V → V) (program : T → List O) (v₀ : V) (s : Shared T V O) : Prop where
  value : s.value = s.done.foldl (fun v d => effect d.2 v) v₀
  order : ∀ t, (s.done.filter (·.1 = t)).map Prod.snd ++ (s.workers t).todo = program t

section

variable {effect : O → V → V} {program : T → List O} {v₀ : V} {s : Shared T V O} {t : T} {o : O} {rest : List O}

theorem linear_start : Linear effect program v₀ (start program v₀) := ⟨rfl, fun _ => rfl⟩

theorem Linear.commit (hs : Linear effect program v₀ s) (htodo : (s.workers t).todo = o :: rest) :
    Linear effect program v₀ (s.commit effect t o rest) where
  value := by
    show effect o s.value = _
    rw [hs.value, Shared.commit, List.foldl_append]
    rfl
  order u := by
    show ((s.done ++ [(t, o)]).filter (·.1 = u)).map Prod.snd ++
      (Function.update s.workers t ⟨rest, none⟩ u).todo = _
    have hu := hs.order u
    rcases eq_or_ne u t with rfl | hne
    · rw [htodo] at hu
      simpa using hu
    · simpa [Function.update_of_ne hne, hne.symm] using hu

theorem Linear.hold (hs : Linear effect program v₀ s) (t : T) (v : V) : Linear effect program v₀ (s.hold t v) where
  value := hs.value
  order u := by
    have hu := hs.order u
    rcases eq_or_ne u t with rfl | hne
    · simpa [Shared.hold] using hu
    · simpa [Shared.hold, Function.update_of_ne hne] using hu

theorem commit_hold (s : Shared T V O) (t : T) (v : V) (o : O) (rest : List O) :
    (s.hold t v).commit effect t o rest = s.commit effect t o rest := by
  simp [commit, hold]

theorem Linear.finished (hs : Linear effect program v₀ s) (h : s.Finished) (t : T) :
    (s.done.filter (·.1 = t)).map Prod.snd = program t := by
  have ht := hs.order t
  rwa [h t, List.append_nil] at ht

variable [Fintype T]

/-- What is left to do. -/
def left (s : Shared T V O) : Nat := ∑ t, (s.workers t).todo.length

theorem left_commit (effect : O → V → V) (htodo : (s.workers t).todo = o :: rest) :
    (s.commit effect t o rest).left + 1 = s.left := by
  have hs := Finset.add_sum_erase Finset.univ (fun u => (s.workers u).todo.length) (Finset.mem_univ t)
  have hc := Finset.add_sum_erase Finset.univ (fun u => ((s.commit effect t o rest).workers u).todo.length)
    (Finset.mem_univ t)
  have hothers : ∑ u ∈ Finset.univ.erase t, ((s.commit effect t o rest).workers u).todo.length =
      ∑ u ∈ Finset.univ.erase t, (s.workers u).todo.length :=
    Finset.sum_congr rfl fun u hu => by simp [commit, Function.update_of_ne (Finset.ne_of_mem_erase hu)]
  have ht : ((s.commit effect t o rest).workers t).todo = rest := by simp [commit]
  simp only [htodo, ht, List.length_cons] at hs hc
  unfold left
  omega

theorem left_hold (s : Shared T V O) (t : T) (v : V) : (s.hold t v).left = s.left := by
  refine Finset.sum_congr rfl fun u _ => ?_
  rcases eq_or_ne u t with rfl | hne
  · simp [hold]
  · simp [hold, Function.update_of_ne hne]

end

/-! ## Steps -/

variable [DecidableEq V]

/-- One step; an exchange succeeds only on the value it was given, and may fail on it too. -/
def step (effect : O → V → V) (loops : O → Bool) (s : Shared T V O) : CellAction T V → Option (Shared T V O)
  | .update t =>
    match s.workers t with
    | ⟨o :: rest, none⟩ => if loops o then none else some (s.commit effect t o rest)
    | _ => none
  | .load t seen =>
    match s.workers t with
    | ⟨o :: _, none⟩ => if loops o ∧ seen ∈ s.value :: s.past then some (s.hold t seen) else none
    | _ => none
  | .exchange t =>
    match s.workers t with
    | ⟨o :: rest, some v⟩ => if v = s.value then some (s.commit effect t o rest) else none
    | _ => none
  | .fail t seen =>
    match s.workers t with
    | ⟨_ :: _, some _⟩ => if seen ∈ s.value :: s.past then some (s.hold t seen) else none
    | _ => none

/-- A run. -/
def run (effect : O → V → V) (loops : O → Bool) : Shared T V O → List (CellAction T V) → Option (Shared T V O)
  | s, [] => some s
  | s, a :: as => (s.step effect loops a).bind fun s' => run effect loops s' as

variable {effect : O → V → V} {loops : O → Bool} {s s' : Shared T V O} {a : CellAction T V}
  {as bs : List (CellAction T V)} {t : T} {o : O} {rest : List O} {program : T → List O} {v₀ : V}

/-- **What a step does**: the next operation of a thread takes effect, or a loop reads a value, its first or after a
failed exchange. -/
theorem step_cases (h : s.step effect loops a = some s') :
    (∃ t o rest, (s.workers t).todo = o :: rest ∧ s' = s.commit effect t o rest) ∨
      (∃ t v, a = .load t v ∧ (s.workers t).held = none ∧ s' = s.hold t v) ∨
      (∃ t v, a = .fail t v ∧ (s.workers t).held ≠ none ∧ s' = s.hold t v) := by
  cases a with
  | update t =>
    simp only [step] at h
    split at h
    · next o rest heq =>
      split at h
      · cases h
      · exact .inl ⟨t, o, rest, by rw [heq], (Option.some.inj h).symm⟩
    · cases h
  | load t seen =>
    simp only [step] at h
    split at h
    · next heq =>
      split at h
      · exact .inr (.inl ⟨t, seen, rfl, by rw [heq], (Option.some.inj h).symm⟩)
      · cases h
    · cases h
  | exchange t =>
    simp only [step] at h
    split at h
    · next o rest v heq =>
      split at h
      · exact .inl ⟨t, o, rest, by rw [heq], (Option.some.inj h).symm⟩
      · cases h
    · cases h
  | fail t seen =>
    simp only [step] at h
    split at h
    · next heq =>
      split at h
      · exact .inr (.inr ⟨t, seen, rfl, by simp [heq], (Option.some.inj h).symm⟩)
      · cases h
    · cases h

theorem Linear.step (hs : Linear effect program v₀ s) (h : s.step effect loops a = some s') :
    Linear effect program v₀ s' := by
  obtain ⟨t, o, rest, htodo, rfl⟩ | ⟨t, v, -, -, rfl⟩ | ⟨t, v, -, -, rfl⟩ := step_cases h
  · exact hs.commit htodo
  · exact hs.hold t v
  · exact hs.hold t v

/-- **In every interleaving the cell is as if the operations had been done one after the other.** -/
theorem linear_run (hs : Linear effect program v₀ s) (h : s.run effect loops as = some s') :
    Linear effect program v₀ s' := by
  induction as generalizing s with
  | nil =>
    obtain rfl := Option.some.inj h
    exact hs
  | cons a as ih =>
    obtain ⟨u, hu, hrun⟩ := Option.bind_eq_some_iff.mp h
    exact ih (hs.step hu) hrun

theorem run_append : s.run effect loops (as ++ bs) = (s.run effect loops as).bind fun u => u.run effect loops bs := by
  induction as generalizing s with
  | nil => rfl
  | cons a as ih =>
    show (s.step effect loops a).bind _ = ((s.step effect loops a).bind _).bind _
    rw [Option.bind_assoc]
    exact congrArg _ (funext fun u => ih)

/-! ## Progress -/

theorem exchange_hold (htodo : (s.workers t).todo = o :: rest) :
    (s.hold t s.value).step effect loops (.exchange t) = some (s.commit effect t o rest) := by
  rw [← commit_hold s t s.value o rest]
  simp [step, hold, htodo]

/-- A thread that runs alone does its next operation. -/
theorem exists_commit (effect : O → V → V) (loops : O → Bool) (htodo : (s.workers t).todo = o :: rest) :
    ∃ as, s.run effect loops as = some (s.commit effect t o rest) := by
  cases hw : s.workers t with
  | mk todo held =>
  rw [hw] at htodo
  obtain rfl : todo = o :: rest := htodo
  have hx : (s.hold t s.value).run effect loops [.exchange t] = some (s.commit effect t o rest) := by
    rw [run, exchange_hold (by rw [hw])]
    rfl
  cases held with
  | none =>
    cases hl : loops o with
    | false => exact ⟨[.update t], by simp [run, step, hw, hl]⟩
    | true =>
      refine ⟨[.load t s.value, .exchange t], ?_⟩
      rw [run, show s.step effect loops (.load t s.value) = some (s.hold t s.value) by simp [step, hw, hl]]
      exact hx
  | some v =>
    refine ⟨[.fail t s.value, .exchange t], ?_⟩
    rw [run, show s.step effect loops (.fail t s.value) = some (s.hold t s.value) by simp [step, hw]]
    exact hx

variable [Fintype T]

/-- **From every state every thread can finish.** -/
theorem exists_finish (s : Shared T V O) : ∃ as s', s.run effect loops as = some s' ∧ s'.Finished := by
  induction hn : s.left generalizing s with
  | zero =>
    have hall : ∀ t, (s.workers t).todo.length = 0 := fun t => Finset.sum_eq_zero_iff.mp hn t (Finset.mem_univ t)
    exact ⟨[], s, rfl, fun t => List.length_eq_zero_iff.mp (hall t)⟩
  | succ n ih =>
    obtain ⟨t, -, ht⟩ : ∃ t ∈ Finset.univ, (s.workers t).todo.length ≠ 0 :=
      Finset.exists_ne_zero_of_sum_ne_zero (by rw [← left, hn]; omega)
    obtain ⟨o, rest, htodo⟩ := List.exists_cons_of_length_pos (Nat.pos_of_ne_zero ht)
    obtain ⟨as, has⟩ := exists_commit effect loops htodo
    have hleft := left_commit effect htodo
    obtain ⟨bs, s', hbs, hfin⟩ := ih (s.commit effect t o rest) (by omega)
    exact ⟨as ++ bs, s', by rw [run_append, has]; exact hbs, hfin⟩

/-- Loads return the value, and an exchange fails only on another one. -/
def Prompt (s : Shared T V O) : CellAction T V → Prop
  | .load _ seen => seen = s.value
  | .fail t seen => seen = s.value ∧ (s.workers t).held ≠ some s.value
  | _ => True

/-- The runs of prompt steps. -/
inductive PromptRun (effect : O → V → V) (loops : O → Bool) : Shared T V O → Nat → Prop
  | start (s : Shared T V O) : PromptRun effect loops s 0
  | step {s s' : Shared T V O} {a : CellAction T V} {n : Nat} (ha : s.Prompt a)
    (h : s.step effect loops a = some s') (hr : PromptRun effect loops s' n) : PromptRun effect loops s (n + 1)

/-- The threads whose loop does not hold the value. -/
def unready (s : Shared T V O) : Nat := ∑ t, if (s.workers t).held = some s.value then 0 else 1

omit [DecidableEq T] in
theorem unready_le (s : Shared T V O) : s.unready ≤ Fintype.card T := by
  refine (Finset.sum_le_card_nsmul Finset.univ _ 1 fun t _ => ?_).trans (by simp)
  split <;> omega

theorem unready_hold (ht : (s.workers t).held ≠ some s.value) : (s.hold t s.value).unready < s.unready := by
  refine Finset.sum_lt_sum (fun u _ => ?_) ⟨t, Finset.mem_univ t, by simp [hold, ht]⟩
  rcases eq_or_ne u t with rfl | hne
  · simp [hold]
  · simp [hold, Function.update_of_ne hne]

/-- A bound on the steps left. -/
def rank (s : Shared T V O) : Nat := s.left * (Fintype.card T + 1) + s.unready

/-- A prompt step brings the end nearer: an operation is done, or one more loop holds the value. -/
theorem rank_step (ha : s.Prompt a) (h : s.step effect loops a = some s') : s'.rank < s.rank := by
  obtain ⟨t, o, rest, htodo, rfl⟩ | ⟨t, v, rfl, hheld, rfl⟩ | ⟨t, v, rfl, -, rfl⟩ := step_cases h
  · have hunready := unready_le (s.commit effect t o rest)
    rw [rank, rank, ← left_commit effect htodo, Nat.add_mul]
    omega
  · obtain rfl : v = s.value := ha
    have hunready := unready_hold (s := s) (t := t) (by simp [hheld])
    rw [rank, rank, left_hold]
    omega
  · obtain ⟨rfl, hheld⟩ := ha
    have hunready := unready_hold hheld
    rw [rank, rank, left_hold]
    omega

/-- **Lock-free**: as long as no exchange fails without a reason, threads do not keep each other from finishing. -/
theorem length_le {n : Nat} (hr : PromptRun effect loops s n) : n ≤ s.rank := by
  induction hr with
  | start => exact Nat.zero_le _
  | step ha h _ ih => exact Nat.succ_le_of_lt (ih.trans_lt (rank_step ha h))

end Shared

/-! ## What several threads do -/

section

variable {T O : Type} [DecidableEq T] [Fintype T] {program : T → List O} {ds : List (T × O)}

/-- What is done is what the threads have done. -/
theorem sum_threads {M : Type} [AddCommMonoid M] (w : O → M) (ds : List (T × O)) :
    (ds.map fun d => w d.2).sum = ∑ t, (((ds.filter (·.1 = t)).map Prod.snd).map w).sum := by
  induction ds with
  | nil => simp
  | cons d ds ih =>
    have hd : ∀ t, (((d :: ds).filter (·.1 = t)).map Prod.snd |>.map w).sum =
        (if d.1 = t then w d.2 else 0) + (((ds.filter (·.1 = t)).map Prod.snd).map w).sum := by
      intro t
      by_cases h : d.1 = t <;> simp [h]
    rw [List.map_cons, List.sum_cons, ih, Finset.sum_congr rfl fun t _ => hd t, Finset.sum_add_distrib,
      Finset.sum_ite_eq]
    simp

/-- **If no thread ever takes back more than it gave, all of them together never do.** -/
theorem nonneg_of_threads {w : O → Int} (hw : ∀ t p, p <+: program t → 0 ≤ (p.map w).sum)
    (hds : ∀ t, (ds.filter (·.1 = t)).map Prod.snd <+: program t) {p : List (T × O)} (hp : p <+: ds) :
    0 ≤ (p.map fun d => w d.2).sum := by
  rw [sum_threads]
  exact Finset.sum_nonneg fun t _ => hw t _ (((hp.filter _).map _).trans (hds t))

end

end Onde.Lib
