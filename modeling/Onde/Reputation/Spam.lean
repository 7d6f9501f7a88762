import Mathlib.Algebra.Order.Field.Rat
import Mathlib.Data.Rat.Floor
import Onde.Lib.HashMap

/-!
# Abuse records and the sliding window

Penalties and decay are exact rationals.

* `actionForAbuse`, `decayedAbuse`, `AbuseRecord.record`: graduated actions and slow recovery;
* `SpamGuard.admitWithBudget`: the per-author window, which admits exactly when fewer than `budget` stamps are left in
  it (`admit_iff`); a refusal adds no stamp (`stamps_refused`), an admission one, to the author's own window
  (`stamps_admitted`).
-/

namespace Onde.Reputation

open Onde.Lib

def spamWindowSecs : Nat := 60
def spamBudgetPerWindow : Nat := 12
def maxTrackedAuthors : Nat := 1024
def maxAbuseReportsTracked : Nat := 2048
def abuseThrottleThreshold : ℚ := 15 / 100
def abuseDeprioritizeThreshold : ℚ := 40 / 100
def abuseIgnoreThreshold : ℚ := 80 / 100
def penaltyExcessiveRate : ℚ := 30 / 100
def penaltyInvalidEvent : ℚ := 10 / 100
def penaltyInsufficientPow : ℚ := 20 / 100
def penaltyRemoteReport : ℚ := 10 / 100
def abuseRecoveryPerHour : ℚ := 1 / 100
def secsPerHour : Nat := 3600

/-- The last value of a `u64`. -/
def u64Max : Nat := 2 ^ 64 - 1

/-! ## Violations -/

/-- Why an author is penalised. -/
inductive AbuseReason where
  | excessiveRate | invalidEvent | insufficientPow
  deriving DecidableEq

def AbuseReason.code : AbuseReason → UInt8
  | .excessiveRate => 1
  | .invalidEvent => 2
  | .insufficientPow => 3

def AbuseReason.fromCode (code : UInt8) : Option AbuseReason :=
  match code with
  | 1 => some .excessiveRate
  | 2 => some .invalidEvent
  | 3 => some .insufficientPow
  | _ => none

def AbuseReason.penalty : AbuseReason → ℚ
  | .excessiveRate => penaltyExcessiveRate
  | .invalidEvent => penaltyInvalidEvent
  | .insufficientPow => penaltyInsufficientPow

theorem AbuseReason.penalty_pos (r : AbuseReason) : 0 < r.penalty := by
  cases r <;> decide +kernel

/-- What a node does with an author. -/
inductive TrustAction where
  | accept | throttle | deprioritize | ignore
  deriving DecidableEq

/-- The action at an abuse level. -/
def actionForAbuse (abuse : ℚ) : TrustAction :=
  if abuseIgnoreThreshold ≤ abuse then .ignore
  else if abuseDeprioritizeThreshold ≤ abuse then .deprioritize
  else if abuseThrottleThreshold ≤ abuse then .throttle
  else .accept

/-- The level seen at `now`: one step of recovery for every full hour. -/
def decayedAbuse (score : ℚ) (updatedAt now : Nat) : ℚ :=
  max (score - ((now - updatedAt) / secsPerHour : Nat) * abuseRecoveryPerHour) 0

/-- The abuse level of an author and when it was last written. -/
structure AbuseRecord where
  score : ℚ
  updatedAt : Nat
  deriving DecidableEq

/-- No abuse. -/
def AbuseRecord.default : AbuseRecord := ⟨0, 0⟩

def AbuseRecord.levelAt (r : AbuseRecord) (now : Nat) : ℚ := decayedAbuse r.score r.updatedAt now

/-- Add a violation to what is left of the level. -/
def AbuseRecord.record (r : AbuseRecord) (amount : ℚ) (now : Nat) : AbuseRecord :=
  ⟨min (r.levelAt now + amount) 1, now⟩

/-- A negative endorsement. -/
structure AbuseReport where
  reporter : String
  offender : String
  reason : UInt8
  timestamp : Nat
  deriving DecidableEq

/-! ## The sliding window -/

/-- The admissions of each author that are still in the window. -/
structure SpamGuard where
  windowSecs : Nat
  budget : Nat
  entries : StrMap (List Nat)

namespace SpamGuard

def new (windowSecs budget : Nat) : SpamGuard := ⟨windowSecs, budget, ∅⟩

/-- The stamps of an author. -/
def stamps (g : SpamGuard) (author : String) : List Nat := g.entries.getD author []

/-- Drop the stamps that have left the window. -/
def purge (windowSecs now : Nat) (stamps : List Nat) : List Nat := stamps.dropWhile fun t => t < now - windowSecs

/-- The author whose last admission is the oldest; the first one in the iteration order on a tie. -/
def oldestKey (ord : HashOrder) (entries : StrMap (List Nat)) : Option String :=
  ((entries.keysIn ord).foldl (fun (acc : Option String × Nat) k =>
    let last := (entries.getD k []).getLast?.getD 0
    if last < acc.2 then (some k, last) else acc) (none, u64Max)).1

/-- Evict the author the least recently active. -/
def evictOldest (ord : HashOrder) (entries : StrMap (List Nat)) : StrMap (List Nat) :=
  match oldestKey ord entries with
  | some k => entries.erase k
  | none => entries

/-- Admit one more event of an author, within an explicit budget. -/
def admitWithBudget (ord : HashOrder) (g : SpamGuard) (author : String) (now budget : Nat) : Bool × SpamGuard :=
  if budget = 0 then (false, g)
  else
    let window := purge g.windowSecs now (g.stamps author)
    if budget ≤ window.length then
      (false, { g with entries := if window = [] then g.entries.erase author else g.entries.insert author window })
    else
      let entries := g.entries.insert author (window ++ [now])
      (true, { g with entries := if maxTrackedAuthors < entries.keys.length then evictOldest ord entries else entries })

def admits (ord : HashOrder) (g : SpamGuard) (author : String) (now : Nat) : Bool × SpamGuard :=
  g.admitWithBudget ord author now g.budget

variable {ord : HashOrder} {g : SpamGuard} {author : String} {now budget : Nat}

theorem purge_sublist (windowSecs now : Nat) (stamps : List Nat) : (purge windowSecs now stamps).Sublist stamps :=
  List.dropWhile_sublist _

/-- In order of time, what is left of a window is recent. -/
theorem purge_recent {windowSecs : Nat} : ∀ {stamps : List Nat}, stamps.Pairwise (· ≤ ·) →
    ∀ t ∈ purge windowSecs now stamps, now ≤ t + windowSecs
  | [], _, _, ht => by cases ht
  | s :: stamps, hs, t, ht => by
    obtain ⟨hle, hs'⟩ := List.pairwise_cons.mp hs
    by_cases hold : s < now - windowSecs
    · have hdrop : purge windowSecs now (s :: stamps) = purge windowSecs now stamps :=
        List.dropWhile_cons_of_pos (decide_eq_true hold)
      rw [hdrop] at ht
      exact purge_recent hs' t ht
    · have hkeep : purge windowSecs now (s :: stamps) = s :: stamps :=
        List.dropWhile_cons_of_neg (by simpa using hold)
      rw [hkeep] at ht
      rcases List.mem_cons.mp ht with rfl | ht
      · omega
      · have := hle t ht
        omega

/-- **An event is admitted exactly when the window has room.** -/
theorem admit_iff : (g.admitWithBudget ord author now budget).1 = true ↔
    (purge g.windowSecs now (g.stamps author)).length < budget := by
  unfold admitWithBudget
  by_cases h0 : budget = 0
  · simp [h0]
  · rw [if_neg h0]
    by_cases hf : budget ≤ (purge g.windowSecs now (g.stamps author)).length
    · simp only [if_pos hf, Bool.false_eq_true, false_iff]
      omega
    · simp only [if_neg hf, true_iff]
      omega

theorem windowSecs_admit : (g.admitWithBudget ord author now budget).2.windowSecs = g.windowSecs := by
  unfold admitWithBudget
  split
  · rfl
  · dsimp only
    split <;> rfl

theorem stamps_evictOldest (entries : StrMap (List Nat)) (b : String) :
    ((evictOldest ord entries).getD b []).Sublist (entries.getD b []) := by
  unfold evictOldest
  cases oldestKey ord entries with
  | none => exact List.Sublist.refl _
  | some k =>
    by_cases hb : b = k
    · subst hb
      simp only [StrMap.getD_erase_self, List.nil_sublist]
    · simp only [StrMap.getD_erase_ne hb, List.Sublist.refl]

/-- A refusal adds no stamp. -/
theorem stamps_refused (h : (g.admitWithBudget ord author now budget).1 = false) (b : String) :
    ((g.admitWithBudget ord author now budget).2.stamps b).Sublist (g.stamps b) := by
  have hfull : budget ≤ (purge g.windowSecs now (g.stamps author)).length :=
    Nat.le_of_not_lt fun hlt => by simp [admit_iff.mpr hlt] at h
  unfold admitWithBudget
  by_cases h0 : budget = 0
  · rw [if_pos h0]
  · rw [if_neg h0]
    dsimp only
    rw [if_pos hfull]
    by_cases hw : purge g.windowSecs now (g.stamps author) = [] <;> by_cases hb : b = author
    · subst hb
      rw [if_pos hw, stamps, StrMap.getD_erase_self]
      exact List.nil_sublist _
    · rw [if_pos hw, stamps, StrMap.getD_erase_ne hb, stamps]
    · subst hb
      rw [if_neg hw, stamps, StrMap.getD_insert_self]
      exact purge_sublist _ _ _
    · rw [if_neg hw, stamps, StrMap.getD_insert_ne hb, stamps]

/-- **An admission adds one stamp, to the author's window only.** -/
theorem stamps_admitted (h : (g.admitWithBudget ord author now budget).1 = true) (b : String) :
    ((g.admitWithBudget ord author now budget).2.stamps b).Sublist
      (if b = author then g.stamps b ++ [now] else g.stamps b) := by
  have hroom := admit_iff.mp h
  have hin : (StrMap.getD (g.entries.insert author (purge g.windowSecs now (g.stamps author) ++ [now])) b []).Sublist
      (if b = author then g.stamps b ++ [now] else g.stamps b) := by
    by_cases hb : b = author
    · subst hb
      rw [StrMap.getD_insert_self, if_pos rfl]
      exact (purge_sublist _ _ _).append (List.Sublist.refl _)
    · rw [StrMap.getD_insert_ne hb, if_neg hb, stamps]
  unfold admitWithBudget
  rw [if_neg (by omega), if_neg (by omega)]
  dsimp only
  by_cases hm : maxTrackedAuthors <
      (g.entries.insert author (purge g.windowSecs now (g.stamps author) ++ [now])).keys.length
  · rw [if_pos hm]
    exact (stamps_evictOldest _ b).trans hin
  · rw [if_neg hm]
    exact hin

end SpamGuard

end Onde.Reputation
