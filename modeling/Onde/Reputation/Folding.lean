import Onde.Reputation.Laundering

/-!
# Folding the decay of abuse

Reading counts the full hours since the last write; folding writes the level seen and dates it `now`, so what is left
of the hour is lost. `fold_record_iff` says when no later reader sees a difference, `fold_transparent_iff` says it for
any number of folds in a run.
-/

namespace Onde.Reputation

open Onde.Lib

/-- What a fold writes. -/
def AbuseRecord.fold (r : AbuseRecord) (now : Nat) : AbuseRecord := ⟨r.levelAt now, now⟩

/-- The first moment at which a fold at `now` can be seen: the next full hour of the record, or, before the record was
written, one hour later. -/
def firstLoss (updatedAt now : Nat) : Nat :=
  if updatedAt ≤ now then updatedAt + (fullHours updatedAt now + 1) * secsPerHour else now + secsPerHour

/-- Nothing is left to decay, or the fold falls on a full hour, or time ends before it can be seen. -/
def AbuseRecord.FoldsWhole (r : AbuseRecord) (now : Nat) : Prop :=
  r.score ≤ fullHours r.updatedAt now * abuseRecoveryPerHour ∨
    (r.updatedAt ≤ now ∧ secsPerHour ∣ now - r.updatedAt) ∨ u64Max < firstLoss r.updatedAt now

instance (r : AbuseRecord) (now : Nat) : Decidable (r.FoldsWhole now) := by
  unfold AbuseRecord.FoldsWhole
  infer_instance

namespace AbuseRecord

variable {r : AbuseRecord} {now t : Nat}

/-- Cutting at zero in between changes nothing. -/
theorem max_sub_max {a h : ℚ} (hh : 0 ≤ h) : max (max a 0 - h) 0 = max (a - h) 0 := by
  rcases le_total a 0 with ha | ha
  · rw [max_eq_right ha, max_eq_right (by linarith), max_eq_right (by linarith)]
  · rw [max_eq_left ha]

/-- After a fold the hours before it and the hours since are counted apart. -/
theorem levelAt_fold (r : AbuseRecord) (now t : Nat) : (r.fold now).levelAt t =
    max (r.score - (fullHours r.updatedAt now + fullHours now t : Nat) * abuseRecoveryPerHour) 0 := by
  have hnn : (0 : ℚ) ≤ fullHours now t * abuseRecoveryPerHour := mul_nonneg (Nat.cast_nonneg _) recovery_pos.le
  rw [levelAt_eq, Nat.cast_add, add_mul, ← sub_sub, ← max_sub_max hnn]
  rfl

/-- One hour more is seen as long as something is left. -/
theorem level_step {s : ℚ} {h : Nat} (hs : h * abuseRecoveryPerHour < s) :
    max (s - h * abuseRecoveryPerHour) 0 ≠ max (s - (h + 1 : Nat) * abuseRecoveryPerHour) 0 := by
  have hrec := recovery_pos
  rw [max_eq_left (by linarith)]
  refine ne_of_gt (max_lt ?_ (by linarith))
  push_cast
  linarith

/-- **When a fold is not seen.** -/
theorem fold_record_iff (r : AbuseRecord) (now : Nat) :
    (∀ t, now ≤ t → t ≤ u64Max → (r.fold now).levelAt t = r.levelAt t) ↔ r.FoldsWhole now := by
  constructor
  · intro hall
    by_contra hlost
    simp only [FoldsWhole, not_or, not_le, not_lt, not_and] at hlost
    obtain ⟨hleft, hpart, hseen⟩ := hlost
    have hnow : now ≤ firstLoss r.updatedAt now := by
      unfold firstLoss fullHours secsPerHour
      split <;> omega
    have heq := hall _ hnow hseen
    rw [levelAt_fold, levelAt_eq] at heq
    by_cases hu : r.updatedAt ≤ now
    · -- the record sees a full hour more, the fold does not
      have hrecord : fullHours r.updatedAt (firstLoss r.updatedAt now) = fullHours r.updatedAt now + 1 := by
        simp only [firstLoss, fullHours, secsPerHour, if_pos hu]
        omega
      have hfold : fullHours now (firstLoss r.updatedAt now) = 0 := by
        have hpart := hpart hu
        simp only [firstLoss, fullHours, secsPerHour, if_pos hu] at hpart ⊢
        omega
      rw [hrecord, hfold, Nat.add_zero] at heq
      exact level_step hleft heq
    · -- the fold sees a full hour before the record does
      have hrecord : fullHours r.updatedAt (firstLoss r.updatedAt now) = fullHours r.updatedAt now := by
        simp only [firstLoss, fullHours, secsPerHour, if_neg hu]
        omega
      have hfold : fullHours now (firstLoss r.updatedAt now) = 1 := by
        simp only [firstLoss, fullHours, secsPerHour, if_neg hu]
        omega
      rw [hrecord, hfold] at heq
      exact level_step hleft heq.symm
  · intro hwhole t hnow ht
    have hle : fullHours r.updatedAt now ≤ fullHours r.updatedAt t := by
      unfold fullHours secsPerHour
      omega
    rw [levelAt_fold, levelAt_eq]
    rcases hwhole with hgone | ⟨hu, hhours⟩ | hend
    · have hmore := sub_hours_le (s := r.score) hle
      have hsum := sub_hours_le (s := r.score) (Nat.le_add_right (fullHours r.updatedAt now) (fullHours now t))
      rw [max_eq_right (by linarith), max_eq_right (by linarith)]
    · have hadd : fullHours r.updatedAt now + fullHours now t = fullHours r.updatedAt t := by
        unfold fullHours secsPerHour at *
        omega
      rw [hadd]
    · have hadd : fullHours r.updatedAt now + fullHours now t = fullHours r.updatedAt t := by
        simp only [firstLoss, fullHours, secsPerHour] at hend ⊢
        split at hend <;> omega
      rw [hadd]

end AbuseRecord

/-! ## Systems -/

namespace ReputationSystem

variable {r : ReputationSystem} {author : String}

/-- Folds of one author, one after the other. -/
def foldRun (r : ReputationSystem) (author : String) (nows : List Nat) : ReputationSystem :=
  nows.foldl (fun r now => r.foldAbuseDecay author now) r

@[simp] theorem foldRun_nil : r.foldRun author [] = r := rfl

theorem foldRun_append (past : List Nat) (now : Nat) :
    r.foldRun author (past ++ [now]) = (r.foldRun author past).foldAbuseDecay author now := by
  rw [foldRun, List.foldl_append]
  rfl

/-- A fold writes the folded record, if there is one. -/
theorem lookup_foldAbuseDecay (r : ReputationSystem) (author : String) (now : Nat) :
    (r.foldAbuseDecay author now).abuse.lookup author = (r.abuse.lookup author).map fun rec => rec.fold now := by
  unfold foldAbuseDecay
  cases hl : r.abuse.lookup author with
  | none => exact hl
  | some rec => exact AList.lookup_insert _

/-- The other authors are not touched. -/
theorem abuseLevel_foldAbuseDecay_ne {other : String} (h : other ≠ author) (now t : Nat) :
    (r.foldAbuseDecay author now).abuseLevel other t = r.abuseLevel other t := by
  unfold foldAbuseDecay
  cases hl : r.abuse.lookup author with
  | none => rfl
  | some rec => rw [abuseLevel, abuseLevel, AList.lookup_insert_ne h]

/-- The record of an author, if there is one, folds without loss. -/
def FoldsWhole (r : ReputationSystem) (author : String) (now : Nat) : Prop :=
  ∀ rec, r.abuse.lookup author = some rec → rec.FoldsWhole now

theorem fold_system_iff (r : ReputationSystem) (author : String) (now : Nat) :
    (∀ t, now ≤ t → t ≤ u64Max → (r.foldAbuseDecay author now).abuseLevel author t = r.abuseLevel author t) ↔
      r.FoldsWhole author now := by
  unfold abuseLevel FoldsWhole
  rw [lookup_foldAbuseDecay]
  cases r.abuse.lookup author with
  | none => exact iff_of_true (fun _ _ _ => rfl) nofun
  | some rec =>
    refine (AbuseRecord.fold_record_iff rec now).trans ⟨?_, fun h => h rec rfl⟩
    rintro h _ ⟨⟩
    exact h

/-- **When folds are transparent.** After any number of folds at times that do not go back, every later reader sees
what it sees without them, exactly if each fold finds nothing left to decay, or falls on a full hour of the record it
finds, or is made too late to be seen. -/
theorem fold_transparent_iff (r : ReputationSystem) (author : String) (nows : List Nat)
    (hsorted : nows.Pairwise (· ≤ ·)) :
    (∀ past now rest, nows = past ++ now :: rest → ∀ t, now ≤ t → t ≤ u64Max →
      (r.foldRun author (past ++ [now])).abuseLevel author t = r.abuseLevel author t) ↔
    ∀ past now rest, nows = past ++ now :: rest → (r.foldRun author past).FoldsWhole author now := by
  constructor
  · intro hall past now rest hnows
    refine (fold_system_iff _ author now).mp fun t hnow ht => ?_
    rw [← foldRun_append, hall past now rest hnows t hnow ht]
    -- the folds before are not seen either
    rcases List.eq_nil_or_concat past with rfl | ⟨past, last, rfl⟩
    · rfl
    · rw [List.concat_eq_append] at hnows ⊢
      have hlast : last ≤ now := by
        rw [hnows, List.pairwise_append] at hsorted
        exact hsorted.2.2 last (by simp) now (by simp)
      exact (hall past last (now :: rest) (by simpa using hnows) t (hlast.trans hnow) ht).symm
  · intro hwhole past
    induction past using List.reverseRecOn with
    | nil =>
      intro now rest hnows t hnow ht
      exact (fold_system_iff r author now).mpr (hwhole [] now rest hnows) t hnow ht
    | append_singleton past last ih =>
      intro now rest hnows t hnow ht
      have hlast : last ≤ now := by
        rw [hnows, List.pairwise_append] at hsorted
        exact hsorted.2.2 last (by simp) now (by simp)
      have hbefore := ih last (now :: rest) (by simpa using hnows) t (hlast.trans hnow) ht
      rw [foldRun_append, ← hbefore]
      exact (fold_system_iff _ author now).mpr (hwhole _ now rest hnows) t hnow ht

theorem fold_transparent_hourly :
    ((accused.foldl ReputationOp.apply .new).foldRun "author" [1700003600]).abuseLevel "author" 1700009000 =
      (accused.foldl ReputationOp.apply .new).abuseLevel "author" 1700009000 := by
  refine (fold_transparent_iff (accused.foldl ReputationOp.apply .new) "author" [1700003600]
    (List.pairwise_singleton _ _)).mpr ?_ [] 1700003600 [] rfl 1700009000 (by decide) (by decide)
  intro past now rest hnows rec hrec
  have hrecord : (accused.foldl ReputationOp.apply .new).abuse.lookup "author" = some ⟨9 / 10, 1700000000⟩ := by
    decide +kernel
  obtain ⟨rfl, htail⟩ | ⟨past', rfl, htail⟩ := List.cons_eq_append_iff.mp hnows
  · cases htail
    rw [foldRun_nil, hrecord] at hrec
    obtain rfl := Option.some.inj hrec
    decide +kernel
  · simp at htail

/-- **A fold in the middle of an hour puts the recovery off**: half an hour after a violation, the level of the next
half hour is the level before. -/
theorem fold_loses : ¬∀ (r : ReputationSystem) (author : String) (now t : Nat), now ≤ t → t ≤ u64Max →
    (r.foldAbuseDecay author now).abuseLevel author t = r.abuseLevel author t := by
  intro h
  have heq := h (accused.foldl ReputationOp.apply .new) "author" 1700001800 1700003600 (by decide) (by decide)
  exact absurd heq (by decide +kernel)

end ReputationSystem

end Onde.Reputation
