import Onde.Reputation.Laundering

/-!
# The adaptive difficulty

The difficulty floor between the two ends of the scale, on exact rationals.

* `requiredPowDifficultyAt`: the floor with the abuse seen at a given time;
* `powScale_antitone`: more trust, less work;
* `adaptive_pow`: the floor falls with the score, is zero exactly for the trusted that are not throttled, is otherwise
  between the two ends, and never below the floor at any time.
-/

namespace Onde.Reputation

open Onde.Lib

/-! ## Rounding -/

/-- **Rounding keeps the order.** -/
theorem roundHalfAway_mono {p q : ℚ} (hpq : p ≤ q) : roundHalfAway p ≤ roundHalfAway q := by
  unfold roundHalfAway
  by_cases hp : 0 ≤ p
  · rw [if_pos hp, if_pos (hp.trans hpq)]
    exact Int.floor_le_floor (by linarith)
  · rw [if_neg hp]
    by_cases hq : 0 ≤ q
    · rw [if_pos hq]
      calc ⌈p - 1 / 2⌉ ≤ 0 := Int.ceil_le.mpr (by push_cast; linarith)
        _ ≤ ⌊q + 1 / 2⌋ := Int.floor_nonneg.mpr (by linarith)
    · rw [if_neg hq]
      exact Int.ceil_le_ceil (by linarith)

/-! ## The scale -/

/-- The difficulty of a score between unknown and trusted, before it becomes a byte. -/
def powScale (score : ℚ) : Nat :=
  let span := ((maxPowDifficulty - basePowDifficulty).toNat : ℚ)
  let diff := (maxPowDifficulty.toNat : ℚ) - score / trustedThreshold * span
  max basePowDifficulty.toNat (min (min (roundHalfAway diff).toNat 255) maxPowDifficulty.toNat)

theorem powScale_ge (score : ℚ) : basePowDifficulty.toNat ≤ powScale score := le_max_left _ _

theorem powScale_le (score : ℚ) : powScale score ≤ maxPowDifficulty.toNat :=
  max_le (by decide) (min_le_right _ _)

/-- **The more trust, the less work.** -/
theorem powScale_antitone {s t : ℚ} (hst : s ≤ t) : powScale t ≤ powScale s := by
  have hthreshold : (0 : ℚ) ≤ trustedThreshold := by decide +kernel
  have hwidth : (0 : ℚ) ≤ ((maxPowDifficulty - basePowDifficulty).toNat : ℚ) := Nat.cast_nonneg _
  have hscaled := mul_le_mul_of_nonneg_right (div_le_div_of_nonneg_right hst hthreshold) hwidth
  have hround := roundHalfAway_mono (sub_le_sub_left hscaled (maxPowDifficulty.toNat : ℚ))
  exact max_le_max le_rfl (min_le_min (min_le_min (Int.toNat_le_toNat hround) le_rfl) le_rfl)

namespace ReputationSystem

variable {r r' : ReputationSystem} {a b : String} {now : Nat}

/-- The difficulty floor with the abuse seen at `now`. -/
def requiredPowDifficultyAt (r : ReputationSystem) (pubkey : String) (now : Nat) : UInt8 :=
  if abuseThrottleThreshold ≤ r.abuseLevel pubkey now then maxPowDifficulty else r.requiredPowDifficultyInner pubkey

/-! ## The floor of the score -/

theorem inner_trusted (ht : trustedThreshold ≤ r.score a) : r.requiredPowDifficultyInner a = 0 := if_pos ht

theorem toNat_inner (ht : r.score a < trustedThreshold) : (r.requiredPowDifficultyInner a).toNat =
    if r.score a ≤ unknownTrust then maxPowDifficulty.toNat else powScale (r.score a) := by
  unfold requiredPowDifficultyInner
  rw [if_neg (not_le.mpr ht)]
  by_cases hu : r.score a ≤ unknownTrust
  · rw [if_pos hu, if_pos hu]
  · rw [if_neg hu, if_neg hu]
    exact UInt8.toNat_ofNat_of_lt' ((powScale_le (r.score a)).trans_lt (by decide))

/-- Below the threshold of trust the floor of the score is between the two ends, -/
theorem inner_bounds (ht : r.score a < trustedThreshold) :
    basePowDifficulty ≤ r.requiredPowDifficultyInner a ∧ r.requiredPowDifficultyInner a ≤ maxPowDifficulty := by
  rw [UInt8.le_iff_toNat_le, UInt8.le_iff_toNat_le, toNat_inner ht]
  split
  · exact ⟨by decide, le_rfl⟩
  · exact ⟨powScale_ge _, powScale_le _⟩

/-- and it falls as the score rises. -/
theorem inner_antitone (hs : r.score a ≤ r'.score b) :
    r'.requiredPowDifficultyInner b ≤ r.requiredPowDifficultyInner a := by
  by_cases hb : trustedThreshold ≤ r'.score b
  · rw [inner_trusted hb]
    exact UInt8.le_iff_toNat_le.mpr (Nat.zero_le _)
  · have hb' := not_le.mp hb
    have ha' := hs.trans_lt hb'
    rw [UInt8.le_iff_toNat_le, toNat_inner hb', toNat_inner ha']
    by_cases hua : r.score a ≤ unknownTrust
    · rw [if_pos hua]
      split
      · exact le_rfl
      · exact powScale_le _
    · rw [if_neg hua, if_neg fun hub => hua (hs.trans hub)]
      exact powScale_antitone hs

theorem inner_le : r.requiredPowDifficultyInner a ≤ maxPowDifficulty := by
  by_cases ht : trustedThreshold ≤ r.score a
  · rw [inner_trusted ht]
    exact UInt8.le_iff_toNat_le.mpr (Nat.zero_le _)
  · exact (inner_bounds (not_le.mp ht)).2

/-! ## The floor of an author -/

/-- A throttled author pays the maximum. -/
theorem required_throttled (h : abuseThrottleThreshold ≤ r.storedAbuseLevel a) :
    r.requiredPowDifficulty a = maxPowDifficulty := if_pos h

theorem required_accepted (h : r.storedAbuseLevel a < abuseThrottleThreshold) :
    r.requiredPowDifficulty a = r.requiredPowDifficultyInner a := if_neg (not_le.mpr h)

/-- A level seen at any time that reaches a positive bound was stored at that bound at least. -/
theorem le_stored_of_le_abuseLevel {bound : ℚ} (hpos : 0 < bound) (h : bound ≤ r.abuseLevel a now) :
    bound ≤ r.storedAbuseLevel a := by
  unfold abuseLevel at h
  unfold storedAbuseLevel
  cases hr : r.abuse.lookup a with
  | none =>
    rw [hr] at h
    exact absurd h (not_le.mpr hpos)
  | some rec =>
    rw [hr] at h
    have hlevel : bound ≤ rec.levelAt now := h
    rw [AbuseRecord.levelAt_eq] at hlevel
    have hnn : (0 : ℚ) ≤ fullHours rec.updatedAt now * abuseRecoveryPerHour :=
      mul_nonneg (Nat.cast_nonneg _) AbuseRecord.recovery_pos.le
    rcases le_max_iff.mp hlevel with hleft | hright
    · exact hleft.trans (sub_le_self _ hnn)
    · exact absurd hright (not_le.mpr hpos)

theorem throttleThreshold_pos : 0 < abuseThrottleThreshold := by decide +kernel

theorem required_antitone (habuse : r.storedAbuseLevel a = r'.storedAbuseLevel b) (hs : r.score a ≤ r'.score b) :
    r'.requiredPowDifficulty b ≤ r.requiredPowDifficulty a := by
  unfold requiredPowDifficulty
  rw [habuse]
  split
  · exact UInt8.le_iff_toNat_le.mpr le_rfl
  · exact inner_antitone hs

/-- **Nothing is asked exactly of the trusted that are not throttled.** -/
theorem required_zero_iff : r.requiredPowDifficulty a = 0 ↔
    r.isTrusted a = true ∧ r.storedAbuseLevel a < abuseThrottleThreshold := by
  have hmax : maxPowDifficulty ≠ 0 := by decide
  have hbase : ¬basePowDifficulty ≤ 0 := by decide
  rw [isTrusted, decide_eq_true_eq]
  constructor
  · intro hzero
    by_cases hthrottled : abuseThrottleThreshold ≤ r.storedAbuseLevel a
    · exact absurd ((required_throttled hthrottled).symm.trans hzero) hmax
    · refine ⟨?_, not_le.mp hthrottled⟩
      rw [required_accepted (not_le.mp hthrottled)] at hzero
      by_contra hlow
      have hbounds := (inner_bounds (not_le.mp hlow)).1
      rw [hzero] at hbounds
      exact hbase hbounds
  · rintro ⟨htrusted, haccepted⟩
    rw [required_accepted haccepted, inner_trusted htrusted]

/-- What is asked at all is between the two ends. -/
theorem required_bounds (h : r.requiredPowDifficulty a ≠ 0) :
    basePowDifficulty ≤ r.requiredPowDifficulty a ∧ r.requiredPowDifficulty a ≤ maxPowDifficulty := by
  refine ⟨?_, requiredPowDifficulty_le a⟩
  by_cases hthrottled : abuseThrottleThreshold ≤ r.storedAbuseLevel a
  · rw [required_throttled hthrottled]
    decide
  · rw [required_accepted (not_le.mp hthrottled)]
    refine (inner_bounds (not_le.mp fun htrusted => h ?_)).1
    rw [required_accepted (not_le.mp hthrottled), inner_trusted htrusted]

/-- An author under a restriction at any time pays the maximum. -/
theorem required_restricted (h : r.actionFor a now ≠ .accept) : r.requiredPowDifficulty a = maxPowDifficulty := by
  have hdeprioritize : abuseThrottleThreshold ≤ abuseDeprioritizeThreshold := by decide +kernel
  have hignore : abuseThrottleThreshold ≤ abuseIgnoreThreshold := by decide +kernel
  have hlevel : abuseThrottleThreshold ≤ r.abuseLevel a now := by
    by_contra hlow
    refine h ?_
    rw [actionFor, actionForAbuse, if_neg fun hi => hlow (hignore.trans hi),
      if_neg fun hd => hlow (hdeprioritize.trans hd), if_neg hlow]
  exact required_throttled (le_stored_of_le_abuseLevel throttleThreshold_pos hlevel)

/-- The floor at any time is no higher than the stored one. -/
theorem requiredAt_le (r : ReputationSystem) (a : String) (now : Nat) :
    r.requiredPowDifficultyAt a now ≤ r.requiredPowDifficulty a := by
  unfold requiredPowDifficultyAt
  split
  · next hlevel =>
    rw [required_throttled (le_stored_of_le_abuseLevel throttleThreshold_pos hlevel)]
    exact UInt8.le_iff_toNat_le.mpr le_rfl
  · unfold requiredPowDifficulty
    split
    · exact inner_le
    · exact UInt8.le_iff_toNat_le.mpr le_rfl

/-- **The adaptive proof of work is monotone**: more trust asks for no more work at equal abuse, none is asked exactly
of the trusted below the throttle threshold, the throttled and restricted pay the maximum, all others pay between the
two ends, and the floor with the recovery seen at any time is no higher. -/
theorem adaptive_pow (r r' : ReputationSystem) (a b : String) :
    (r.storedAbuseLevel a = r'.storedAbuseLevel b → r.score a ≤ r'.score b →
      r'.requiredPowDifficulty b ≤ r.requiredPowDifficulty a) ∧
    (r.requiredPowDifficulty a = 0 ↔ r.isTrusted a = true ∧ r.storedAbuseLevel a < abuseThrottleThreshold) ∧
    (r.requiredPowDifficulty a ≠ 0 →
      basePowDifficulty ≤ r.requiredPowDifficulty a ∧ r.requiredPowDifficulty a ≤ maxPowDifficulty) ∧
    (abuseThrottleThreshold ≤ r.storedAbuseLevel a → r.requiredPowDifficulty a = maxPowDifficulty) ∧
    (∀ now, r.actionFor a now ≠ .accept → r.requiredPowDifficulty a = maxPowDifficulty) ∧
    ∀ now, r.requiredPowDifficultyAt a now ≤ r.requiredPowDifficulty a :=
  ⟨required_antitone, required_zero_iff, required_bounds, required_throttled, fun _ => required_restricted,
    requiredAt_le r a⟩

/-- Two scores on the scale, and a throttled author. -/
def graded : ReputationSystem :=
  ((new.setTrusted "a" (35 / 100)).setTrusted "b" (60 / 100)).recordViolation "c" .excessiveRate 0

theorem adaptive_pow_graded : graded.requiredPowDifficulty "b" ≤ graded.requiredPowDifficulty "a" ∧
    (basePowDifficulty ≤ graded.requiredPowDifficulty "a" ∧ graded.requiredPowDifficulty "a" ≤ maxPowDifficulty) ∧
    graded.requiredPowDifficulty "c" = maxPowDifficulty :=
  ⟨(adaptive_pow graded graded "a" "b").1 (by decide +kernel) (by decide +kernel),
    (adaptive_pow graded graded "a" "b").2.2.1 (by decide +kernel),
    (adaptive_pow graded graded "c" "c").2.2.2.1 (by decide +kernel)⟩

example : (graded.requiredPowDifficulty "a", graded.requiredPowDifficulty "b",
    graded.requiredPowDifficultyAt "c" (20 * 3600)) = (3, 2, 4) := by decide +kernel

end ReputationSystem

end Onde.Reputation
