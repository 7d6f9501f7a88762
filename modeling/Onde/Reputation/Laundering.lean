import Mathlib.Tactic.Linarith
import Onde.Reputation.System

/-!
# Accusations and recovery

An accusation is written with a date: the local time for a violation, the time the reporter states for a report.

* `record_lossless_iff`: exactly when a write lowers no later level, whatever its date;
* `laundering_iff`: the reports and violations that launder, in every reachable state;
* `report_launders`: a report dated long ago erases the abuse.
-/

namespace Onde.Reputation

open Onde.Lib

/-- The full hours between two times. -/
def fullHours (t now : Nat) : Nat := (now - t) / secsPerHour

/-- The last moment at which no more recovery is seen than at `now`. -/
def lastMoment (updatedAt now : Nat) : Nat :=
  min (updatedAt + (fullHours updatedAt now + 1) * secsPerHour - 1) u64Max

/-- A write of `amount` dated `date` lowers no level from `now` on. Dated after the last one, it folds no more recovery
than it adds; dated before, the recovery that its date brings forward is no more than it adds, or nothing is left. -/
def AbuseRecord.Lossless (r : AbuseRecord) (amount : ℚ) (date now : Nat) : Prop :=
  if r.updatedAt ≤ date then r.levelAt now ≤ r.levelAt date + amount
  else r.levelAt now = 0 ∨
    ((fullHours date (lastMoment r.updatedAt now) : ℚ) - fullHours r.updatedAt (lastMoment r.updatedAt now)) *
      abuseRecoveryPerHour ≤ min amount (1 - r.score)

instance (r : AbuseRecord) (amount : ℚ) (date now : Nat) : Decidable (r.Lossless amount date now) := by
  unfold AbuseRecord.Lossless
  infer_instance

/-- A record the code can hold. -/
structure AbuseRecord.InRange (r : AbuseRecord) : Prop where
  nonneg : 0 ≤ r.score
  le_one : r.score ≤ 1
  updatedAt : r.updatedAt ≤ u64Max

namespace AbuseRecord

variable {r : AbuseRecord} {amount : ℚ} {date now t : Nat}

theorem levelAt_eq (r : AbuseRecord) (t : Nat) :
    r.levelAt t = max (r.score - fullHours r.updatedAt t * abuseRecoveryPerHour) 0 := rfl

theorem levelAt_record (r : AbuseRecord) (amount : ℚ) (date t : Nat) : (r.record amount date).levelAt t =
    max (min (r.levelAt date + amount) 1 - fullHours date t * abuseRecoveryPerHour) 0 := rfl

theorem recovery_pos : 0 < abuseRecoveryPerHour := by decide +kernel

theorem levelAt_nonneg (r : AbuseRecord) (t : Nat) : 0 ≤ r.levelAt t := le_max_right _ _

/-- More hours, less abuse. -/
theorem sub_hours_le {s : ℚ} {a b : Nat} (hab : a ≤ b) :
    s - b * abuseRecoveryPerHour ≤ s - a * abuseRecoveryPerHour := by
  have hcast : (a : ℚ) ≤ b := Nat.cast_le.mpr hab
  have := mul_le_mul_of_nonneg_right hcast recovery_pos.le
  linarith

/-- The level only goes down. -/
theorem levelAt_antitone (h : t ≤ now) : r.levelAt now ≤ r.levelAt t := by
  have hhours : fullHours r.updatedAt t ≤ fullHours r.updatedAt now := by
    unfold fullHours secsPerHour
    omega
  rw [levelAt_eq, levelAt_eq]
  exact max_le_max (sub_hours_le hhours) le_rfl

theorem levelAt_le_score (hr : r.InRange) (t : Nat) : r.levelAt t ≤ r.score := by
  rw [levelAt_eq]
  have hnn : (0 : ℚ) ≤ fullHours r.updatedAt t * abuseRecoveryPerHour :=
    mul_nonneg (Nat.cast_nonneg _) recovery_pos.le
  exact max_le (by linarith) hr.nonneg

/-- A write dated before the last one folds no recovery. -/
theorem levelAt_early (hr : r.InRange) (h : date < r.updatedAt) : r.levelAt date = r.score := by
  have hhours : fullHours r.updatedAt date = 0 := by
    unfold fullHours secsPerHour
    omega
  rw [levelAt_eq, hhours, Nat.cast_zero, zero_mul, sub_zero, max_eq_left hr.nonneg]

/-- From its date on, a write dated after the last one loses nothing. -/
theorem record_later (hr : r.InRange) (hp : 0 ≤ amount) (hu : r.updatedAt ≤ date) (ht : date ≤ t) :
    r.levelAt t ≤ (r.record amount date).levelAt t := by
  have hhours : fullHours r.updatedAt date + fullHours date t ≤ fullHours r.updatedAt t := by
    unfold fullHours secsPerHour
    omega
  have hlevel : r.levelAt date ≤ min (r.levelAt date + amount) 1 :=
    le_min (by linarith) ((levelAt_le_score hr date).trans hr.le_one)
  have hold : r.score - fullHours r.updatedAt date * abuseRecoveryPerHour ≤ r.levelAt date := le_max_left _ _
  rw [levelAt_eq, levelAt_record]
  refine max_le_max ?_ le_rfl
  calc r.score - fullHours r.updatedAt t * abuseRecoveryPerHour
      ≤ r.score - (fullHours r.updatedAt date + fullHours date t : Nat) * abuseRecoveryPerHour := sub_hours_le hhours
    _ = (r.score - fullHours r.updatedAt date * abuseRecoveryPerHour) - fullHours date t * abuseRecoveryPerHour := by
        push_cast
        ring
    _ ≤ min (r.levelAt date + amount) 1 - fullHours date t * abuseRecoveryPerHour := by linarith

/-- Before its date, a write in the future shows the level it folded to. -/
theorem record_future (r : AbuseRecord) (hp : 0 ≤ amount) (ht : t ≤ date) :
    (r.record amount date).levelAt t = min (r.levelAt date + amount) 1 := by
  have hhours : fullHours date t = 0 := by
    unfold fullHours secsPerHour
    omega
  rw [levelAt_record, hhours, Nat.cast_zero, zero_mul, sub_zero]
  exact max_eq_left (le_min (add_nonneg (levelAt_nonneg r date) hp) zero_le_one)

/-- **A write dated after the last one.** -/
theorem lossless_late (hr : r.InRange) (hp : 0 ≤ amount) (hu : r.updatedAt ≤ date) (hnow : now ≤ u64Max) :
    (∀ t, now ≤ t → t ≤ u64Max → r.levelAt t ≤ (r.record amount date).levelAt t) ↔
      r.levelAt now ≤ r.levelAt date + amount := by
  constructor
  · intro hall
    have hat := hall now le_rfl hnow
    refine hat.trans ?_
    rw [levelAt_record]
    have hnn : (0 : ℚ) ≤ fullHours date now * abuseRecoveryPerHour :=
      mul_nonneg (Nat.cast_nonneg _) recovery_pos.le
    have hmin : min (r.levelAt date + amount) 1 ≤ r.levelAt date + amount := min_le_left _ _
    exact max_le (by linarith) (add_nonneg (levelAt_nonneg r date) hp)
  · intro hfold t ht _
    rcases Nat.le_total date t with hdt | hdt
    · exact record_later hr hp hu hdt
    · rw [record_future r hp hdt]
      exact le_min ((levelAt_antitone ht).trans hfold) ((levelAt_le_score hr t).trans hr.le_one)

/-- **A write dated before the last one.** -/
theorem lossless_early (hr : r.InRange) (hd : date < r.updatedAt) (hnow : now ≤ u64Max) :
    (∀ t, now ≤ t → t ≤ u64Max → r.levelAt t ≤ (r.record amount date).levelAt t) ↔
      r.levelAt now = 0 ∨
        ((fullHours date (lastMoment r.updatedAt now) : ℚ) - fullHours r.updatedAt (lastMoment r.updatedAt now)) *
          abuseRecoveryPerHour ≤ min amount (1 - r.score) := by
  have hu := hr.updatedAt
  have hgain : min (r.score + amount) 1 - r.score = min amount (1 - r.score) := by
    rcases le_total (r.score + amount) 1 with hle | hle
    · rw [min_eq_left hle, min_eq_left (by linarith)]
      ring
    · rw [min_eq_right hle, min_eq_right (by linarith)]
  have hlast : now ≤ lastMoment r.updatedAt now ∧ lastMoment r.updatedAt now ≤ u64Max ∧
      fullHours r.updatedAt (lastMoment r.updatedAt now) = fullHours r.updatedAt now := by
    unfold lastMoment fullHours secsPerHour at *
    omega
  constructor
  · intro hall
    rcases eq_or_lt_of_le (levelAt_nonneg r now) with hzero | hpos
    · exact .inl hzero.symm
    · right
      have hat := hall _ hlast.1 hlast.2.1
      have hleft : r.score - fullHours r.updatedAt (lastMoment r.updatedAt now) * abuseRecoveryPerHour ≤
          r.levelAt (lastMoment r.updatedAt now) := le_max_left _ _
      have hpos' : 0 < r.levelAt (lastMoment r.updatedAt now) := by
        rw [levelAt_eq, hlast.2.2, ← levelAt_eq]
        exact hpos
      rw [levelAt_record, levelAt_early hr hd] at hat
      have hmax := (lt_max_iff.mp (hpos'.trans_le hat)).resolve_right (lt_irrefl 0)
      rw [max_eq_left hmax.le] at hat
      rw [← hgain]
      linarith
  · rintro hcond t ht htmax
    rcases eq_or_lt_of_le (levelAt_nonneg r t) with hzero | hpos
    · rw [← hzero]
      exact levelAt_nonneg _ _
    · have hnowpos : r.levelAt now ≠ 0 := (hpos.trans_le (levelAt_antitone ht)).ne'
      have hcost := hcond.resolve_left hnowpos
      -- the date brings forward no more recovery later on than it does by the end of this hour
      have hhours : fullHours date t + fullHours r.updatedAt (lastMoment r.updatedAt now) ≤
          fullHours date (lastMoment r.updatedAt now) + fullHours r.updatedAt t := by
        unfold lastMoment fullHours secsPerHour at *
        omega
      have hhours' : (fullHours date t : ℚ) + fullHours r.updatedAt (lastMoment r.updatedAt now) ≤
          fullHours date (lastMoment r.updatedAt now) + fullHours r.updatedAt t := by exact_mod_cast hhours
      have hmul := mul_le_mul_of_nonneg_right hhours' recovery_pos.le
      rw [levelAt_eq, levelAt_record, levelAt_early hr hd]
      refine max_le_max ?_ le_rfl
      rw [← hgain] at hcost
      linarith

/-- **Exactly when a write loses nothing.** -/
theorem record_lossless_iff (hr : r.InRange) (hp : 0 ≤ amount) (hnow : now ≤ u64Max) :
    (∀ t, now ≤ t → t ≤ u64Max → r.levelAt t ≤ (r.record amount date).levelAt t) ↔ r.Lossless amount date now := by
  unfold Lossless
  by_cases hu : r.updatedAt ≤ date
  · rw [if_pos hu]
    exact lossless_late hr hp hu hnow
  · rw [if_neg hu]
    exact lossless_early hr (Nat.lt_of_not_le hu) hnow

end AbuseRecord

/-! ## Reachable states -/

/-- The times it brings are those of a `u64`. -/
def ReputationOp.InRange : ReputationOp → Prop
  | .recordViolation _ _ now | .foldAbuseDecay _ now => now ≤ u64Max
  | .applyRemoteAbuseReport report _ => report.timestamp ≤ u64Max
  | _ => True

namespace ReputationSystem

variable {r r' : ReputationSystem} {author : String}

/-- Every abuse record is one the code can hold. -/
def RecordsInRange (r : ReputationSystem) : Prop := ∀ author, (r.abuseRecord author).InRange

theorem default_inRange : AbuseRecord.default.InRange := ⟨le_rfl, zero_le_one, Nat.zero_le _⟩

theorem record_inRange (rec : AbuseRecord) {amount : ℚ} (hp : 0 ≤ amount) {date : Nat}
    (hd : date ≤ u64Max) : (rec.record amount date).InRange :=
  ⟨le_min (add_nonneg (AbuseRecord.levelAt_nonneg rec date) hp) zero_le_one, min_le_right _ _, hd⟩

theorem recordsInRange_congr (hr : r.RecordsInRange) (h : r'.abuse = r.abuse) : r'.RecordsInRange := by
  intro a
  rw [abuseRecord, h]
  exact hr a

theorem recordsInRange_insert (hr : r.RecordsInRange) {rec : AbuseRecord} (hrec : rec.InRange)
    (h : r'.abuse = r.abuse.insert author rec) : r'.RecordsInRange := by
  intro a
  rw [abuseRecord, h]
  by_cases ha : a = author
  · subst ha
    rw [StrMap.getD_insert_self]
    exact hrec
  · rw [StrMap.getD_insert_ne ha]
    exact hr a

/-- What an accepted report writes. -/
theorem applyRemoteAbuseReport_record {report : AbuseReport} {verified : Bool} {level : ℚ}
    (h : r.applyRemoteAbuseReport report verified = .ok (level, r')) :
    r'.abuse = r.abuse.insert report.offender
      ((r.abuseRecord report.offender).record penaltyRemoteReport report.timestamp) := by
  obtain ⟨-, -, h⟩ := applyRemoteAbuseReport_eq_ok.mp h
  cases h
  rfl

theorem penaltyRemoteReport_nonneg : 0 ≤ penaltyRemoteReport := by decide +kernel

/-- One call keeps the records in range. -/
theorem recordsInRange_apply (hr : r.RecordsInRange) {op : ReputationOp} (hop : op.InRange) :
    (op.apply r).RecordsInRange := by
  cases op with
  | bootstrap genesisPeers => exact recordsInRange_congr hr (bootstrap_abuse genesisPeers r)
  | setTrusted pubkey score => exact recordsInRange_congr hr rfl
  | endorse endorser endorsed timestamp =>
    simp only [ReputationOp.apply]
    cases he : r.endorse endorser endorsed timestamp with
    | error err => exact hr
    | ok p => exact recordsInRange_congr hr (endorse_abuse (q := p.1) he)
  | applyRemoteEndorsement endorsement verified =>
    simp only [ReputationOp.apply]
    cases verified with
    | false => exact hr
    | true =>
      rw [applyRemoteEndorsement_eq]
      cases he : r.endorse endorsement.endorser endorsement.endorsed endorsement.timestamp with
      | error err => exact hr
      | ok p => exact recordsInRange_congr hr (endorse_abuse (q := p.1) he)
  | recordActivity pubkey =>
    refine recordsInRange_congr hr ?_
    simp only [ReputationOp.apply, recordActivity]
    split <;> rfl
  | penalize pubkey amount => exact recordsInRange_congr hr rfl
  | recordViolation author reason now =>
    exact recordsInRange_insert hr (record_inRange _ reason.penalty_pos.le hop) rfl
  | foldAbuseDecay author now =>
    simp only [ReputationOp.apply, foldAbuseDecay]
    cases hl : r.abuse.lookup author with
    | none => exact hr
    | some rec =>
      have hrec : rec.InRange := by
        have := hr author
        rwa [abuseRecord, StrMap.getD_of_lookup hl] at this
      have hfold : (⟨rec.levelAt now, now⟩ : AbuseRecord).InRange :=
        ⟨AbuseRecord.levelAt_nonneg rec now, (AbuseRecord.levelAt_le_score hrec now).trans hrec.le_one, hop⟩
      exact recordsInRange_insert hr hfold rfl
  | applyRemoteAbuseReport report verified =>
    simp only [ReputationOp.apply]
    cases he : r.applyRemoteAbuseReport report verified with
    | error err => exact hr
    | ok p =>
      obtain ⟨level, r'⟩ := p
      exact recordsInRange_insert hr (record_inRange _ penaltyRemoteReport_nonneg hop)
        (applyRemoteAbuseReport_record he)

theorem recordsInRange_run (ops : List ReputationOp) (hops : ∀ op ∈ ops, op.InRange) :
    (ops.foldl ReputationOp.apply new).RecordsInRange := by
  induction ops using List.reverseRecOn with
  | nil => exact fun a => default_inRange
  | append_singleton ops op ih =>
    rw [List.foldl_append]
    exact recordsInRange_apply (ih fun op' hop' => hops op' (List.mem_append_left _ hop'))
      (hops op (List.mem_append_right _ List.mem_cons_self))

/-- A missing record counts as one without abuse. -/
theorem abuseLevel_eq (r : ReputationSystem) (author : String) (t : Nat) :
    r.abuseLevel author t = (r.abuseRecord author).levelAt t := by
  unfold abuseLevel abuseRecord
  cases hl : r.abuse.lookup author with
  | some rec => rw [StrMap.getD_of_lookup hl]; rfl
  | none =>
    rw [StrMap.getD_of_none hl]
    have hzero : AbuseRecord.default.levelAt t = 0 :=
      le_antisymm (AbuseRecord.levelAt_le_score default_inRange t) (AbuseRecord.levelAt_nonneg _ _)
    rw [hzero]
    rfl

/-- **A write to one record launders exactly when it is not lossless.** -/
theorem write_iff {offender : String} {amount : ℚ} {date now : Nat} (hr : r.RecordsInRange) (hp : 0 ≤ amount)
    (hnow : now ≤ u64Max) (h : r'.abuse = r.abuse.insert offender ((r.abuseRecord offender).record amount date)) :
    (∀ t, now ≤ t → t ≤ u64Max → r.abuseLevel author t ≤ r'.abuseLevel author t) ↔
      (author = offender → (r.abuseRecord author).Lossless amount date now) := by
  simp only [abuseLevel_eq]
  by_cases ha : author = offender
  · subst ha
    have hrec : r'.abuseRecord author = (r.abuseRecord author).record amount date := by
      rw [abuseRecord, h, StrMap.getD_insert_self]
    rw [hrec, AbuseRecord.record_lossless_iff (hr author) hp hnow]
    simp
  · have hrec : r'.abuseRecord author = r.abuseRecord author := by
      rw [abuseRecord, h, StrMap.getD_insert_ne ha]
      rfl
    rw [hrec]
    simp [ha]

end ReputationSystem

/-- **Which accusations launder.** In every state reached by any calls: an accepted report keeps every level from `now`
on exactly when its date is lossless for the offender's record, and a violation recorded at `now` exactly when `now`
is. -/
theorem laundering_iff (ops : List ReputationOp) (hops : ∀ op ∈ ops, op.InRange) (author : String) (now : Nat)
    (hnow : now ≤ u64Max) :
    let r := ops.foldl ReputationOp.apply .new
    (∀ report verified level r', r.applyRemoteAbuseReport report verified = .ok (level, r') →
      ((∀ t, now ≤ t → t ≤ u64Max → r.abuseLevel author t ≤ r'.abuseLevel author t) ↔
        (author = report.offender → (r.abuseRecord author).Lossless penaltyRemoteReport report.timestamp now))) ∧
    ∀ violator reason,
      ((∀ t, now ≤ t → t ≤ u64Max →
          r.abuseLevel author t ≤ (r.recordViolation violator reason now).abuseLevel author t) ↔
        (author = violator → (r.abuseRecord author).Lossless reason.penalty now now)) := by
  intro r
  have hr := ReputationSystem.recordsInRange_run ops hops
  refine ⟨fun report verified level r' hok => ?_, fun violator reason => ?_⟩
  · exact ReputationSystem.write_iff hr ReputationSystem.penaltyRemoteReport_nonneg hnow
      (ReputationSystem.applyRemoteAbuseReport_record hok)
  · exact ReputationSystem.write_iff hr reason.penalty_pos.le hnow rfl

/-- A trusted reporter, and an author three times over its rate. -/
def accused : List ReputationOp :=
  [.bootstrap ["reporter"], .recordViolation "author" .excessiveRate 1700000000,
    .recordViolation "author" .excessiveRate 1700000000, .recordViolation "author" .excessiveRate 1700000000]

/-- **A report dated long ago erases the abuse**: an ignored author is accepted again. -/
theorem report_launders :
    let r := accused.foldl ReputationOp.apply .new
    ∃ level r', r.applyRemoteAbuseReport ⟨"reporter", "author", 1, 0⟩ true = .ok (level, r') ∧
      r.actionFor "author" 1700000000 = .ignore ∧ r'.actionFor "author" 1700000000 = .accept ∧
      r'.abuseLevel "author" 1700000000 < r.abuseLevel "author" 1700000000 := by
  intro r
  have hreportable : r.Reportable ⟨"reporter", "author", 1, 0⟩ := by decide +kernel
  obtain ⟨⟨level, r'⟩, hok⟩ := ReputationSystem.applyRemoteAbuseReport_ok.mpr hreportable
  have hlevel : r'.abuseLevel "author" 1700000000 =
      ((r.abuseRecord "author").record penaltyRemoteReport 0).levelAt 1700000000 := by
    rw [ReputationSystem.abuseLevel_eq, ReputationSystem.abuseRecord,
      ReputationSystem.applyRemoteAbuseReport_record hok, StrMap.getD_insert_self]
  refine ⟨level, r', hok, by decide +kernel, ?_, ?_⟩
  · rw [ReputationSystem.actionFor, hlevel]
    decide +kernel
  · rw [hlevel]
    decide +kernel

theorem laundering_report_now :
    ∃ level r', (accused.foldl ReputationOp.apply .new).applyRemoteAbuseReport
        ⟨"reporter", "author", 1, 1700000000⟩ true = .ok (level, r') ∧
      (accused.foldl ReputationOp.apply .new).abuseLevel "author" 1700003600 ≤ r'.abuseLevel "author" 1700003600 := by
  have hops : ∀ op ∈ accused, op.InRange := by
    intro op hop
    simp only [accused, List.mem_cons, List.not_mem_nil, or_false] at hop
    rcases hop with rfl | rfl | rfl | rfl <;> simp [ReputationOp.InRange, u64Max]
  have hreportable : (accused.foldl ReputationOp.apply .new).Reportable ⟨"reporter", "author", 1, 1700000000⟩ := by
    decide +kernel
  obtain ⟨⟨level, r'⟩, hok⟩ := ReputationSystem.applyRemoteAbuseReport_ok.mpr hreportable
  refine ⟨level, r', hok, ?_⟩
  exact ((laundering_iff accused hops "author" 1700000000 (by decide)).1 _ true level r' hok).mpr
    (fun _ => by decide +kernel) 1700003600 (by decide) (by decide)

end Onde.Reputation
