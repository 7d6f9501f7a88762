import Onde.Lib.IeeeOrder
import Onde.Reputation.System

/-!
# The web of trust in doubles

The scores of the source are doubles, and their sums are rounded. Here the calls that change scores are written once for
every arithmetic.

* `Scoring`: the arithmetics; `Float` is one, and so are the exact numbers (`Exact`);
* `WebOfTrust`: scores, endorsements and activity, with the calls `TrustCall`;
* `Mirrors.apply`: in exact numbers, the calls are those of `ReputationSystem` while no count overflows;
* `endorse_eq_ok`, `recordActivity_score`, `penalize_score`, `bootstrap_score`: what a call does, in any arithmetic.
-/

namespace Onde.Reputation

open Onde.Lib IeeeOrder

/-- An arithmetic for scores, where the constants compare as they should. -/
class Scoring (S : Type) extends IeeeOrder S, Add S, Sub S, Mul S, OfScientific S where
  zero_lt_trusted : (0.0 : S) < 0.7
  trusted_le_genesis : (0.7 : S) ≤ 0.8
  genesis_le_one : (0.8 : S) ≤ 1.0

instance : Scoring Float where
  zero_lt_trusted := by decide +kernel
  trusted_le_genesis := by decide +kernel
  genesis_le_one := by decide +kernel

/-- Scores, endorsements and activity, by public key. -/
structure WebOfTrust (S : Type) where
  scores : StrMap S
  endorsements : StrMap (List Endorsement)
  activity : StrMap UInt64

/-- Why an endorsement is refused. -/
inductive Refusal (S : Type) where
  | unverified
  | itself
  | notTrusted (endorser : String) (score : S)
  | duplicate

namespace WebOfTrust

variable {S : Type} [Scoring S]

def trustedThreshold : S := 0.7
def endorsementThreshold : S := 0.7
def endorsementDecay : S := 0.5
def genesisTrust : S := 0.8
def unknownTrust : S := 0.0

def new : WebOfTrust S := ⟨∅, ∅, ∅⟩

def setTrusted (r : WebOfTrust S) (pubkey : String) (score : S) : WebOfTrust S :=
  { r with scores := r.scores.insert pubkey (fclamp score 0.0 1.0) }

def bootstrap (r : WebOfTrust S) (genesisPeers : List String) : WebOfTrust S :=
  genesisPeers.foldl (fun r peer => r.setTrusted peer genesisTrust) r

def score (r : WebOfTrust S) (pubkey : String) : S := r.scores.getD pubkey unknownTrust

def isTrusted (r : WebOfTrust S) (pubkey : String) : Bool := trustedThreshold ≤ r.score pubkey

/-- The endorsements of a node by endorsers that are trusted now. -/
def endorsementCount (r : WebOfTrust S) (pubkey : String) : Nat :=
  ((r.endorsements.getD pubkey []).filter fun e => endorsementThreshold ≤ r.scores.getD e.endorser 0.0).length

/-- Record an endorsement; enough of them promote the endorsed node. -/
def endorse (r : WebOfTrust S) (endorser endorsed : String) (timestamp : Nat) :
    Except (Refusal S) (S × WebOfTrust S) :=
  if endorser = endorsed then .error .itself
  else if r.score endorser < endorsementThreshold then .error (.notTrusted endorser (r.score endorser))
  else
    let list := r.endorsements.getD endorsed []
    if list.any fun e => e.endorser = endorser then .error .duplicate
    else
      let endorsements := r.endorsements.insert endorsed (list ++ [⟨endorser, endorsed, timestamp⟩])
      let newScore := fmax (r.score endorsed) (r.score endorser * endorsementDecay)
      let r₁ := { r with endorsements, scores := r.scores.insert endorsed newScore }
      let r₂ := if requiredEndorsements ≤ r₁.endorsementCount endorsed ∧ newScore < trustedThreshold then
        { r₁ with scores := r₁.scores.insert endorsed trustedThreshold } else r₁
      .ok (r₂.score endorsed, r₂)

/-- Apply an endorsement received from the network. -/
def applyRemoteEndorsement (r : WebOfTrust S) (endorsement : Endorsement) (endorserSigVerified : Bool) :
    Except (Refusal S) (WebOfTrust S) :=
  if !endorserSigVerified then .error .unverified
  else Prod.snd <$> r.endorse endorsement.endorser endorsement.endorsed endorsement.timestamp

/-- A message received: a small bonus from the tenth on, up to the threshold of trust. -/
def recordActivity (r : WebOfTrust S) (pubkey : String) : WebOfTrust S :=
  let n := r.activity.getD pubkey 0 + 1
  let r := { r with activity := r.activity.insert pubkey n }
  if 10 ≤ n ∧ r.score pubkey < trustedThreshold then
    { r with scores := r.scores.insert pubkey (fmin (r.score pubkey + 0.02) trustedThreshold) }
  else r

def penalize (r : WebOfTrust S) (pubkey : String) (amount : S) : WebOfTrust S :=
  { r with scores := r.scores.insert pubkey (fmax (r.score pubkey - amount) 0.0) }

end WebOfTrust

/-- The calls that change scores from within. -/
inductive TrustCall (S : Type) where
  | bootstrap (genesisPeers : List String)
  | endorse (endorser endorsed : String) (timestamp : Nat)
  | applyRemoteEndorsement (endorsement : Endorsement) (verified : Bool)
  | recordActivity (pubkey : String)
  | penalize (pubkey : String) (amount : S)

/-- What a call does; a refused one changes nothing. -/
def TrustCall.apply {S : Type} [Scoring S] (r : WebOfTrust S) : TrustCall S → WebOfTrust S
  | .bootstrap genesisPeers => r.bootstrap genesisPeers
  | .endorse endorser endorsed timestamp => match r.endorse endorser endorsed timestamp with
    | .ok p => p.2
    | .error _ => r
  | .applyRemoteEndorsement endorsement verified => match r.applyRemoteEndorsement endorsement verified with
    | .ok r' => r'
    | .error _ => r
  | .recordActivity pubkey => r.recordActivity pubkey
  | .penalize pubkey amount => r.penalize pubkey amount

/-! ## What a call does -/

/-- A verified remote endorsement is an endorsement. -/
theorem TrustCall.apply_remote {S : Type} [Scoring S] (r : WebOfTrust S) (endorsement : Endorsement) :
    TrustCall.apply r (.applyRemoteEndorsement endorsement true) =
      TrustCall.apply r (.endorse endorsement.endorser endorsement.endorsed endorsement.timestamp) := by
  have hremote : r.applyRemoteEndorsement endorsement true =
      Prod.snd <$> r.endorse endorsement.endorser endorsement.endorsed endorsement.timestamp := rfl
  simp only [apply, hremote]
  cases r.endorse endorsement.endorser endorsement.endorsed endorsement.timestamp <;> rfl

namespace WebOfTrust

variable {S : Type} [Scoring S] {r r' : WebOfTrust S} {a e : String}

/-- The endorsement is by another node that is trusted and has not endorsed this one yet. -/
def Endorsable (r : WebOfTrust S) (endorser endorsed : String) : Prop :=
  endorser ≠ endorsed ∧ ¬r.score endorser < endorsementThreshold ∧
    ∀ e ∈ r.endorsements.getD endorsed [], e.endorser ≠ endorser

/-- The endorsement is entered, and its node gets half the score of its endorser. -/
def entered (r : WebOfTrust S) (endorser endorsed : String) (timestamp : Nat) : WebOfTrust S :=
  { r with
    endorsements := r.endorsements.insert endorsed
      (r.endorsements.getD endorsed [] ++ [⟨endorser, endorsed, timestamp⟩])
    scores := r.scores.insert endorsed (fmax (r.score endorsed) (r.score endorser * endorsementDecay)) }

/-- The web after an accepted endorsement: the node is trusted once it has enough of them. -/
def endorsedBy (r : WebOfTrust S) (endorser endorsed : String) (timestamp : Nat) : WebOfTrust S :=
  if requiredEndorsements ≤ (r.entered endorser endorsed timestamp).endorsementCount endorsed ∧
      fmax (r.score endorsed) (r.score endorser * endorsementDecay) < trustedThreshold then
    { r.entered endorser endorsed timestamp with
      scores := (r.entered endorser endorsed timestamp).scores.insert endorsed trustedThreshold }
  else r.entered endorser endorsed timestamp

/-- **What `endorse` does**: the checks of `Endorsable`, then `endorsedBy`. -/
theorem endorse_eq_ok {timestamp : Nat} {p : S × WebOfTrust S} : r.endorse e a timestamp = .ok p ↔
    r.Endorsable e a ∧ ((r.endorsedBy e a timestamp).score a, r.endorsedBy e a timestamp) = p := by
  unfold endorse Endorsable
  dsimp only
  rw [check_eq_ok, check_eq_ok, check_eq_ok, ReputationSystem.not_any_endorser, and_assoc, and_assoc, Except.ok.injEq]
  rfl

theorem score_insert (r : WebOfTrust S) (a b : String) (q : S) :
    ({ r with scores := r.scores.insert a q } : WebOfTrust S).score b = if b = a then q else r.score b := by
  unfold score
  by_cases hb : b = a
  · subst hb
    rw [if_pos rfl]
    exact StrMap.getD_insert_self
  · rw [if_neg hb]
    exact StrMap.getD_insert_ne hb

/-- The score after a message received. -/
theorem recordActivity_score (r : WebOfTrust S) (a b : String) : (r.recordActivity a).score b =
    if b = a ∧ 10 ≤ r.activity.getD a 0 + 1 ∧ r.score a < trustedThreshold then
      fmin (r.score a + 0.02) trustedThreshold else r.score b := by
  unfold recordActivity
  dsimp only
  by_cases hbonus : 10 ≤ r.activity.getD a 0 + 1 ∧ r.score a < trustedThreshold
  · have hscore := r.score_insert a b (fmin (r.score a + 0.02) trustedThreshold)
    rw [if_pos (by exact hbonus)]
    refine Eq.trans (by exact hscore) ?_
    by_cases hb : b = a
    · rw [if_pos hb, if_pos ⟨hb, hbonus⟩]
    · rw [if_neg hb, if_neg fun h => hb h.1]
  · rw [if_neg (by exact hbonus), if_neg fun h => hbonus h.2]
    rfl

theorem penalize_score (r : WebOfTrust S) (a : String) (amount : S) (b : String) :
    (r.penalize a amount).score b = if b = a then fmax (r.score a - amount) 0.0 else r.score b :=
  r.score_insert a b _

theorem fclamp_genesis : fclamp (genesisTrust : S) 0.0 1.0 = genesisTrust :=
  fclamp_eq (IeeeOrder.trans (IeeeOrder.le_of_lt Scoring.zero_lt_trusted) Scoring.trusted_le_genesis)
    Scoring.genesis_le_one

theorem bootstrap_score : ∀ (genesisPeers : List String) (r : WebOfTrust S) (a : String),
    (r.bootstrap genesisPeers).score a = if a ∈ genesisPeers then genesisTrust else r.score a
  | [], _, _ => rfl
  | peer :: peers, r, a => by
    have hset : (r.setTrusted peer genesisTrust).score a = if a = peer then genesisTrust else r.score a := by
      have hscore := r.score_insert peer a (fclamp genesisTrust 0.0 1.0)
      rw [fclamp_genesis] at hscore
      rw [setTrusted, fclamp_genesis]
      exact hscore
    have ih := bootstrap_score peers (r.setTrusted peer genesisTrust) a
    rw [bootstrap, List.foldl_cons]
    rw [bootstrap] at ih
    rw [ih, hset]
    by_cases hp : a ∈ peers <;> by_cases ha : a = peer <;> simp [hp, ha]

theorem bootstrap_endorsements : ∀ (genesisPeers : List String) (r : WebOfTrust S),
    (r.bootstrap genesisPeers).endorsements = r.endorsements
  | [], _ => rfl
  | peer :: peers, r => bootstrap_endorsements peers (r.setTrusted peer genesisTrust)

end WebOfTrust

/-! ## Exact numbers -/

/-- An exact number. -/
structure Exact where
  val : ℚ

namespace Exact

instance : Scoring Exact where
  le a b := a.val ≤ b.val
  lt a b := a.val < b.val
  isNaN _ := false
  decLe a b := inferInstanceAs (Decidable (a.val ≤ b.val))
  decLt a b := inferInstanceAs (Decidable (a.val < b.val))
  numbers _ := ⟨rfl, rfl⟩
  total _ _ := le_total _ _
  trans hab hbc := hab.trans hbc
  lt_iff := ⟨fun h => ⟨rfl, rfl, not_le.mpr h⟩, fun h => not_le.mp h.2.2⟩
  add a b := ⟨a.val + b.val⟩
  sub a b := ⟨a.val - b.val⟩
  mul a b := ⟨a.val * b.val⟩
  ofScientific m s e := ⟨OfScientific.ofScientific m s e⟩
  zero_lt_trusted := by
    show (0.0 : ℚ) < 0.7
    norm_num
  trusted_le_genesis := by
    show (0.7 : ℚ) ≤ 0.8
    norm_num
  genesis_le_one := by
    show (0.8 : ℚ) ≤ 1.0
    norm_num

theorem val_fmax (a b : Exact) : (fmax a b).val = max a.val b.val := by
  show (if a.val < b.val then b else a).val = _
  rw [max_def_lt]
  split <;> rfl

theorem val_fmin (a b : Exact) : (fmin a b).val = min a.val b.val := by
  show (if b.val < a.val then b else a).val = _
  rw [min_comm, min_def_lt]
  split <;> rfl

theorem val_trusted : (WebOfTrust.trustedThreshold : Exact).val = trustedThreshold := by
  show (0.7 : ℚ) = 7 / 10
  norm_num

theorem val_endorsement : (WebOfTrust.endorsementThreshold : Exact).val = endorsementThreshold := val_trusted

theorem val_decay : (WebOfTrust.endorsementDecay : Exact).val = endorsementDecay := by
  show (0.5 : ℚ) = 1 / 2
  norm_num

theorem val_genesis : (WebOfTrust.genesisTrust : Exact).val = genesisTrust := by
  show (0.8 : ℚ) = 8 / 10
  norm_num

theorem val_unknown : (WebOfTrust.unknownTrust : Exact).val = unknownTrust := by
  show (0.0 : ℚ) = 0
  norm_num

theorem val_bonus : (0.02 : Exact).val = 2 / 100 := by
  show (0.02 : ℚ) = 2 / 100
  norm_num

end Exact

/-- A system and a web of trust in exact numbers that agree. -/
structure Mirrors (r : ReputationSystem) (w : WebOfTrust Exact) : Prop where
  score : ∀ a, (w.score a).val = r.score a
  endorsements : w.endorsements = r.endorsements
  activity : ∀ a, (w.activity.getD a 0).toNat = r.activity.getD a 0

namespace Mirrors

variable {r : ReputationSystem} {w : WebOfTrust Exact}

theorem new : Mirrors .new .new := ⟨fun _ => Exact.val_unknown, rfl, fun _ => rfl⟩

/-- The same branch on both sides. -/
theorem ite {p q : Prop} [Decidable p] [Decidable q] {r₁ r₂ : ReputationSystem} {w₁ w₂ : WebOfTrust Exact}
    (hpq : q ↔ p) (h₁ : Mirrors r₁ w₁) (h₂ : Mirrors r₂ w₂) :
    Mirrors (if p then r₁ else r₂) (if q then w₁ else w₂) := by
  by_cases hp : p
  · rwa [if_pos hp, if_pos (hpq.mpr hp)]
  · rwa [if_neg hp, if_neg fun hq => hp (hpq.mp hq)]

/-- Setting a score to the same number on both sides. -/
theorem insert (h : Mirrors r w) (a : String) {x : Exact} {q : ℚ} (hx : x.val = q) :
    Mirrors { r with scores := r.scores.insert a q } { w with scores := w.scores.insert a x } := by
  refine ⟨fun b => ?_, h.endorsements, h.activity⟩
  rw [w.score_insert a b x, r.score_insert a b q]
  split
  · exact hx
  · exact h.score b

theorem bootstrap : ∀ (genesisPeers : List String) {r : ReputationSystem} {w : WebOfTrust Exact}, Mirrors r w →
    Mirrors (r.bootstrap genesisPeers) (w.bootstrap genesisPeers)
  | [], _, _, h => h
  | peer :: peers, r, w, h => by
    refine bootstrap peers (h.insert peer ?_)
    rw [WebOfTrust.fclamp_genesis, Exact.val_genesis]
    decide +kernel

theorem endorsable {e a : String} (h : Mirrors r w) : w.Endorsable e a ↔ r.Endorsable e a := by
  have hlt : ¬w.score e < WebOfTrust.endorsementThreshold ↔ endorsementThreshold ≤ r.score e := by
    rw [← h.score, ← Exact.val_endorsement]
    exact @not_lt ℚ _ _ _
  unfold WebOfTrust.Endorsable ReputationSystem.Endorsable
  rw [hlt, h.endorsements]

/-- The gain of an endorsement is the same. -/
theorem gain (h : Mirrors r w) (e a : String) : (fmax (w.score a) (w.score e * WebOfTrust.endorsementDecay)).val =
    max (r.score a) (r.score e * endorsementDecay) := by
  rw [Exact.val_fmax, h.score, ← h.score e, ← Exact.val_decay]
  rfl

theorem entered (h : Mirrors r w) (e a : String) (timestamp : Nat) :
    Mirrors (r.entered e a timestamp) (w.entered e a timestamp) := by
  have hgain := h.insert a (h.gain e a)
  refine ⟨hgain.score, ?_, h.activity⟩
  show w.endorsements.insert a _ = r.endorsements.insert a _
  rw [h.endorsements]

theorem endorsementCount (h : Mirrors r w) (a : String) : w.endorsementCount a = r.endorsementCount a := by
  unfold WebOfTrust.endorsementCount ReputationSystem.endorsementCount
  rw [h.endorsements]
  congr 2
  funext e
  refine decide_eq_decide.mpr ?_
  show (WebOfTrust.endorsementThreshold : Exact).val ≤ (w.score e.endorser).val ↔ _ ≤ r.score e.endorser
  rw [h.score, Exact.val_endorsement]

theorem endorsedBy (h : Mirrors r w) (e a : String) (timestamp : Nat) :
    Mirrors (r.endorsedBy e a timestamp) (w.endorsedBy e a timestamp) := by
  have hentered := h.entered e a timestamp
  have hpromoted : fmax (w.score a) (w.score e * WebOfTrust.endorsementDecay) < WebOfTrust.trustedThreshold ↔
      max (r.score a) (r.score e * endorsementDecay) < trustedThreshold := by
    rw [← h.gain, ← Exact.val_trusted]
    rfl
  refine ite ?_ (hentered.insert a Exact.val_trusted) hentered
  rw [hentered.endorsementCount, hpromoted]

theorem recordActivity (h : Mirrors r w) {a : String} (hcount : r.activity.getD a 0 + 1 < 2 ^ 64) :
    Mirrors (r.recordActivity a) (w.recordActivity a) := by
  have hlow : w.score a < WebOfTrust.trustedThreshold ↔ r.score a < trustedThreshold := by
    rw [← h.score, ← Exact.val_trusted]
    rfl
  have hnext : (w.activity.getD a 0 + 1).toNat = r.activity.getD a 0 + 1 := by
    rw [UInt64.toNat_add, h.activity]
    exact Nat.mod_eq_of_lt hcount
  have hcounted : Mirrors { r with activity := r.activity.insert a (r.activity.getD a 0 + 1) }
      { w with activity := w.activity.insert a (w.activity.getD a 0 + 1) } := by
    refine ⟨h.score, h.endorsements, fun b => ?_⟩
    by_cases hb : b = a
    · subst hb
      exact (congrArg UInt64.toNat StrMap.getD_insert_self).trans (hnext.trans StrMap.getD_insert_self.symm)
    · exact (congrArg UInt64.toNat (StrMap.getD_insert_ne hb)).trans
        ((h.activity b).trans (StrMap.getD_insert_ne hb).symm)
  have hbonus : (fmin (w.score a + 0.02) WebOfTrust.trustedThreshold).val =
      min (r.score a + 2 / 100) trustedThreshold := by
    rw [Exact.val_fmin, Exact.val_trusted, ← h.score, ← Exact.val_bonus]
    rfl
  refine ite ?_ (hcounted.insert a hbonus) hcounted
  rw [UInt64.le_iff_toNat_le, hnext]
  exact and_congr_right fun _ => hlow

theorem penalize (h : Mirrors r w) (a : String) (amount : Exact) :
    Mirrors (r.penalize a amount.val) (w.penalize a amount) := by
  refine h.insert a ?_
  rw [Exact.val_fmax, ← h.score]
  exact congrArg _ Exact.val_unknown

end Mirrors

/-- The same call on a system. -/
def TrustCall.exact : TrustCall Exact → ReputationOp
  | .bootstrap genesisPeers => .bootstrap genesisPeers
  | .endorse endorser endorsed timestamp => .endorse endorser endorsed timestamp
  | .applyRemoteEndorsement endorsement verified => .applyRemoteEndorsement endorsement verified
  | .recordActivity pubkey => .recordActivity pubkey
  | .penalize pubkey amount => .penalize pubkey amount.val

/-- **In exact numbers, the calls are those of a reputation system**, as long as no count of messages overflows. -/
theorem Mirrors.apply {r : ReputationSystem} {w : WebOfTrust Exact} (h : Mirrors r w)
    (hcount : ∀ a, r.activity.getD a 0 + 1 < 2 ^ 64) (call : TrustCall Exact) :
    Mirrors (call.exact.apply r) (call.apply w) := by
  have hendorse : ∀ e a timestamp, Mirrors (ReputationOp.apply r (.endorse e a timestamp))
      (TrustCall.apply w (.endorse e a timestamp)) := by
    intro e a timestamp
    have hboth : (∃ p, w.endorse e a timestamp = .ok p) ↔ ∃ p, r.endorse e a timestamp = .ok p := by
      rw [ReputationSystem.endorse_ok, ← h.endorsable]
      exact ⟨fun ⟨_, hp⟩ => (WebOfTrust.endorse_eq_ok.mp hp).1, fun hw => ⟨_, WebOfTrust.endorse_eq_ok.mpr ⟨hw, rfl⟩⟩⟩
    simp only [ReputationOp.apply, TrustCall.apply]
    cases hr : r.endorse e a timestamp with
    | ok p =>
      obtain ⟨p', hw⟩ := hboth.mpr ⟨p, hr⟩
      rw [hw]
      obtain ⟨-, rfl⟩ := ReputationSystem.endorse_eq_ok.mp hr
      obtain ⟨-, rfl⟩ := WebOfTrust.endorse_eq_ok.mp hw
      exact h.endorsedBy e a timestamp
    | error err =>
      cases hw : w.endorse e a timestamp with
      | ok p' =>
        obtain ⟨p, hp⟩ := hboth.mp ⟨p', hw⟩
        rw [hr] at hp
        cases hp
      | error refusal => exact h
  cases call with
  | bootstrap genesisPeers => exact h.bootstrap genesisPeers
  | endorse endorser endorsed timestamp => exact hendorse endorser endorsed timestamp
  | applyRemoteEndorsement endorsement verified =>
    cases verified with
    | false => exact h
    | true =>
      rw [TrustCall.apply_remote]
      refine Eq.mpr (congrArg (Mirrors · _) ?_)
        (hendorse endorsement.endorser endorsement.endorsed endorsement.timestamp)
      simp only [TrustCall.exact, ReputationOp.apply, ReputationSystem.applyRemoteEndorsement_eq]
      cases r.endorse endorsement.endorser endorsement.endorsed endorsement.timestamp <;> rfl
  | recordActivity pubkey => exact h.recordActivity (hcount pubkey)
  | penalize pubkey amount => exact h.penalize pubkey amount

end Onde.Reputation
