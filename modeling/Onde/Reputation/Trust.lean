import Mathlib.Tactic.Linarith
import Mathlib.Tactic.NormNum
import Onde.Reputation.System

/-!
# Who is trusted

Runs of `bootstrap`, `endorse` and `applyRemoteEndorsement` from an empty system.

* `Accepted`: an endorsement that was accepted, by an endorser that was trusted then;
* `Web`: what every run keeps (`Web.endorse`, `Web.bootstrap`, `web_run`);
* `trust_closure`: a node is trusted exactly when it is a founder or enough others, each trusted then, endorsed it;
  hence exactly when its trust derives from the founders (`Justified`).
-/

namespace Onde.Reputation

open Onde.Lib

/-- The calls of the web of trust. -/
def ReputationOp.OfTrust : ReputationOp → Prop
  | .bootstrap _ | .endorse .. | .applyRemoteEndorsement .. => True
  | _ => False

/-- The call is an endorsement of `a` by `e` that succeeds. -/
def ReputationOp.Endorses (r : ReputationSystem) (e a : String) : ReputationOp → Prop
  | .endorse endorser endorsed timestamp =>
    endorser = e ∧ endorsed = a ∧ ∃ p, r.endorse endorser endorsed timestamp = .ok p
  | .applyRemoteEndorsement endorsement verified =>
    endorsement.endorser = e ∧ endorsement.endorsed = a ∧ ∃ r', r.applyRemoteEndorsement endorsement verified = .ok r'
  | _ => False

/-- The founders a call names. -/
def ReputationOp.founders : ReputationOp → List String
  | .bootstrap genesisPeers => genesisPeers
  | _ => []

/-- The system after a run. -/
def runOps (ops : List ReputationOp) : ReputationSystem := ops.foldl ReputationOp.apply .new

/-- The bootstrapped nodes. -/
def genesis (ops : List ReputationOp) : List String := ops.flatMap ReputationOp.founders

/-- An endorsement was accepted, and its endorser was trusted then. -/
def Accepted (ops : List ReputationOp) (e a : String) : Prop :=
  ∃ past op rest, ops = past ++ op :: rest ∧ op.Endorses (runOps past) e a ∧ (runOps past).isTrusted e = true

/-- Trust that derives from the founders. -/
inductive Justified (ops : List ReputationOp) : String → Prop
  | genesis {a : String} (h : a ∈ genesis ops) : Justified ops a
  | endorsed {a : String} (endorsers : Finset String) (hmany : requiredEndorsements ≤ endorsers.card)
    (hacc : ∀ e ∈ endorsers, e ≠ a ∧ Accepted ops e a) (hj : ∀ e ∈ endorsers, Justified ops e) : Justified ops a

/-! ## One call -/

namespace ReputationSystem

variable {r r' : ReputationSystem} {a : String}

/-- Who has endorsed a node. -/
def endorsers (r : ReputationSystem) (a : String) : List String :=
  (r.endorsements.getD a []).map Endorsement.endorser

theorem isTrusted_iff : r.isTrusted a = true ↔ trustedThreshold ≤ r.score a := decide_eq_true_iff

/-- An accepted endorsement is entered for its node, whose score alone changes. -/
theorem endorse_frame {e : String} {timestamp : Nat} {q : ℚ} (h : r.endorse e a timestamp = .ok (q, r')) :
    (∀ b, r'.endorsements.getD b [] =
      if b = a then r.endorsements.getD a [] ++ [⟨e, a, timestamp⟩] else r.endorsements.getD b []) ∧
    ∀ b, b ≠ a → r'.score b = r.score b := by
  refine ⟨fun b => ?_, fun b hb => ?_⟩
  · have hlist : (r.entered e a timestamp).endorsements.getD b [] =
        if b = a then r.endorsements.getD a [] ++ [⟨e, a, timestamp⟩] else r.endorsements.getD b [] := by
      unfold entered
      by_cases hb : b = a
      · subst hb
        rw [if_pos rfl, StrMap.getD_insert_self]
      · rw [if_neg hb, StrMap.getD_insert_ne hb]
    obtain ⟨-, h⟩ := endorse_eq_ok.mp h
    cases h
    unfold endorsedBy
    split <;> exact hlist
  · rw [score, score, StrMap.getD, StrMap.getD, (endorse_scores h).2 b hb]

theorem endorsers_endorse {e : String} {timestamp : Nat} {q : ℚ} (h : r.endorse e a timestamp = .ok (q, r'))
    (b : String) : r'.endorsers b = if b = a then r.endorsers a ++ [e] else r.endorsers b := by
  rw [endorsers, (endorse_frame h).1]
  split
  · rw [List.map_append]
    rfl
  · rfl

/-- **What an accepted endorsement does**, when every earlier endorser of the node is still trusted: one more endorser,
half its score at least, and the threshold at the last one required. -/
theorem endorse_spec {e : String} {timestamp : Nat} {q : ℚ} (h : r.endorse e a timestamp = .ok (q, r'))
    (hlive : ∀ x ∈ r.endorsers a, endorsementThreshold ≤ r.score x) (hself : a ∉ r.endorsers a) :
    (∀ b, r'.endorsers b = if b = a then r.endorsers a ++ [e] else r.endorsers b) ∧
    (∀ b, b ≠ a → r'.score b = r.score b) ∧
    r'.score a = if requiredEndorsements ≤ (r.endorsers a).length + 1 ∧
        max (r.score a) (r.score e * endorsementDecay) < trustedThreshold then trustedThreshold
      else max (r.score a) (r.score e * endorsementDecay) := by
  refine ⟨endorsers_endorse h, (endorse_frame h).2, ?_⟩
  obtain ⟨hable, h⟩ := endorse_eq_ok.mp h
  have hea : e ≠ a := hable.1
  -- all the endorsers of the node count
  have hcount : (r.entered e a timestamp).endorsementCount a = (r.endorsers a).length + 1 := by
    unfold endorsementCount entered
    dsimp only
    rw [StrMap.getD_insert_self, List.filter_eq_self.mpr, List.length_append, endorsers, List.length_map]
    · rfl
    · intro x hx
      rw [decide_eq_true_iff]
      rcases List.mem_append.mp hx with hx | hx
      · have hmem : x.endorser ∈ r.endorsers a := List.mem_map_of_mem hx
        have hne : x.endorser ≠ a := fun heq => hself (heq ▸ hmem)
        rw [StrMap.getD_insert_ne hne]
        exact hlive _ hmem
      · rw [List.mem_singleton.mp hx, StrMap.getD_insert_ne hea]
        exact hable.2.1
  cases h
  unfold endorsedBy
  rw [hcount]
  split
  · exact StrMap.getD_insert_self
  · exact StrMap.getD_insert_self

end ReputationSystem

/-- What a call of the web of trust does: it names founders, or endorses, or is refused. -/
theorem ReputationOp.apply_cases {op : ReputationOp} (hop : op.OfTrust) (r : ReputationSystem) :
    (∃ peers, op = .bootstrap peers) ∨
    (∃ e a timestamp q r', r.endorse e a timestamp = .ok (q, r') ∧ op.apply r = r' ∧ op.founders = [] ∧
      ∀ e' a', op.Endorses r e' a' ↔ e' = e ∧ a' = a) ∨
    (op.apply r = r ∧ op.founders = [] ∧ ∀ e a, ¬op.Endorses r e a) := by
  cases op with
  | bootstrap peers => exact .inl ⟨peers, rfl⟩
  | endorse e a timestamp =>
    right
    cases h : r.endorse e a timestamp with
    | ok p => exact .inl ⟨e, a, timestamp, p.1, p.2, h, by simp [apply, h], rfl, by simp [Endorses, h, eq_comm]⟩
    | error err => exact .inr ⟨by simp [apply, h], rfl, by simp [Endorses, h]⟩
  | applyRemoteEndorsement endorsement verified =>
    right
    cases verified with
    | false =>
      have hno : r.applyRemoteEndorsement endorsement false =
          .error "Endorsement signature could not be verified" := rfl
      exact .inr ⟨by simp [apply, hno], rfl, by simp [Endorses, hno]⟩
    | true =>
      cases h : r.endorse endorsement.endorser endorsement.endorsed endorsement.timestamp with
      | ok p =>
        have hyes : r.applyRemoteEndorsement endorsement true = .ok p.2 := by
          rw [ReputationSystem.applyRemoteEndorsement_eq, h]
          rfl
        exact .inl ⟨_, _, _, p.1, p.2, h, by simp [apply, hyes], rfl, by simp [Endorses, hyes, eq_comm]⟩
      | error err =>
        have hno : r.applyRemoteEndorsement endorsement true = .error err := by
          rw [ReputationSystem.applyRemoteEndorsement_eq, h]
          rfl
        exact .inr ⟨by simp [apply, hno], rfl, by simp [Endorses, hno]⟩
  | _ => exact absurd hop (by simp [OfTrust])

/-! ## Runs -/

variable {ops : List ReputationOp} {op : ReputationOp} {a e : String}

theorem runOps_snoc : runOps (ops ++ [op]) = op.apply (runOps ops) := by simp [runOps]

theorem genesis_snoc : genesis (ops ++ [op]) = genesis ops ++ op.founders := by simp [genesis]

theorem accepted_snoc : Accepted (ops ++ [op]) e a ↔
    Accepted ops e a ∨ op.Endorses (runOps ops) e a ∧ (runOps ops).isTrusted e = true := by
  constructor
  · rintro ⟨past, op', rest, heq, hacc⟩
    rcases List.eq_nil_or_concat rest with rfl | ⟨rest, last, rfl⟩
    · obtain ⟨rfl, hop⟩ := List.append_inj' heq rfl
      cases hop
      exact .inr hacc
    · rw [List.concat_eq_append, ← List.cons_append, ← List.append_assoc] at heq
      obtain ⟨rfl, -⟩ := List.append_inj' heq rfl
      exact .inl ⟨past, op', rest, rfl, hacc⟩
  · rintro (⟨past, op', rest, rfl, hacc⟩ | hacc)
    · exact ⟨past, op', rest ++ [op], by simp, hacc⟩
    · exact ⟨ops, op, [], rfl, hacc⟩

theorem Accepted.append {rest : List ReputationOp} (h : Accepted ops e a) : Accepted (ops ++ rest) e a := by
  obtain ⟨past, op, tail, rfl, hacc⟩ := h
  exact ⟨past, op, tail ++ rest, by simp, hacc⟩

theorem Justified.append {rest : List ReputationOp} (h : Justified ops a) : Justified (ops ++ rest) a := by
  induction h with
  | genesis h => exact .genesis (by rw [Reputation.genesis, List.flatMap_append]; exact List.mem_append_left _ h)
  | endorsed endorsers hmany hacc _ ih =>
    exact .endorsed endorsers hmany (fun e he => ⟨(hacc e he).1, (hacc e he).2.append⟩) ih

/-- What holds after every run of the web of trust. -/
structure Web (ops : List ReputationOp) : Prop where
  bound : ∀ a, 0 ≤ (runOps ops).score a ∧ (runOps ops).score a ≤ genesisTrust
  nodup : ∀ a, ((runOps ops).endorsers a).Nodup
  irrefl : ∀ a, a ∉ (runOps ops).endorsers a
  live : ∀ a, ∀ e ∈ (runOps ops).endorsers a, endorsementThreshold ≤ (runOps ops).score e
  accepted : ∀ a e, e ∈ (runOps ops).endorsers a ↔ Accepted ops e a
  trusted : ∀ a, (runOps ops).isTrusted a = true ↔
    a ∈ genesis ops ∨ requiredEndorsements ≤ ((runOps ops).endorsers a).length

theorem web_nil : Web [] where
  bound a := by
    have h0 : unknownTrust ≤ genesisTrust := by decide +kernel
    exact ⟨le_rfl, h0⟩
  nodup a := List.nodup_nil
  irrefl a := List.not_mem_nil
  live a e he := absurd he List.not_mem_nil
  accepted a e := by
    refine iff_of_false List.not_mem_nil ?_
    rintro ⟨past, op, rest, heq, -⟩
    simp at heq
  trusted a := by
    refine iff_of_false ?_ ?_
    · have h0 : (runOps []).isTrusted a = false := by
        show decide (trustedThreshold ≤ unknownTrust) = false
        decide +kernel
      rw [h0]
      exact Bool.false_ne_true
    · rintro (hg | hl)
      · cases hg
      · exact absurd (show requiredEndorsements ≤ 0 from hl) (by decide)

namespace Web

/-- Naming founders raises their scores to `genesisTrust` and endorses nobody. -/
theorem bootstrap (hw : Web ops) (peers : List String) : Web (ops ++ [.bootstrap peers]) := by
  have hscore : ∀ a, (runOps (ops ++ [.bootstrap peers])).score a =
      if a ∈ peers then genesisTrust else (runOps ops).score a := by
    intro a
    rw [runOps_snoc]
    exact ReputationSystem.bootstrap_score peers _ a
  have hendorsers : ∀ a, (runOps (ops ++ [.bootstrap peers])).endorsers a = (runOps ops).endorsers a := by
    intro a
    rw [runOps_snoc, ReputationSystem.endorsers]
    simp only [ReputationOp.apply, ReputationSystem.bootstrap_endorsements]
    rfl
  have h0 : (0 : ℚ) ≤ genesisTrust := by decide +kernel
  have hup : ∀ a, (runOps ops).score a ≤ (runOps (ops ++ [.bootstrap peers])).score a := by
    intro a
    rw [hscore]
    split
    · exact (hw.bound a).2
    · exact le_rfl
  refine ⟨fun a => ?_, fun a => ?_, fun a => ?_, fun a e he => ?_, fun a e => ?_, fun a => ?_⟩
  · rw [hscore]
    split
    · exact ⟨h0, le_rfl⟩
    · exact hw.bound a
  · rw [hendorsers]
    exact hw.nodup a
  · rw [hendorsers]
    exact hw.irrefl a
  · rw [hendorsers] at he
    exact (hw.live a e he).trans (hup e)
  · rw [hendorsers, hw.accepted, accepted_snoc]
    simp [ReputationOp.Endorses]
  · have hgen : genesis (ops ++ [.bootstrap peers]) = genesis ops ++ peers := genesis_snoc
    rw [ReputationSystem.isTrusted_iff, hscore, hendorsers, hgen, List.mem_append]
    by_cases ha : a ∈ peers
    · have hgt : trustedThreshold ≤ genesisTrust := by decide +kernel
      simp [ha, hgt]
    · rw [if_neg ha, ← ReputationSystem.isTrusted_iff, hw.trusted]
      simp [ha]

end Web

/-- The last call of a run was an accepted endorsement of `a` by `e`. -/
structure Endorsed (ops : List ReputationOp) (op : ReputationOp) (e a : String) : Prop where
  other : e ≠ a
  qualified : endorsementThreshold ≤ (runOps ops).score e
  fresh : e ∉ (runOps ops).endorsers a
  founders : op.founders = []
  endorses : ∀ e' a', op.Endorses (runOps ops) e' a' ↔ e' = e ∧ a' = a
  endorsers : ∀ b, (runOps (ops ++ [op])).endorsers b =
    if b = a then (runOps ops).endorsers a ++ [e] else (runOps ops).endorsers b
  others : ∀ b, b ≠ a → (runOps (ops ++ [op])).score b = (runOps ops).score b
  score : (runOps (ops ++ [op])).score a =
    if requiredEndorsements ≤ ((runOps ops).endorsers a).length + 1 ∧
      max ((runOps ops).score a) ((runOps ops).score e * endorsementDecay) < trustedThreshold then trustedThreshold
    else max ((runOps ops).score a) ((runOps ops).score e * endorsementDecay)

/-- No score decreases. -/
theorem Endorsed.grows (he : Endorsed ops op e a) (b : String) :
    (runOps ops).score b ≤ (runOps (ops ++ [op])).score b := by
  by_cases hb : b = a
  · subst hb
    rw [he.score]
    split
    next hlast => exact (le_max_left _ _).trans hlast.2.le
    next => exact le_max_left _ _
  · exact (he.others b hb).ge

namespace Web

theorem endorsed (hw : Web ops) {timestamp : Nat} {q : ℚ} {r' : ReputationSystem}
    (h : (runOps ops).endorse e a timestamp = .ok (q, r')) (hnext : runOps (ops ++ [op]) = r')
    (hfounders : op.founders = []) (hop : ∀ e' a', op.Endorses (runOps ops) e' a' ↔ e' = e ∧ a' = a) :
    Endorsed ops op e a := by
  obtain ⟨hea, hqual, hnew⟩ := ReputationSystem.endorse_ok.mp ⟨_, h⟩
  obtain ⟨hendorsers, hothers, hscore⟩ := ReputationSystem.endorse_spec h (hw.live a) (hw.irrefl a)
  rw [← hnext] at hendorsers hothers hscore
  refine ⟨hea, hqual, fun hmem => ?_, hfounders, hop, hendorsers, hothers, hscore⟩
  obtain ⟨x, hx, heq⟩ := List.mem_map.mp hmem
  exact hnew x hx heq

/-- An endorsement alone gains at most half of `genesisTrust`, below the threshold. -/
theorem gain_le (hw : Web ops) (e : String) : (runOps ops).score e * endorsementDecay ≤ 4 / 10 := by
  have he := (hw.bound e).2
  simp only [genesisTrust, endorsementDecay] at he ⊢
  linarith

section
variable (hw : Web ops) (he : Endorsed ops op e a)
include hw he

theorem endorsed_bound (b : String) : (runOps (ops ++ [op])).score b ≤ genesisTrust := by
  by_cases hb : b = a
  · subst hb
    rw [he.score]
    split
    · norm_num [trustedThreshold, genesisTrust]
    · refine max_le (hw.bound b).2 ((hw.gain_le e).trans ?_)
      norm_num [genesisTrust]
  · rw [he.others b hb]
    exact (hw.bound b).2

theorem endorsed_accepted (b x : String) :
    x ∈ (runOps (ops ++ [op])).endorsers b ↔ Accepted (ops ++ [op]) x b := by
  have htrusted : (runOps ops).isTrusted e = true := ReputationSystem.isTrusted_iff.mpr he.qualified
  rw [he.endorsers, accepted_snoc, he.endorses]
  by_cases hb : b = a
  · subst hb
    rw [if_pos rfl, List.mem_append, hw.accepted, List.mem_singleton]
    constructor
    · rintro (hold | rfl)
      · exact .inl hold
      · exact .inr ⟨⟨rfl, rfl⟩, htrusted⟩
    · rintro (hold | ⟨⟨rfl, -⟩, -⟩)
      · exact .inl hold
      · exact .inr rfl
  · rw [if_neg hb, hw.accepted]
    simp [hb]

/-- The last endorsement required reaches the threshold, and none before it does. -/
theorem endorsed_trusted (b : String) : (runOps (ops ++ [op])).isTrusted b = true ↔
    b ∈ genesis (ops ++ [op]) ∨ requiredEndorsements ≤ ((runOps (ops ++ [op])).endorsers b).length := by
  have hgen : genesis (ops ++ [op]) = genesis ops := by rw [genesis_snoc, he.founders, List.append_nil]
  rw [ReputationSystem.isTrusted_iff, hgen, he.endorsers]
  by_cases hb : b = a
  · subst hb
    have hold := hw.trusted b
    rw [ReputationSystem.isTrusted_iff] at hold
    rw [if_pos rfl, List.length_append, List.length_singleton, he.score]
    by_cases hthird : requiredEndorsements ≤ ((runOps ops).endorsers b).length + 1
    · refine iff_of_true ?_ (.inr hthird)
      split
      next => exact le_rfl
      next hno => exact not_lt.mp fun hlt => hno ⟨hthird, hlt⟩
    · -- before the last endorsement required, the gain alone does not reach the threshold
      rw [if_neg fun hno => hthird hno.1, le_max_iff, hold]
      have hlow : ¬trustedThreshold ≤ (runOps ops).score e * endorsementDecay := by
        intro hle
        have := hle.trans (hw.gain_le e)
        norm_num [trustedThreshold] at this
      have hfew : ¬requiredEndorsements ≤ ((runOps ops).endorsers b).length := by omega
      simp only [hlow, hfew, hthird, or_false]
  · rw [if_neg hb, he.others b hb, ← ReputationSystem.isTrusted_iff]
    exact hw.trusted b

/-- **An endorsement keeps the web.** -/
theorem endorse : Web (ops ++ [op]) := by
  have hup := he.grows
  refine ⟨fun b => ⟨(hw.bound b).1.trans (hup b), hw.endorsed_bound he b⟩, fun b => ?_, fun b => ?_,
    fun b x hx => ?_, hw.endorsed_accepted he, hw.endorsed_trusted he⟩
  · rw [he.endorsers]
    split
    · refine List.nodup_append.mpr ⟨hw.nodup a, List.nodup_singleton e, fun x hx y hy hxy => ?_⟩
      rw [List.mem_singleton.mp hy] at hxy
      exact he.fresh (hxy ▸ hx)
    · exact hw.nodup b
  · rw [he.endorsers]
    split
    next hb =>
      subst hb
      intro hmem
      rcases List.mem_append.mp hmem with hold | hlast
      · exact hw.irrefl b hold
      · exact he.other (List.mem_singleton.mp hlast).symm
    next => exact hw.irrefl b
  · rw [he.endorsers] at hx
    refine le_trans ?_ (hup x)
    split at hx
    · rcases List.mem_append.mp hx with hold | hlast
      · exact hw.live a x hold
      · rw [List.mem_singleton.mp hlast]
        exact he.qualified
    · exact hw.live b x hx

end

/-- **One call**: the web is kept, and no score decreases. -/
theorem step (hw : Web ops) (hop : op.OfTrust) :
    Web (ops ++ [op]) ∧ ∀ b, (runOps ops).score b ≤ (runOps (ops ++ [op])).score b := by
  rcases ReputationOp.apply_cases hop (runOps ops) with
    ⟨peers, rfl⟩ | ⟨e, a, timestamp, q, r', h, happly, hfounders, hendorses⟩ | ⟨happly, hfounders, hendorses⟩
  · refine ⟨hw.bootstrap peers, fun b => ?_⟩
    rw [runOps_snoc, ReputationOp.apply, ReputationSystem.bootstrap_score]
    split
    · exact (hw.bound b).2
    · exact le_rfl
  · have he := hw.endorsed h (runOps_snoc.trans happly) hfounders hendorses
    exact ⟨hw.endorse he, he.grows⟩
  · have hsame : runOps (ops ++ [op]) = runOps ops := runOps_snoc.trans happly
    have hgen : genesis (ops ++ [op]) = genesis ops := by rw [genesis_snoc, hfounders, List.append_nil]
    refine ⟨⟨?_, ?_, ?_, ?_, fun a e => ?_, ?_⟩, fun b => by rw [hsame]⟩
    · rw [hsame]
      exact hw.bound
    · rw [hsame]
      exact hw.nodup
    · rw [hsame]
      exact hw.irrefl
    · rw [hsame]
      exact hw.live
    · rw [hsame, hw.accepted, accepted_snoc]
      simp [hendorses e a]
    · rw [hsame, hgen]
      exact hw.trusted

/-- Enough accepted endorsements are enough endorsers. -/
theorem many_iff (hw : Web ops) : requiredEndorsements ≤ ((runOps ops).endorsers a).length ↔
    ∃ endorsers : Finset String, requiredEndorsements ≤ endorsers.card ∧
      ∀ e ∈ endorsers, e ≠ a ∧ Accepted ops e a :=
  many_endorsers_iff (hw.nodup a) (hw.irrefl a) (hw.accepted a)

/-- A trusted node is justified when the accepted endorsers are. -/
theorem justified (hw : Web ops) (hacc : ∀ e a, Accepted ops e a → Justified ops e)
    (ht : (runOps ops).isTrusted a = true) : Justified ops a := by
  rcases (hw.trusted a).mp ht with hgen | hmany
  · exact .genesis hgen
  · obtain ⟨endorsers, hcard, hall⟩ := hw.many_iff.mp hmany
    exact .endorsed endorsers hcard hall fun e he => hacc e a (hall e he).2

end Web

theorem web_run (ops : List ReputationOp) (hops : ∀ op ∈ ops, op.OfTrust) : Web ops := by
  induction ops using List.reverseRecOn with
  | nil => exact web_nil
  | append_singleton ops op ih =>
    exact ((ih fun x hx => hops x (List.mem_append_left _ hx)).step (hops op (by simp))).1

/-- Every accepted endorser is justified by what came before its endorsement. -/
theorem accepted_justified (ops : List ReputationOp) (hops : ∀ op ∈ ops, op.OfTrust) :
    ∀ e a, Accepted ops e a → Justified ops e := by
  induction ops using List.reverseRecOn with
  | nil =>
    rintro e a ⟨past, op, rest, heq, -⟩
    simp at heq
  | append_singleton ops op ih =>
    have hops' : ∀ op ∈ ops, op.OfTrust := fun x hx => hops x (List.mem_append_left _ hx)
    intro e a hacc
    rcases accepted_snoc.mp hacc with hold | ⟨-, htrusted⟩
    · exact (ih hops' e a hold).append
    · exact ((web_run ops hops').justified (ih hops') htrusted).append

theorem score_mono (past rest : List ReputationOp) (hops : ∀ op ∈ past ++ rest, op.OfTrust) (a : String) :
    (runOps past).score a ≤ (runOps (past ++ rest)).score a := by
  induction rest using List.reverseRecOn with
  | nil => rw [List.append_nil]
  | append_singleton rest op ih =>
    rw [← List.append_assoc] at hops ⊢
    have hops' : ∀ op ∈ past ++ rest, op.OfTrust := fun x hx => hops x (List.mem_append_left _ hx)
    exact (ih hops').trans (((web_run _ hops').step (hops op (by simp))).2 a)

/-- **The web of trust is closed.** After every run of `bootstrap`, `endorse` and `applyRemoteEndorsement`: a node is
trusted exactly when it was bootstrapped or enough distinct others, each trusted when it endorsed, endorsed it, hence
exactly when its trust derives from the founders; the endorsers of a node are those accepted, each once and never
itself; the scores stay in `0..1` and never decrease. -/
theorem trust_closure (ops : List ReputationOp) (hops : ∀ op ∈ ops, op.OfTrust) :
    (∀ a, (runOps ops).isTrusted a = true ↔ a ∈ genesis ops ∨
      ∃ endorsers : Finset String, requiredEndorsements ≤ endorsers.card ∧
        ∀ e ∈ endorsers, e ≠ a ∧ Accepted ops e a) ∧
    (∀ a, (runOps ops).isTrusted a = true ↔ Justified ops a) ∧
    (∀ a, ((runOps ops).endorsers a).Nodup ∧ a ∉ (runOps ops).endorsers a ∧
      ∀ e, e ∈ (runOps ops).endorsers a ↔ Accepted ops e a) ∧
    (∀ a, 0 ≤ (runOps ops).score a ∧ (runOps ops).score a ≤ 1) ∧
    ∀ past rest, ops = past ++ rest → ∀ a, (runOps past).score a ≤ (runOps ops).score a := by
  have hw := web_run ops hops
  have hiff : ∀ a, (runOps ops).isTrusted a = true ↔ a ∈ genesis ops ∨
      ∃ endorsers : Finset String, requiredEndorsements ≤ endorsers.card ∧
        ∀ e ∈ endorsers, e ≠ a ∧ Accepted ops e a := fun a => by rw [hw.trusted, hw.many_iff]
  refine ⟨hiff, fun a => ⟨hw.justified (accepted_justified ops hops), fun hj => (hiff a).mpr ?_⟩,
    fun a => ⟨hw.nodup a, hw.irrefl a, hw.accepted a⟩, fun a => ⟨(hw.bound a).1, (hw.bound a).2.trans ?_⟩, ?_⟩
  · cases hj with
    | genesis h => exact .inl h
    | endorsed endorsers hmany hacc _ => exact .inr ⟨endorsers, hmany, hacc⟩
  · norm_num [genesisTrust]
  · rintro past rest rfl
    exact score_mono past rest hops

/-- Three founders endorse a newcomer, one of them twice. -/
def chain : List ReputationOp :=
  [.bootstrap ["g1", "g2", "g3"], .endorse "g1" "n" 1000, .endorse "g1" "n" 1001, .endorse "g2" "n" 1002,
    .applyRemoteEndorsement ⟨"g3", "n", 1003⟩ true]

theorem chain_justified : Justified chain "n" ∧ ¬Justified chain "m" := by
  have hops : ∀ op ∈ chain, op.OfTrust := by
    intro op hop
    simp only [chain, List.mem_cons, List.not_mem_nil, or_false] at hop
    rcases hop with rfl | rfl | rfl | rfl | rfl <;> trivial
  have hiff := (trust_closure chain hops).2.1
  constructor
  · exact (hiff "n").mp (by decide +kernel)
  · exact fun hj => absurd ((hiff "m").mpr hj) (by decide +kernel)

end Onde.Reputation
