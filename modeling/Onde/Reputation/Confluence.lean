import Onde.Lib.Reorder
import Onde.Reputation.Trust

/-!
# Endorsements in any order

A list of endorsements by nodes that are trusted already. No endorser's score moves (`raised_of_trusted`), so each
endorsement has its verdict before the first one is applied (`expected`), and what a node ends with depends on which
endorsements of it are accepted, not on their order (`settledScore`).

* `Settled`: the state after some of the endorsements, read off the state before them (`Settled.step`);
* `endorsements_confluent`: every two orders give the same verdicts, scores and endorsements.
-/

namespace Onde.Reputation

open Onde.Lib

namespace ReputationSystem

/-- How an endorsement from the network is answered; `endorse` accepts and refuses the same ones. -/
def verdict (r : ReputationSystem) (en : Endorsement) : Except String Unit :=
  (fun _ => ()) <$> r.applyRemoteEndorsement en true

/-- Apply verified endorsements one after the other; a refused one changes nothing. -/
def applyEndorsements (r : ReputationSystem) (l : List Endorsement) : ReputationSystem :=
  l.foldl (fun r en => (ReputationOp.applyRemoteEndorsement en true).apply r) r

/-- The answers on the way. -/
def verdicts : ReputationSystem → List Endorsement → List (Endorsement × Except String Unit)
  | _, [] => []
  | r, en :: l => (en, r.verdict en) :: verdicts ((ReputationOp.applyRemoteEndorsement en true).apply r) l

/-! ## Before the first one -/

/-- The endorsement is of another node and not yet entered. -/
def Fresh (r : ReputationSystem) (en : Endorsement) : Prop :=
  en.endorser ≠ en.endorsed ∧ en.endorser ∉ r.endorsers en.endorsed

instance (r : ReputationSystem) (en : Endorsement) : Decidable (r.Fresh en) := inferInstanceAs (Decidable (_ ∧ _))

/-- The answer to a trusted endorser. -/
def expected (r : ReputationSystem) (en : Endorsement) : Except String Unit :=
  if en.endorser = en.endorsed then .error "A node cannot endorse itself"
  else if en.endorser ∈ r.endorsers en.endorsed then .error "Duplicate endorsement"
  else .ok ()

/-- The endorsements of a node that will be accepted. -/
def newcomers (r : ReputationSystem) (l : List Endorsement) (b : String) : List Endorsement :=
  l.filter fun en => en.endorsed = b ∧ r.Fresh en

/-- The score of a node with the gains of the accepted endorsements. -/
def raised (r : ReputationSystem) (l : List Endorsement) (b : String) : ℚ :=
  (r.newcomers l b).foldl (fun q en => max q (r.score en.endorser * endorsementDecay)) (r.score b)

/-- The score of a node in the end: the threshold at least, if it has enough endorsers by then. -/
def settledScore (r : ReputationSystem) (l : List Endorsement) (b : String) : ℚ :=
  if requiredEndorsements ≤ (r.endorsers b).length + (r.newcomers l b).length then max (r.raised l b) trustedThreshold
  else r.raised l b

variable {r : ReputationSystem} {en : Endorsement} {l l₁ l₂ : List Endorsement} {b : String}

theorem verdict_eq (h : endorsementThreshold ≤ r.score en.endorser) : r.verdict en = r.expected en := by
  have hdup : ((r.endorsements.getD en.endorsed []).any fun e => e.endorser = en.endorser) = true ↔
      en.endorser ∈ r.endorsers en.endorsed := by
    simp [endorsers, List.any_eq_true]
  unfold verdict expected
  rw [applyRemoteEndorsement_eq, endorse, if_neg (not_lt.mpr h)]
  split
  · rfl
  · dsimp only
    simp only [hdup]
    split <;> rfl

theorem apply_of_expected (h : endorsementThreshold ≤ r.score en.endorser) :
    (¬r.Fresh en ∧ (ReputationOp.applyRemoteEndorsement en true).apply r = r) ∨
    (r.Fresh en ∧ ∃ q r', r.endorse en.endorser en.endorsed en.timestamp = .ok (q, r') ∧
      (ReputationOp.applyRemoteEndorsement en true).apply r = r') := by
  have hable : r.Endorsable en.endorser en.endorsed ↔ r.Fresh en := by
    unfold Endorsable Fresh endorsers
    simp [h]
  have hok : (∃ p, r.endorse en.endorser en.endorsed en.timestamp = .ok p) ↔ r.Endorsable en.endorser en.endorsed :=
    endorse_ok
  rw [← hable, ← hok]
  cases he : r.endorse en.endorser en.endorsed en.timestamp with
  | error err => exact .inl ⟨nofun, by rw [ReputationOp.apply, applyRemoteEndorsement_eq, he]; rfl⟩
  | ok p => exact .inr ⟨⟨p, rfl⟩, p.1, p.2, rfl, by rw [ReputationOp.apply, applyRemoteEndorsement_eq, he]; rfl⟩

theorem newcomers_append : r.newcomers (l ++ [en]) b =
    r.newcomers l b ++ if en.endorsed = b ∧ r.Fresh en then [en] else [] := by
  rw [newcomers, List.filter_append, newcomers]
  congr 1
  by_cases h : en.endorsed = b ∧ r.Fresh en <;> simp [h]

/-- The order does not matter. -/
theorem newcomers_perm (h : l₁.Perm l₂) : (r.newcomers l₁ b).Perm (r.newcomers l₂ b) := h.filter _

theorem settledScore_perm (h : l₁.Perm l₂) : r.settledScore l₁ b = r.settledScore l₂ b := by
  have hraised : r.raised l₁ b = r.raised l₂ b := by
    refine foldl_perm (I := fun _ => True) (newcomers_perm h) (fun _ _ _ _ => trivial) ?_ trivial
    intro q _ en _ en' _
    rw [max_assoc, max_assoc, max_comm (r.score en.endorser * endorsementDecay)]
  rw [settledScore, settledScore, hraised, (newcomers_perm h).length_eq]

end ReputationSystem

/-! ## After some of them -/

variable {ops : List ReputationOp} {done : List Endorsement} {en : Endorsement} {b : String}

open ReputationSystem

/-- The run with the endorsements applied. -/
def settling (ops : List ReputationOp) (done : List Endorsement) : List ReputationOp :=
  ops ++ done.map fun en => .applyRemoteEndorsement en true

theorem runOps_settling (ops : List ReputationOp) (done : List Endorsement) :
    runOps (settling ops done) = (runOps ops).applyEndorsements done := by
  rw [runOps, settling, List.foldl_append, List.foldl_map]
  rfl

theorem settling_snoc : settling ops (done ++ [en]) = settling ops done ++ [.applyRemoteEndorsement en true] := by
  simp [settling]

/-- **No gain moves a trusted node.** -/
theorem raised_of_trusted (hw : Web ops) (hb : trustedThreshold ≤ (runOps ops).score b) (l : List Endorsement) :
    (runOps ops).raised l b = (runOps ops).score b := by
  unfold raised
  induction (runOps ops).newcomers l b with
  | nil => rfl
  | cons en l ih =>
    have hgain : (runOps ops).score en.endorser * endorsementDecay ≤ (runOps ops).score b := by
      refine (hw.gain_le en.endorser).trans (le_trans ?_ hb)
      norm_num [trustedThreshold]
    rw [List.foldl_cons, max_eq_left hgain]
    exact ih

theorem settledScore_of_trusted (hw : Web ops) (hb : trustedThreshold ≤ (runOps ops).score b) (l : List Endorsement) :
    (runOps ops).settledScore l b = (runOps ops).score b := by
  unfold settledScore
  rw [raised_of_trusted hw hb]
  split
  · exact max_eq_left hb
  · rfl

/-- The state after some of the endorsements, read off the state before them. -/
structure Settled (ops : List ReputationOp) (done : List Endorsement) : Prop where
  web : Web (settling ops done)
  lists : ∀ b, (runOps (settling ops done)).endorsements.getD b [] =
    (runOps ops).endorsements.getD b [] ++ (runOps ops).newcomers done b
  score : ∀ b, (runOps (settling ops done)).score b = (runOps ops).settledScore done b

theorem settled_nil (hw : Web ops) : Settled ops [] where
  web := by rwa [settling, List.map_nil, List.append_nil]
  lists b := by rw [settling, List.map_nil, List.append_nil]; exact (List.append_nil _).symm
  score b := by
    rw [settling, List.map_nil, List.append_nil]
    unfold settledScore
    split
    next hmany =>
      -- enough endorsers already
      have htrusted := (hw.trusted b).mpr (.inr (by simpa [newcomers] using hmany))
      exact (max_eq_left (isTrusted_iff.mp htrusted)).symm
    next => rfl

theorem Settled.endorsers (hs : Settled ops done) (b : String) : (runOps (settling ops done)).endorsers b =
    (runOps ops).endorsers b ++ ((runOps ops).newcomers done b).map Endorsement.endorser := by
  rw [ReputationSystem.endorsers, hs.lists, List.map_append]
  rfl

/-- The score of a node that gets one more endorser. -/
theorem settledScore_snoc (hnew : en.endorsed = b ∧ (runOps ops).Fresh en) :
    (runOps ops).settledScore (done ++ [en]) b =
      if requiredEndorsements ≤ ((runOps ops).endorsers b).length + ((runOps ops).newcomers done b).length + 1 ∧
        max ((runOps ops).settledScore done b) ((runOps ops).score en.endorser * endorsementDecay) < trustedThreshold
      then trustedThreshold
      else max ((runOps ops).settledScore done b) ((runOps ops).score en.endorser * endorsementDecay) := by
  have hraised : (runOps ops).raised (done ++ [en]) b =
      max ((runOps ops).raised done b) ((runOps ops).score en.endorser * endorsementDecay) := by
    rw [raised, newcomers_append, if_pos hnew, List.foldl_append]
    rfl
  have hcount : ((runOps ops).newcomers (done ++ [en]) b).length = ((runOps ops).newcomers done b).length + 1 := by
    rw [newcomers_append, if_pos hnew, List.length_append, List.length_singleton]
  unfold settledScore
  rw [hraised, hcount, ← Nat.add_assoc]
  generalize (runOps ops).raised done b = q
  generalize (runOps ops).score en.endorser * endorsementDecay = gain
  by_cases hmany : requiredEndorsements ≤ ((runOps ops).endorsers b).length + ((runOps ops).newcomers done b).length
  · have hnot : ¬max (max q trustedThreshold) gain < trustedThreshold :=
      not_lt.mpr ((le_max_right q _).trans (le_max_left _ _))
    rw [if_pos hmany, if_pos (Nat.le_succ_of_le hmany), if_neg fun h => hnot h.2, max_right_comm]
  · rw [if_neg hmany]
    by_cases hlast : requiredEndorsements ≤
        ((runOps ops).endorsers b).length + ((runOps ops).newcomers done b).length + 1
    · rw [if_pos hlast]
      by_cases hlow : max q gain < trustedThreshold
      · rw [if_pos ⟨hlast, hlow⟩, max_eq_right hlow.le]
      · rw [if_neg fun h => hlow h.2, max_eq_left (not_lt.mp hlow)]
    · rw [if_neg hlast, if_neg fun h => hlast h.1]

/-- **One more endorsement** is answered as it would have been before the others. -/
theorem Settled.step (hw : Web ops) (hs : Settled ops done) (ht : (runOps ops).isTrusted en.endorser = true)
    (hpair : ∀ en' ∈ done, ¬(en'.endorser = en.endorser ∧ en'.endorsed = en.endorsed)) :
    (runOps (settling ops done)).verdict en = (runOps ops).expected en ∧ Settled ops (done ++ [en]) := by
  have hscore : (runOps (settling ops done)).score en.endorser = (runOps ops).score en.endorser := by
    rw [hs.score, settledScore_of_trusted hw (isTrusted_iff.mp ht)]
  have hqualified : endorsementThreshold ≤ (runOps (settling ops done)).score en.endorser := by
    rw [hscore]
    exact isTrusted_iff.mp ht
  have hmem : en.endorser ∈ (runOps (settling ops done)).endorsers en.endorsed ↔
      en.endorser ∈ (runOps ops).endorsers en.endorsed := by
    rw [hs.endorsers, List.mem_append, or_iff_left]
    intro hnew
    obtain ⟨en', hen', heq⟩ := List.mem_map.mp hnew
    obtain ⟨hdone, hto⟩ := List.mem_filter.mp hen'
    exact hpair en' hdone ⟨heq, (of_decide_eq_true hto).1⟩
  have hfresh : (runOps (settling ops done)).Fresh en ↔ (runOps ops).Fresh en := and_congr_right fun _ => not_congr hmem
  refine ⟨?_, ?_⟩
  · rw [verdict_eq hqualified, expected, expected]
    simp only [hmem]
  have htrust : (ReputationOp.applyRemoteEndorsement en true).OfTrust := trivial
  have hweb := (hs.web.step htrust).1
  rw [← settling_snoc] at hweb
  have hnext : runOps (settling ops (done ++ [en])) =
      (ReputationOp.applyRemoteEndorsement en true).apply (runOps (settling ops done)) := by
    rw [settling_snoc, runOps_snoc]
  rcases apply_of_expected hqualified with ⟨hold, happly⟩ | ⟨hnew, q, r', hendorse, happly⟩
  · -- a refused endorsement changes nothing
    have hsame : ∀ b, (runOps ops).newcomers (done ++ [en]) b = (runOps ops).newcomers done b := fun b => by
      rw [newcomers_append, if_neg fun h => hold (hfresh.mpr h.2), List.append_nil]
    refine ⟨hweb, fun b => ?_, fun b => ?_⟩
    · rw [hnext, happly, hs.lists, hsame]
    · rw [hnext, happly, hs.score, settledScore, settledScore, raised, raised, hsame]
  · obtain ⟨hlists, hothers⟩ := endorse_frame hendorse
    obtain ⟨-, -, hgains⟩ := endorse_spec hendorse (hs.web.live _) (hs.web.irrefl _)
    have hfresh' := hfresh.mp hnew
    refine ⟨hweb, fun b => ?_, fun b => ?_⟩
    · rw [hnext, happly, hlists, newcomers_append]
      by_cases hb : b = en.endorsed
      · subst hb
        rw [if_pos rfl, if_pos ⟨rfl, hfresh'⟩, hs.lists, List.append_assoc]
      · rw [if_neg hb, if_neg fun h => hb h.1.symm, List.append_nil, hs.lists]
    · by_cases hb : b = en.endorsed
      · subst hb
        have hlen : ((runOps (settling ops done)).endorsers en.endorsed).length =
            ((runOps ops).endorsers en.endorsed).length + ((runOps ops).newcomers done en.endorsed).length := by
          rw [hs.endorsers, List.length_append, List.length_map]
        rw [hnext, happly, hgains, hlen, hscore, hs.score, settledScore_snoc ⟨rfl, hfresh'⟩]
      · have hsame : (runOps ops).newcomers (done ++ [en]) b = (runOps ops).newcomers done b := by
          rw [newcomers_append, if_neg fun h => hb h.1.symm, List.append_nil]
        rw [hnext, happly, hothers b hb, hs.score, settledScore, settledScore, raised, raised, hsame]

/-! ## All of them -/

theorem verdicts_snoc (r : ReputationSystem) (l : List Endorsement) (en : Endorsement) :
    r.verdicts (l ++ [en]) = r.verdicts l ++ [(en, (r.applyEndorsements l).verdict en)] := by
  induction l generalizing r with
  | nil => rfl
  | cons en' l ih =>
    rw [List.cons_append, verdicts, ih]
    rfl

/-- **A whole list**: each endorsement has the answer it would have had first, and the end is read off the list. -/
theorem settled_run (hw : Web ops) (l : List Endorsement)
    (hpairs : (l.map fun en => (en.endorser, en.endorsed)).Nodup)
    (htrusted : ∀ en ∈ l, (runOps ops).isTrusted en.endorser = true) :
    (runOps ops).verdicts l = l.map (fun en => (en, (runOps ops).expected en)) ∧ Settled ops l := by
  induction l using List.reverseRecOn with
  | nil => exact ⟨rfl, settled_nil hw⟩
  | append_singleton l en ih =>
    rw [List.map_append, List.nodup_append] at hpairs
    obtain ⟨hverdicts, hs⟩ := ih hpairs.1 fun en' hen' => htrusted en' (List.mem_append_left _ hen')
    have hpair : ∀ en' ∈ l, ¬(en'.endorser = en.endorser ∧ en'.endorsed = en.endorsed) := fun en' hen' heq =>
      hpairs.2.2 _ (List.mem_map_of_mem hen') _ (List.mem_map_of_mem List.mem_cons_self) (Prod.ext heq.1 heq.2)
    obtain ⟨hverdict, hs'⟩ := hs.step hw (htrusted en (List.mem_append_right _ List.mem_cons_self)) hpair
    refine ⟨?_, hs'⟩
    rw [verdicts_snoc, hverdicts, ← runOps_settling, hverdict, List.map_append]
    rfl

/-- **Endorsements by trusted nodes are confluent.** In every state of the web of trust, a list of endorsements with
distinct pairs, all by nodes trusted in that state, gives in every two orders the same answer to each of them, the same
scores and the same endorsements of every node. -/
theorem endorsements_confluent (ops : List ReputationOp) (hops : ∀ op ∈ ops, op.OfTrust) (l : List Endorsement)
    (hpairs : (l.map fun en => (en.endorser, en.endorsed)).Nodup)
    (htrusted : ∀ en ∈ l, (runOps ops).isTrusted en.endorser = true) :
    ∃ answer : Endorsement → Except String Unit, ∀ l₁ l₂, l₁.Perm l → l₂.Perm l →
      (runOps ops).verdicts l₁ = l₁.map (fun en => (en, answer en)) ∧
      (runOps ops).verdicts l₂ = l₂.map (fun en => (en, answer en)) ∧
      (∀ a, ((runOps ops).applyEndorsements l₁).score a = ((runOps ops).applyEndorsements l₂).score a) ∧
      ∀ a, (((runOps ops).applyEndorsements l₁).endorsements.getD a []).Perm
        (((runOps ops).applyEndorsements l₂).endorsements.getD a []) := by
  have hw := web_run ops hops
  have hrun : ∀ l', l'.Perm l →
      (runOps ops).verdicts l' = l'.map (fun en => (en, (runOps ops).expected en)) ∧ Settled ops l' := fun l' hl' =>
    settled_run hw l' ((hl'.map _).nodup_iff.mpr hpairs) fun en hen => htrusted en (hl'.subset hen)
  refine ⟨(runOps ops).expected, fun l₁ l₂ h₁ h₂ => ?_⟩
  obtain ⟨hverdicts₁, hs₁⟩ := hrun l₁ h₁
  obtain ⟨hverdicts₂, hs₂⟩ := hrun l₂ h₂
  have hperm := h₁.trans h₂.symm
  refine ⟨hverdicts₁, hverdicts₂, fun a => ?_, fun a => ?_⟩
  · rw [← runOps_settling, ← runOps_settling, hs₁.score, hs₂.score, settledScore_perm hperm]
  · rw [← runOps_settling, ← runOps_settling, hs₁.lists, hs₂.lists]
    exact (newcomers_perm hperm).append_left _

/-- Three founders endorse a node, and each other. -/
def vouching : List Endorsement :=
  [⟨"f", "n", 1⟩, ⟨"g", "n", 2⟩, ⟨"f", "g", 3⟩, ⟨"h", "n", 4⟩, ⟨"g", "g", 5⟩]

theorem vouching_confluent : ((runOps [.bootstrap ["f", "g", "h"]]).applyEndorsements vouching).score "n" =
    ((runOps [.bootstrap ["f", "g", "h"]]).applyEndorsements vouching.reverse).score "n" := by
  have hops : ∀ op ∈ [ReputationOp.bootstrap ["f", "g", "h"]], op.OfTrust := by simp [ReputationOp.OfTrust]
  obtain ⟨answer, h⟩ := endorsements_confluent [.bootstrap ["f", "g", "h"]] hops vouching (by decide)
    (by decide +kernel)
  exact (h vouching vouching.reverse (List.Perm.refl _) (List.reverse_perm _)).2.2.1 "n"

end Onde.Reputation
