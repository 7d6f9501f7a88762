import Onde.Lib.Run
import Onde.Node.Verdict

/-!
# Runs of a node

* `Receptions`: a node receives events in any order and does anything else in between;
* `run_identity`: its key stays the same;
* `stamps_run`: every stamp in the window of an author is the time of one of its events that reached the window.
-/

namespace Onde

open Lib Crypto Reputation Protocol

variable {h : Host}

/-- What a reception reads besides the state. -/
structure Call where
  env : Env
  now : Nat
  event : MeshEvent

/-- A reception as a step. -/
def Receives (c : Call) (n n' : Node h) : Prop := n' = (n.receivePeerEvent c.env c.now c.event).node

/-- Whatever else a node does: it keeps its key, and only the gate touches the windows. -/
def Aside (n n' : Node h) : Prop := n'.identity = n.identity ∧ n'.spamGuard = n.spamGuard

/-- The runs of a node, with the receptions they took, oldest first. -/
abbrev Receptions (n₀ : Node h) (vs : List (Visit (Node h) Call)) (n : Node h) : Prop := Run Receives Aside n₀ vs n

/-- An event of the author came as far as its window. -/
def Reached (author : String) (v : Visit (Node h) Call) : Prop :=
  v.label.event.pubkey = author ∧
    (v.state.verdict v.label.now v.label.event = .room ∨ v.state.verdict v.label.now v.label.event = .full)

instance (author : String) (v : Visit (Node h) Call) : Decidable (Reached author v) :=
  inferInstanceAs (Decidable (_ ∧ _))

/-- The receptions that took an event of the author as far as its window. -/
def reaching (author : String) (vs : List (Visit (Node h) Call)) : List (Visit (Node h) Call) :=
  vs.filter fun v => Reached author v

theorem reaching_snoc {author : String} {vs : List (Visit (Node h) Call)} {v : Visit (Node h) Call}
    (hv : Reached author v) : reaching author (vs ++ [v]) = reaching author vs ++ [v] := by
  simp [reaching, hv]

theorem reaching_sublist (author : String) (vs : List (Visit (Node h) Call)) (v : Visit (Node h) Call) :
    (reaching author vs).Sublist (reaching author (vs ++ [v])) := by
  rw [reaching, reaching, List.filter_append]
  exact List.sublist_append_left _ _

namespace Node

variable {n₀ n : Node h} {vs : List (Visit (Node h) Call)} {author : String}

/-- Every run keeps the key. -/
theorem run_identity (hr : Receptions n₀ vs n) : n.identity = n₀.identity := by
  refine Run.invariant (I := fun s : Node h => s.identity = n₀.identity) rfl ?_ ?_ hr
  · rintro c s s' ih rfl
    exact (receivePeerEvent_spec c.env c.now s c.event).identity.trans ih
  · rintro s s' ih ⟨hid, _⟩
    exact hid.trans ih

/-- A reception puts one stamp in the window of the author at most, if there is room. -/
theorem stamps_receive (env : Env) (now : Nat) (n : Node h) (event : MeshEvent) (author : String) :
    ((n.receivePeerEvent env now event).node.spamGuard.stamps author).Sublist
      (if event.pubkey = author ∧ n.verdict now event = .room then n.spamGuard.stamps author ++ [now]
        else n.spamGuard.stamps author) := by
  have hspam := (receivePeerEvent_spec env now n event).spamGuard
  by_cases hroom : n.verdict now event = .room
  · rw [if_pos (Or.inl hroom)] at hspam
    have htaken : (n.spamGuard.admitWithBudget env.order event.pubkey now (n.budgetAt now)).1 = true :=
      SpamGuard.admit_iff.mpr (verdict_room hroom).2.2
    have hstamps := SpamGuard.stamps_admitted htaken author
    rw [hspam]
    by_cases ha : author = event.pubkey
    · rw [if_pos ha] at hstamps
      rwa [if_pos ⟨ha.symm, hroom⟩]
    · rw [if_neg ha] at hstamps
      rwa [if_neg fun hc => ha hc.1.symm]
  rw [if_neg fun hc => hroom hc.2]
  by_cases hfull : n.verdict now event = .full
  · rw [if_pos (Or.inr hfull)] at hspam
    have hrefused : (n.spamGuard.admitWithBudget env.order event.pubkey now (n.budgetAt now)).1 = false :=
      Bool.eq_false_iff.mpr fun ht => (verdict_full hfull).2.2 (SpamGuard.admit_iff.mp ht)
    rw [hspam]
    exact SpamGuard.stamps_refused hrefused author
  · rw [if_neg (not_or.mpr ⟨hroom, hfull⟩)] at hspam
    rw [hspam]

/-- A reception keeps the length of the windows. -/
theorem windowSecs_receive (env : Env) (now : Nat) (n : Node h) (event : MeshEvent) :
    (n.receivePeerEvent env now event).node.spamGuard.windowSecs = n.spamGuard.windowSecs := by
  rw [(receivePeerEvent_spec env now n event).spamGuard]
  split
  · exact SpamGuard.windowSecs_admit
  · rfl

theorem run_windowSecs (hr : Receptions n₀ vs n) : n.spamGuard.windowSecs = n₀.spamGuard.windowSecs := by
  refine Run.invariant (I := fun s : Node h => s.spamGuard.windowSecs = n₀.spamGuard.windowSecs) rfl ?_ ?_ hr
  · rintro c s s' ih rfl
    exact (windowSecs_receive c.env c.now s c.event).trans ih
  · rintro s s' ih ⟨_, hspam⟩
    exact (congrArg SpamGuard.windowSecs hspam).trans ih

/-- **Every stamp in the window of an author is the time of an event of the author that reached it**, in order. -/
theorem stamps_run (h₀ : n₀.spamGuard.stamps author = []) (hr : Receptions n₀ vs n) :
    (n.spamGuard.stamps author).Sublist ((reaching author vs).map fun v => v.label.now) := by
  induction hr with
  | start => rw [h₀]; exact List.nil_sublist _
  | @visit ws s s' c hw hv ih =>
    obtain rfl : s' = _ := hv
    have hstep := stamps_receive c.env c.now s c.event author
    by_cases hc : c.event.pubkey = author ∧ s.verdict c.now c.event = .room
    · have hreached : Reached author (⟨s, c⟩ : Visit (Node h) Call) := ⟨hc.1, Or.inl hc.2⟩
      rw [if_pos hc] at hstep
      rw [reaching_snoc hreached, List.map_append]
      exact hstep.trans (ih.append (List.Sublist.refl _))
    · rw [if_neg hc] at hstep
      exact (hstep.trans ih).trans ((reaching_sublist author ws ⟨s, c⟩).map _)
  | silent _ hs ih =>
    rw [hs.2]
    exact ih

end Node

end Onde
