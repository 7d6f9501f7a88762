import Onde.Lib.Outcome
import Onde.Network.Outbound

/-!
# The bounds of the queues

* `dropOldest`: one round of the loop that makes room in a full queue; with a capacity it returns, without one it goes
  on for ever (`safe_dropOldest`);
* `Queues.step`: the outbound queues, the writers and the inbound queue, in any order of calls;
* `queues_bounded_iff`: a run keeps every queue within the capacity exactly if each frame a writer puts back finds room.
-/

namespace Onde.Network

open Onde.Lib

variable {φ : Type}

/-! ## Making room -/

/-- While the queue is full its oldest frame goes, if there is one, and is counted. -/
def dropOldest (capacity : Nat) (s : List φ × Nat) : Outcome Empty ((List φ × Nat) ⊕ (List φ × Nat)) :=
  if capacity ≤ s.1.length then .ok (.inl (s.1.tail, s.2 + 1)) else .ok (.inr s)

theorem dropOldest_full {capacity : Nat} {q : List φ} (h : capacity ≤ q.length) (d : Nat) :
    dropOldest capacity (q, d) = .ok (.inl (q.tail, d + 1)) := if_pos h

theorem dropOldest_room {capacity : Nat} {q : List φ} (h : ¬capacity ≤ q.length) (d : Nat) :
    dropOldest capacity (q, d) = .ok (.inr (q, d)) := if_neg h

/-- How many frames a queue has too many for one more. -/
def excess (capacity : Nat) (q : List φ) : Nat := q.length + 1 - capacity

theorem loop_dropOldest {capacity : Nat} (hc : 1 ≤ capacity) (q : List φ) (d : Nat) {n : Nat} (hn : q.length < n) :
    loop (dropOldest capacity) n (q, d) = .ok (q.drop (excess capacity q), d + excess capacity q) := by
  induction q generalizing d n with
  | nil =>
    obtain ⟨n, rfl⟩ : ∃ m, n = m + 1 := ⟨n - 1, by omega⟩
    have hroom : ¬capacity ≤ ([] : List φ).length := Nat.not_le.mpr hc
    have hnone : excess capacity ([] : List φ) = 0 := by simp [excess]; omega
    rw [loop_done (dropOldest_room hroom d), hnone]
    rfl
  | cons x q ih =>
    obtain ⟨n, rfl⟩ : ∃ m, n = m + 1 := ⟨n - 1, by simp at hn; omega⟩
    by_cases hfull : capacity ≤ (x :: q).length
    · have hmore : excess capacity (x :: q) = excess capacity q + 1 := by
        simp only [excess, List.length_cons] at hfull ⊢
        omega
      have hn : q.length < n := by simpa using hn
      rw [loop_again (dropOldest_full hfull d), hmore, List.drop_succ_cons, Nat.add_comm (excess capacity q) 1,
        ← Nat.add_assoc]
      exact ih (d + 1) hn
    · have hnone : excess capacity (x :: q) = 0 := by
        simp only [excess]
        omega
      rw [loop_done (dropOldest_room hfull d), hnone]
      rfl

/-- Without a capacity every queue is full, an empty one too. -/
theorem loop_dropOldest_zero (n : Nat) (s : List φ × Nat) : loop (dropOldest 0) n s = .running := by
  induction n generalizing s with
  | zero => rfl
  | succ n ih =>
    rw [loop_again (dropOldest_full (Nat.zero_le _) s.2)]
    exact ih _

theorem evictFull_eq {capacity : Nat} (hc : 1 ≤ capacity) (q : List φ) :
    evictFull capacity q = some (q.take (excess capacity q), q.drop (excess capacity q)) := by
  induction q with
  | nil => simp [evictFull, Nat.ne_of_gt hc]
  | cons x q ih =>
    unfold evictFull
    split
    · next hfull =>
      have hmore : excess capacity (x :: q) = excess capacity q + 1 := by
        simp only [excess, List.length_cons] at hfull ⊢
        omega
      rw [ih, hmore]
      rfl
    · next hroom =>
      have hnone : excess capacity (x :: q) = 0 := by
        simp only [excess]
        omega
      rw [hnone]
      rfl

theorem evictFull_zero (q : List φ) : evictFull 0 q = none := by
  induction q with
  | nil => rfl
  | cons x q ih =>
    unfold evictFull
    rw [if_pos (Nat.zero_le _), ih]
    rfl

/-! ## The calls -/

/-- The queues of a transport: those to the peers with their writers, and the one of the frames received. -/
structure Queues (φ : Type) where
  outbound : Outbound φ
  inbound : List (String × φ)
  framesDroppedInboundFull : Nat
  framesReceived : Nat

namespace Queues

def start (capacity : Nat) : Queues φ := ⟨.start capacity, [], 0, 0⟩

/-- Queue a frame to a peer, with fuel for the loop. -/
def enqueueOutbound (payload : φ → Bytes) (s : Queues φ) (peerKey : String) (frame : φ) (fuel : Nat) :
    Outcome String (Queues φ) :=
  if maxFramePayload < (payload frame).length then
    .error s!"tcp outbound payload too large: {(payload frame).length} bytes (max {maxFramePayload})"
  else match loop (dropOldest s.outbound.queueCapacity) fuel (s.outbound.queue peerKey, 0) with
    | .ok (queue, dropped) => .ok { s with outbound := { s.outbound with
        queue := Function.update s.outbound.queue peerKey (queue ++ [frame])
        evicted := s.outbound.evicted ++ ((s.outbound.queue peerKey).take dropped).map (peerKey, ·)
        framesDroppedOutboundFull := s.outbound.framesDroppedOutboundFull + dropped } }
    | .error e => e.elim
    | .panic => .panic
    | .running => .running

/-- Queue a frame that was received. -/
def pushInbound (s : Queues φ) (peerKey : String) (frame : φ) (fuel : Nat) : Outcome Empty (Queues φ) := do
  let (queue, dropped) ← loop (dropOldest s.outbound.queueCapacity) fuel (s.inbound, 0)
  .ok { s with
    inbound := queue ++ [(peerKey, frame)]
    framesDroppedInboundFull := s.framesDroppedInboundFull + dropped
    framesReceived := s.framesReceived + 1 }

/-- The frames received, in their order. -/
def drainInbound (s : Queues φ) : List (String × φ) × Queues φ := (s.inbound, { s with inbound := [] })

variable {payload : φ → Bytes} {s s' : Queues φ} {peerKey : String} {frame : φ} {fuel : Nat}

/-- **Queueing a frame returns with a capacity**, or when the frame is refused. -/
theorem safe_enqueueOutbound : Outcome.Safe (s.enqueueOutbound payload peerKey frame) ↔
    1 ≤ s.outbound.queueCapacity ∨ maxFramePayload < (payload frame).length := by
  by_cases hsize : maxFramePayload < (payload frame).length
  · refine ⟨fun _ => .inr hsize, fun _ => ⟨0, ?_⟩⟩
    rw [enqueueOutbound, if_pos hsize]
    exact Outcome.calm_error _
  · by_cases hc : 1 ≤ s.outbound.queueCapacity
    · refine ⟨fun _ => .inl hc, fun _ => ⟨(s.outbound.queue peerKey).length + 1, ?_⟩⟩
      rw [enqueueOutbound, if_neg hsize, loop_dropOldest hc _ _ (Nat.lt_succ_self _)]
      exact Outcome.calm_ok _
    · refine ⟨fun ⟨n, hn⟩ => ?_, fun h => (h.elim hc hsize).elim⟩
      have hzero : s.outbound.queueCapacity = 0 := by omega
      rw [enqueueOutbound, if_neg hsize, hzero, loop_dropOldest_zero] at hn
      exact absurd hn Outcome.not_calm_running

/-- **Queueing a received frame returns exactly with a capacity.** -/
theorem safe_pushInbound : Outcome.Safe (s.pushInbound peerKey frame) ↔ 1 ≤ s.outbound.queueCapacity := by
  by_cases hc : 1 ≤ s.outbound.queueCapacity
  · refine ⟨fun _ => hc, fun _ => ⟨s.inbound.length + 1, ?_⟩⟩
    rw [pushInbound, loop_dropOldest hc _ _ (Nat.lt_succ_self _)]
    exact Outcome.calm_ok _
  · refine ⟨fun ⟨n, hn⟩ => ?_, fun h => absurd h hc⟩
    have hzero : s.outbound.queueCapacity = 0 := by omega
    rw [pushInbound, hzero, loop_dropOldest_zero] at hn
    exact absurd hn Outcome.not_calm_running

/-! ## Runs -/

/-- What happens next: something to an outbound queue, a frame is received, or the inbound queue is drained. -/
inductive Action (φ : Type) where
  | outbound (a : Outbound.Action φ)
  | receive (peerKey : String) (frame : φ)
  | drain

/-- One action; `none` when there is no such writer or the call never returns. -/
def step (payload : φ → Bytes) (s : Queues φ) : Action φ → Option (Queues φ)
  | .outbound a => (s.outbound.step payload a).map fun o => { s with outbound := o }
  | .receive peerKey frame => (evictFull s.outbound.queueCapacity s.inbound).map fun r => { s with
      inbound := r.2 ++ [(peerKey, frame)]
      framesDroppedInboundFull := s.framesDroppedInboundFull + r.1.length
      framesReceived := s.framesReceived + 1 }
  | .drain => some s.drainInbound.2

def run (payload : φ → Bytes) : Queues φ → List (Action φ) → Option (Queues φ)
  | s, [] => some s
  | s, a :: as => (s.step payload a).bind fun s => run payload s as

/-- Making room with fuel is making room, and never ends together with it. -/
theorem loop_eq_evictFull {α : Type} (capacity : Nat) {q : List α} (hn : q.length < fuel) :
    loop (dropOldest capacity) fuel (q, 0) =
      match evictFull capacity q with
      | some r => .ok (r.2, r.1.length)
      | none => .running := by
  cases capacity with
  | zero => rw [loop_dropOldest_zero, evictFull_zero]
  | succ c =>
    have hle : excess (c + 1) q ≤ q.length := by
      unfold excess
      omega
    rw [loop_dropOldest (Nat.succ_pos c) q 0 hn, evictFull_eq (Nat.succ_pos c), Nat.zero_add]
    dsimp only
    rw [List.length_take, Nat.min_eq_left hle]

/-- **With enough fuel the call is the action**, and it never returns together with it. -/
theorem enqueueOutbound_eq_step (hn : (s.outbound.queue peerKey).length < fuel) :
    s.enqueueOutbound payload peerKey frame fuel =
      match s.outbound.enqueueOutbound payload peerKey frame with
      | some (.ok o) => .ok { s with outbound := o }
      | some (.error e) => .error e
      | none => .running := by
  unfold enqueueOutbound Outbound.enqueueOutbound
  split
  · rfl
  · rw [loop_eq_evictFull _ hn]
    cases hq : evictFull s.outbound.queueCapacity (s.outbound.queue peerKey) with
    | none => rfl
    | some r =>
      have hsplit : s.outbound.queue peerKey = r.1 ++ r.2 := evictFull_spec hq
      dsimp only [Option.map_some]
      rw [hsplit, List.take_left]

theorem pushInbound_eq_step (hn : s.inbound.length < fuel) :
    s.pushInbound peerKey frame fuel =
      match s.step payload (.receive peerKey frame) with
      | some s' => .ok s'
      | none => .running := by
  unfold pushInbound step
  rw [loop_eq_evictFull _ hn]
  cases evictFull s.outbound.queueCapacity s.inbound <;> rfl

/-! ## Lengths -/

/-- The bound of the queues. -/
def limit (s : Queues φ) : Nat := max 1 s.outbound.queueCapacity

structure Within (s : Queues φ) : Prop where
  outbound : ∀ peerKey, (s.outbound.queue peerKey).length ≤ s.limit
  inbound : s.inbound.length ≤ s.limit

/-- A frame that a writer puts back after a failed write finds room in its queue. -/
def FindsRoom (s : Queues φ) : Action φ → Prop
  | .outbound (.move i _) => ∀ w frame, s.outbound.writers[i]? = some w → w.phase = .failed frame →
    (s.outbound.queue w.peerKey).length < s.limit
  | _ => True

theorem within_start (capacity : Nat) : Within (start capacity : Queues φ) := ⟨fun _ => Nat.zero_le _, Nat.zero_le _⟩

theorem length_evictFull {α : Type} {capacity : Nat} {q gone kept : List α}
    (h : evictFull capacity q = some (gone, kept)) : kept.length < capacity := by
  cases capacity with
  | zero =>
    rw [evictFull_zero] at h
    cases h
  | succ c =>
    rw [evictFull_eq (Nat.succ_pos c)] at h
    cases h
    rw [List.length_drop, excess]
    omega

/-- A writer shortens its queue or leaves it, unless it puts a frame back. -/
theorem length_move (payload : φ → Bytes) (socketTakes : Bool) (queue : List φ) (w : Writer φ) :
    (∃ f, w.phase = .failed f ∧ (w.move payload socketTakes queue).1.length = queue.length + 1) ∨
      (∀ f, w.phase ≠ .failed f) ∧ (w.move payload socketTakes queue).1.length ≤ queue.length := by
  unfold Writer.move
  cases hphase : w.phase with
  | polling =>
    refine .inr ⟨nofun, ?_⟩
    cases queue with
    | nil => exact le_rfl
    | cons f queue => exact Nat.le_succ _
  | holding f =>
    refine .inr ⟨nofun, ?_⟩
    dsimp only
    split
    · exact le_rfl
    · split <;> exact le_rfl
  | failed f => exact .inl ⟨f, rfl, rfl⟩
  | ended => exact .inr ⟨nofun, le_rfl⟩

theorem step_capacity {a : Action φ} (h : s.step payload a = some s') : s'.limit = s.limit := by
  cases a with
  | outbound a =>
    obtain ⟨o, ho, rfl⟩ := Option.map_eq_some_iff.mp h
    cases a with
    | enqueue key f => rcases Outbound.step_enqueue ho with ⟨-, rfl⟩ | ⟨-, _, _, -, rfl⟩ <;> rfl
    | connect key => cases ho; rfl
    | move i b => obtain ⟨_, _, _, -, rfl⟩ := Outbound.step_move ho; rfl
  | receive key f => obtain ⟨r, -, rfl⟩ := Option.map_eq_some_iff.mp h; rfl
  | drain => cases h; rfl

/-- An enqueue makes room first. -/
theorem length_enqueue (hs : Within s) {key : String} {f : φ} {o : Outbound φ}
    (ho : s.outbound.step payload (.enqueue key f) = some o) (p : String) : (o.queue p).length ≤ s.limit := by
  obtain ⟨r, hr, rfl⟩ := Option.map_eq_some_iff.mp ho
  unfold Outbound.enqueueOutbound at hr
  split at hr
  · cases hr
    exact hs.outbound p
  · obtain ⟨⟨gone, kept⟩, hev, rfl⟩ := Option.map_eq_some_iff.mp hr
    have hkept := length_evictFull hev
    by_cases hp : p = key
    · subst hp
      simp [Except.toOption, limit]
      omega
    · simp [Except.toOption, Function.update_of_ne hp, hs.outbound p]

/-- A move of a writer keeps its queue within the bound exactly if a frame it puts back finds room. -/
theorem within_move (hs : Within s) {i : Nat} {b : Bool} {o : Outbound φ}
    (ho : s.outbound.step payload (.move i b) = some o) :
    (∀ p, (o.queue p).length ≤ s.limit) ↔ s.FindsRoom (.outbound (.move i b)) := by
  obtain ⟨w, hw, rfl⟩ := Option.map_eq_some_iff.mp ho
  constructor
  · intro hwithin w' f hw' hfailed
    obtain rfl := Option.some.inj (hw.symm.trans hw')
    have hlen := hwithin w.peerKey
    rcases length_move payload b (s.outbound.queue w.peerKey) w with ⟨-, -, hmove⟩ | ⟨hnot, -⟩
    · simp only [Function.update_self, hmove] at hlen
      exact hlen
    · exact absurd hfailed (hnot f)
  · intro hroom p
    by_cases hp : p = w.peerKey
    · subst hp
      simp only [Function.update_self]
      rcases length_move payload b (s.outbound.queue w.peerKey) w with ⟨f, hf, hmove⟩ | ⟨-, hmove⟩
      · rw [hmove]
        exact hroom w f hw hf
      · exact hmove.trans (hs.outbound w.peerKey)
    · simp only [Function.update_of_ne hp]
      exact hs.outbound p

/-- **One action keeps the bounds exactly if what it puts back finds room.** -/
theorem within_step {a : Action φ} (hs : Within s) (h : s.step payload a = some s') : Within s' ↔ s.FindsRoom a := by
  have hlimit := step_capacity h
  cases a with
  | outbound a =>
    obtain ⟨o, ho, rfl⟩ := Option.map_eq_some_iff.mp h
    have hwithin : Within { s with outbound := o } ↔ ∀ p, (o.queue p).length ≤ s.limit :=
      ⟨fun hw p => hlimit ▸ hw.outbound p, fun hw => ⟨by rwa [hlimit], by rw [hlimit]; exact hs.inbound⟩⟩
    rw [hwithin]
    cases a with
    | enqueue key f => exact iff_of_true (length_enqueue hs ho) trivial
    | connect key =>
      cases ho
      exact iff_of_true hs.outbound trivial
    | move i b => exact within_move hs ho
  | receive key f =>
    obtain ⟨⟨gone, kept⟩, hev, rfl⟩ := Option.map_eq_some_iff.mp h
    have hkept := length_evictFull hev
    refine iff_of_true ⟨hs.outbound, ?_⟩ trivial
    simp [limit]
    omega
  | drain =>
    cases h
    exact iff_of_true ⟨hs.outbound, Nat.zero_le _⟩ trivial

theorem run_append (as : List (Action φ)) (a : Action φ) :
    run payload s (as ++ [a]) = (run payload s as).bind fun s => s.step payload a := by
  induction as generalizing s with
  | nil =>
    show (s.step payload a).bind some = s.step payload a
    cases s.step payload a <;> rfl
  | cons b as ih =>
    rw [List.cons_append, run, run, Option.bind_assoc]
    congr 1
    funext s
    exact ih

theorem findsRoom_of_none {a : Action φ} (h : s.step payload a = none) : s.FindsRoom a := by
  cases a with
  | outbound a =>
    cases a with
    | move i b =>
      intro w _ hw _
      have hnone : s.outbound.writers[i]? = none := by simpa [step, Outbound.step] using h
      rw [hw] at hnone
      cases hnone
    | enqueue key f => trivial
    | connect key => trivial
  | receive key f => trivial
  | drain => trivial

/-- **When the queues are bounded and their calls return.** Queueing a frame returns with a capacity, or when the frame
is refused; queueing a received frame returns with a capacity; and in every run, in any order of calls, writers and
write failures, every queue stays within its bound exactly if every frame put back finds room. -/
theorem queues_bounded_iff (payload : φ → Bytes) :
    (∀ (s : Queues φ) (peerKey : String) (frame : φ), Outcome.Safe (s.enqueueOutbound payload peerKey frame) ↔
      1 ≤ s.outbound.queueCapacity ∨ maxFramePayload < (payload frame).length) ∧
    (∀ (s : Queues φ) (peerKey : String) (frame : φ), Outcome.Safe (s.pushInbound peerKey frame) ↔
      1 ≤ s.outbound.queueCapacity) ∧
    ∀ (capacity : Nat) (as : List (Action φ)),
      (∀ pre, pre <+: as → ∀ s, run payload (.start capacity) pre = some s → Within s) ↔
        ∀ pre a, pre ++ [a] <+: as → ∀ s, run payload (.start capacity) pre = some s → s.FindsRoom a := by
  refine ⟨fun _ _ _ => safe_enqueueOutbound, fun _ _ _ => safe_pushInbound, fun capacity as => ⟨?_, ?_⟩⟩
  · intro hwithin pre a hpre s hs
    cases hstep : s.step payload a with
    | none => exact findsRoom_of_none hstep
    | some s' =>
      have hs' : run payload (.start capacity) (pre ++ [a]) = some s' := by rw [run_append, hs, Option.bind_some, hstep]
      have hbefore := hwithin pre ((List.prefix_append pre [a]).trans hpre) s hs
      exact (within_step hbefore hstep).mp (hwithin _ hpre s' hs')
  · intro hroom pre
    induction pre using List.reverseRecOn with
    | nil =>
      intro _ s hs
      cases hs
      exact within_start capacity
    | append_singleton pre a ih =>
      intro hpre s' hs'
      rw [run_append] at hs'
      obtain ⟨s, hs, hstep⟩ := Option.bind_eq_some_iff.mp hs'
      have hbefore := ih ((List.prefix_append pre [a]).trans hpre) s hs
      exact (within_step hbefore hstep).mpr (hroom pre a hpre s hs)

/-- A frame is taken, another is queued in its place, and the first is put back. -/
def putBack : List (Action Bytes) :=
  [.outbound (.enqueue "10.0.0.2:4001" [1]), .outbound (.connect "10.0.0.2:4001"), .outbound (.move 0 true),
    .outbound (.enqueue "10.0.0.2:4001" [2]), .outbound (.move 0 false), .outbound (.move 0 false)]

/-- **Neither half holds of every capacity and every run**: without a capacity no call returns, and a queue for one
frame holds two. -/
theorem queues_unbounded :
    (¬∀ (s : Queues Bytes) (peerKey : String) (frame : Bytes), Outcome.Safe (s.enqueueOutbound id peerKey frame) ∧
      Outcome.Safe (s.pushInbound peerKey frame)) ∧
    ¬∀ (capacity : Nat) (as : List (Action Bytes)) (s : Queues Bytes), run id (.start capacity) as = some s →
      Within s := by
  constructor
  · intro h
    obtain ⟨fuel, hcalm⟩ := (h (.start 0) "10.0.0.2:4001" [1]).2
    have hrunning : (start 0 : Queues Bytes).pushInbound "10.0.0.2:4001" [1] fuel = .running := by
      rw [pushInbound, show (start 0 : Queues Bytes).outbound.queueCapacity = 0 from rfl, loop_dropOldest_zero]
      rfl
    rw [hrunning] at hcalm
    exact Outcome.not_calm_running hcalm
  · intro h
    have hlen := (h 1 putBack _ rfl).outbound "10.0.0.2:4001"
    exact absurd hlen (by decide)

end Queues

end Onde.Network
