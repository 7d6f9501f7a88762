import Onde.Lib.Bytes
import Onde.Lib.HashMap
import Onde.Lib.Removal

/-!
# The delay-tolerant router

Buffers of messages, one for each node. `store` fills a buffer, `encounter` hands messages over in both directions,
`tick` lowers the time to live; each is run to its end.

* `collectBuffer_eq`: the pass over a buffer, with the positions it collects, is a filter of the buffer;
* `place_spec`: what a full buffer does with one more message;
* `tickBuffer_spec`: what a tick leaves.
-/

namespace Onde.Dtn

open Onde.Lib

/-! ## Messages -/

inductive MessageType where
  | alert | mutualAid | voice | transaction | aiQuery | aiResponse
  deriving DecidableEq

/-- A message; without a destination it is a broadcast. `deliveredTo` are the peers it was handed to before. -/
structure DtnMessage where
  id : String
  sender : String
  destination : Option String
  payload : Bytes
  msgType : MessageType
  ttl : UInt8
  hopCount : UInt8
  timestampMs : UInt64
  priority : UInt8
  deliveredTo : List String
  deriving DecidableEq

/-- Append a peer that is not there yet. -/
def pushUnique (list : List String) (peer : String) : List String :=
  if list.any (· = peer) then list else list ++ [peer]

/-- Mark the receiver and the holder as served. -/
def markServed (list : List String) (fromNode toNode : String) : List String :=
  let list := pushUnique list toNode
  if fromNode ≠ toNode then pushUnique list fromNode else list

theorem mem_pushUnique {list : List String} {peer p : String} : p ∈ pushUnique list peer ↔ p ∈ list ∨ p = peer := by
  unfold pushUnique
  by_cases h : peer ∈ list
  · rw [if_pos (by simpa using h)]
    exact ⟨Or.inl, fun hp => hp.elim id fun he => he ▸ h⟩
  · rw [if_neg (by simpa using h), List.mem_append, List.mem_singleton]

theorem nodup_pushUnique {list : List String} (h : list.Nodup) (peer : String) : (pushUnique list peer).Nodup := by
  unfold pushUnique
  by_cases hp : peer ∈ list
  · rwa [if_pos (by simpa using hp)]
  · rw [if_neg (by simpa using hp)]
    exact List.nodup_append.mpr ⟨h, List.nodup_singleton _, fun a ha b hb hab =>
      hp ((hab.trans (List.mem_singleton.mp hb)) ▸ ha)⟩

theorem mem_markServed {list : List String} {fromNode toNode p : String} :
    p ∈ markServed list fromNode toNode ↔ p ∈ list ∨ p = toNode ∨ p = fromNode := by
  unfold markServed
  dsimp only
  split
  · rw [mem_pushUnique, mem_pushUnique, or_assoc]
  · next h => rw [mem_pushUnique, not_not.mp h, or_self]

theorem nodup_markServed {list : List String} (h : list.Nodup) (fromNode toNode : String) :
    (markServed list fromNode toNode).Nodup := by
  unfold markServed
  dsimp only
  split
  · exact nodup_pushUnique (nodup_pushUnique h toNode) fromNode
  · exact nodup_pushUnique h toNode

namespace DtnMessage

/-- The message has made all the hops its time to live allows. -/
def atHopLimit (msg : DtnMessage) : Bool := msg.ttl ≤ msg.hopCount

def shouldDeliver (toNode : String) (msg : DtnMessage) : Bool :=
  match msg.destination with
  | some dest => dest = toNode
  | none => !msg.deliveredTo.any (· = toNode)

theorem shouldDeliver_broadcast {msg : DtnMessage} {toNode : String} (h : msg.destination = none) :
    msg.shouldDeliver toNode = true ↔ toNode ∉ msg.deliveredTo := by
  simp only [shouldDeliver, h, Bool.not_eq_true', List.any_eq_false, decide_eq_true_eq]
  exact ⟨fun hall hm => hall _ hm rfl, fun hnot p hp he => hnot (he ▸ hp)⟩

/-- The message with receiver and holder marked as served. -/
def served (fromNode toNode : String) (msg : DtnMessage) : DtnMessage :=
  { msg with deliveredTo := markServed msg.deliveredTo fromNode toNode }

/-- The copy handed over. -/
def deliverable (fromNode toNode : String) (msg : DtnMessage) : DtnMessage :=
  { msg.served fromNode toNode with hopCount := msg.hopCount + 1 }

end DtnMessage

/-! ## The pass over a buffer -/

/-- What the pass collects; the counters have 64 bits. -/
structure Collected where
  toRemove : List Nat
  forwarded : List DtnMessage
  forwardedCount : UInt64
  deliveredCount : UInt64
  expiredCount : UInt64

def Collected.start : Collected := ⟨[], [], 0, 0, 0⟩

/-- One turn: the message as it stays at its position, and what is collected. -/
def visit (fromNode toNode : String) (idx : Nat) (msg : DtnMessage) (acc : Collected) : DtnMessage × Collected :=
  if msg.atHopLimit then
    (msg, { acc with expiredCount := acc.expiredCount + 1, toRemove := acc.toRemove ++ [idx] })
  else if msg.shouldDeliver toNode then
    let acc := { acc with
      forwardedCount := acc.forwardedCount + 1
      deliveredCount := acc.deliveredCount + 1
      forwarded := acc.forwarded ++ [msg.deliverable fromNode toNode] }
    match msg.destination with
    | none => (msg.served fromNode toNode, acc)
    | some _ => (msg, { acc with toRemove := acc.toRemove ++ [idx] })
  else (msg, acc)

/-- All turns, from an index on. -/
def visitAll (fromNode toNode : String) : List DtnMessage → Nat → Collected → List DtnMessage × Collected
  | [], _, acc => ([], acc)
  | msg :: rest, idx, acc =>
    let (msg, acc) := visit fromNode toNode idx msg acc
    let (rest, acc) := visitAll fromNode toNode rest (idx + 1) acc
    (msg :: rest, acc)

/-- The buffer after the pass and the removals, and what was collected. -/
def collectBuffer (fromNode toNode : String) (buf : List DtnMessage) : List DtnMessage × Collected :=
  let (buf, acc) := visitAll fromNode toNode buf 0 .start
  (removeAt buf acc.toRemove, acc)

/-- The buffers of the nodes. -/
abbrev Buffers := StrMap (List DtnMessage)

def collectForwarded (buffers : Buffers) (fromNode toNode : String) : Collected × Buffers :=
  match buffers.lookup fromNode with
  | none => (.start, buffers)
  | some buf =>
    let (buf, acc) := collectBuffer fromNode toNode buf
    (acc, buffers.insert fromNode buf)

namespace DtnMessage

/-- Is the message handed over in the pass? -/
def handed (toNode : String) (msg : DtnMessage) : Bool := !msg.atHopLimit && msg.shouldDeliver toNode

/-- Does the message leave the buffer in the pass? -/
def leaves (toNode : String) (msg : DtnMessage) : Bool :=
  msg.atHopLimit || (msg.shouldDeliver toNode && msg.destination.isSome)

/-- The message as the pass leaves it: a broadcast that was handed over is marked. -/
def passed (fromNode toNode : String) (msg : DtnMessage) : DtnMessage :=
  if msg.handed toNode && msg.destination.isNone then msg.served fromNode toNode else msg

end DtnMessage

section Pass

variable (fromNode toNode : String)

/-- What one turn does, by the kind of message. -/
theorem visit_eq (idx : Nat) (msg : DtnMessage) (acc : Collected) : visit fromNode toNode idx msg acc =
    (msg.passed fromNode toNode,
      { toRemove := acc.toRemove ++ if msg.leaves toNode then [idx] else []
        forwarded := acc.forwarded ++ if msg.handed toNode then [msg.deliverable fromNode toNode] else []
        forwardedCount := acc.forwardedCount + if msg.handed toNode then 1 else 0
        deliveredCount := acc.deliveredCount + if msg.handed toNode then 1 else 0
        expiredCount := acc.expiredCount + if msg.atHopLimit then 1 else 0 }) := by
  unfold visit DtnMessage.passed DtnMessage.leaves DtnMessage.handed
  cases msg.atHopLimit with
  | true => simp
  | false =>
    cases msg.shouldDeliver toNode with
    | false => simp
    | true => cases msg.destination <;> simp

/-- **The pass marks the broadcasts it hands over and collects what it hands over and what leaves.** -/
theorem visitAll_eq : ∀ (buf : List DtnMessage) (idx : Nat) (acc : Collected), visitAll fromNode toNode buf idx acc =
    (buf.map (DtnMessage.passed fromNode toNode),
      { toRemove := acc.toRemove ++ (positions (DtnMessage.leaves toNode) buf).map (· + idx)
        forwarded := acc.forwarded ++ (buf.filter (DtnMessage.handed toNode)).map (·.deliverable fromNode toNode)
        forwardedCount := acc.forwardedCount + UInt64.ofNat (buf.countP (DtnMessage.handed toNode))
        deliveredCount := acc.deliveredCount + UInt64.ofNat (buf.countP (DtnMessage.handed toNode))
        expiredCount := acc.expiredCount + UInt64.ofNat (buf.countP DtnMessage.atHopLimit) })
  | [], _, acc => by simp [visitAll, positions]
  | msg :: rest, idx, acc => by
    rw [visitAll, visit_eq]
    dsimp only
    rw [visitAll_eq rest, shift_succ]
    simp only [positions, List.map_append, List.countP_cons, List.filter_cons, UInt64.ofNat_add]
    cases msg.leaves toNode <;> cases msg.handed toNode <;> cases msg.atHopLimit <;>
      simp [UInt64.add_assoc, UInt64.add_comm]

/-- **The pass over a buffer as a filter.** -/
theorem collectBuffer_eq (buf : List DtnMessage) : collectBuffer fromNode toNode buf =
    ((buf.filter fun msg => !msg.leaves toNode).map (DtnMessage.passed fromNode toNode),
      { toRemove := positions (DtnMessage.leaves toNode) buf
        forwarded := (buf.filter (DtnMessage.handed toNode)).map (·.deliverable fromNode toNode)
        forwardedCount := UInt64.ofNat (buf.countP (DtnMessage.handed toNode))
        deliveredCount := UInt64.ofNat (buf.countP (DtnMessage.handed toNode))
        expiredCount := UInt64.ofNat (buf.countP DtnMessage.atHopLimit) }) := by
  rw [collectBuffer, visitAll_eq]
  simp only [Collected.start, List.nil_append, UInt64.zero_add, Nat.add_zero, List.map_id', removeAt_positions]

variable (buffers : Buffers) (node : String)

theorem forwarded_collectForwarded : (collectForwarded buffers fromNode toNode).1.forwarded =
    ((buffers.getD fromNode []).filter (DtnMessage.handed toNode)).map (·.deliverable fromNode toNode) := by
  unfold collectForwarded
  cases hb : buffers.lookup fromNode with
  | none =>
    rw [StrMap.getD_of_none hb]
    rfl
  | some buf =>
    rw [StrMap.getD_of_lookup hb]
    simp only [collectBuffer_eq]

/-- **The buffers after a pass.** -/
theorem getD_collectForwarded : (collectForwarded buffers fromNode toNode).2.getD node [] =
    if node = fromNode then ((buffers.getD fromNode []).filter fun msg => !msg.leaves toNode).map
      (DtnMessage.passed fromNode toNode) else buffers.getD node [] := by
  unfold collectForwarded
  cases hb : buffers.lookup fromNode with
  | none =>
    by_cases hn : node = fromNode
    · subst hn
      rw [if_pos rfl, StrMap.getD_of_none hb]
      rfl
    · rw [if_neg hn]
  | some buf =>
    by_cases hn : node = fromNode
    · subst hn
      rw [if_pos rfl, StrMap.getD_of_lookup hb]
      simp only [collectBuffer_eq, StrMap.getD_insert_self]
    · rw [if_neg hn]
      exact StrMap.getD_insert_ne hn

end Pass

/-! ## The full buffer -/

/-- One turn of the search for the least urgent message: index, priority and time of the worst one so far. -/
def worse (worst : Option (Nat × UInt8 × UInt64)) (i : Nat) (msg : DtnMessage) : Option (Nat × UInt8 × UInt64) :=
  let isWorse := match worst with
    | none => true
    | some (_, wPrio, wTs) => decide (wPrio < msg.priority) || (msg.priority = wPrio && msg.timestampMs < wTs)
  if isWorse then some (i, msg.priority, msg.timestampMs) else worst

/-- The index of the least urgent message, the oldest of these. -/
def worstIndex (buf : List DtnMessage) : Option Nat :=
  (buf.zipIdx.foldl (fun worst m => worse worst m.2 m.1) none).map Prod.fst

theorem worse_some (worst : Option (Nat × UInt8 × UInt64)) (i : Nat) (msg : DtnMessage) :
    worse worst i msg = some (i, msg.priority, msg.timestampMs) ∨ worse worst i msg = worst ∧ worst ≠ none := by
  cases worst with
  | none => exact Or.inl rfl
  | some w =>
    by_cases h : (decide (w.2.1 < msg.priority) || (msg.priority = w.2.1 && msg.timestampMs < w.2.2)) = true
    · exact Or.inl (if_pos h)
    · exact Or.inr ⟨if_neg h, Option.some_ne_none _⟩

/-- The search finds a message of the buffer, with its priority and time, unless the buffer is empty. -/
theorem foldl_worse (buf : List DtnMessage) : ∀ (l : List (DtnMessage × Nat)) (worst : Option (Nat × UInt8 × UInt64)),
    (∀ m ∈ l, buf[m.2]? = some m.1) →
    (∀ w, worst = some w → ∃ m, buf[w.1]? = some m ∧ w.2 = (m.priority, m.timestampMs)) → (worst ≠ none ∨ l ≠ []) →
    ∃ w m, l.foldl (fun worst m => worse worst m.2 m.1) worst = some w ∧ buf[w.1]? = some m ∧
      w.2 = (m.priority, m.timestampMs)
  | [], worst, _, hw, hne => by
    obtain ⟨w, rfl⟩ := Option.ne_none_iff_exists'.mp (hne.resolve_right fun h => h rfl)
    obtain ⟨m, hm, hkey⟩ := hw w rfl
    exact ⟨w, m, rfl, hm, hkey⟩
  | m :: l, worst, hl, hw, hne => by
    have hrest := fun x hx => hl x (List.mem_cons_of_mem _ hx)
    rw [List.foldl_cons]
    rcases worse_some worst m.2 m.1 with h | ⟨h, hworst⟩
    · rw [h]
      refine foldl_worse buf l _ hrest (fun w hw => ?_) (Or.inl (Option.some_ne_none _))
      cases hw
      exact ⟨m.1, hl m List.mem_cons_self, rfl⟩
    · rw [h]
      exact foldl_worse buf l _ hrest hw (Or.inl hworst)

theorem worstIndex_spec (buf : List DtnMessage) :
    (buf = [] ∧ worstIndex buf = none) ∨ ∃ idx worst, worstIndex buf = some idx ∧ buf[idx]? = some worst := by
  cases buf with
  | nil => exact Or.inl ⟨rfl, rfl⟩
  | cons msg rest =>
    obtain ⟨w, m, hw, hm, -⟩ := foldl_worse (msg :: rest) (msg :: rest).zipIdx none
      (fun m hm => List.mem_zipIdx_iff_getElem?.mp hm) (fun _ h => nomatch h) (Or.inr (by simp))
    exact Or.inr ⟨w.1, m, by rw [worstIndex, hw]; rfl, hm⟩

/-- What happens to a message that arrives at a buffer. -/
inductive Admission where
  | stored | replaced | rejected
  deriving DecidableEq

/-- Room for a message in a buffer, and the message in it. -/
def place (maxBuffer : Nat) (buf : List DtnMessage) (msg : DtnMessage) : Admission × List DtnMessage :=
  if maxBuffer ≤ buf.length then
    match worstIndex buf with
    | some idx =>
      match buf[idx]? with
      | some worst =>
        if msg.priority < worst.priority then (.replaced, buf.eraseIdx idx ++ [msg]) else (.rejected, buf)
      | none => (.stored, buf ++ [msg]) -- the index is in range
    | none => (.stored, buf ++ [msg])
  else (.stored, buf ++ [msg])

/-- **What a buffer does with one more message**: it has room, or one message makes room, or it stays as it is. -/
theorem place_spec (maxBuffer : Nat) (buf : List DtnMessage) (msg : DtnMessage) :
    (place maxBuffer buf msg = (.stored, buf ++ [msg]) ∧ (buf.length < maxBuffer ∨ buf = [])) ∨
    (∃ idx worst, place maxBuffer buf msg = (.replaced, buf.eraseIdx idx ++ [msg]) ∧ maxBuffer ≤ buf.length ∧
      worstIndex buf = some idx ∧ buf[idx]? = some worst ∧ msg.priority < worst.priority) ∨
    (place maxBuffer buf msg = (.rejected, buf) ∧ maxBuffer ≤ buf.length ∧
      ∃ idx worst, worstIndex buf = some idx ∧ buf[idx]? = some worst ∧ ¬msg.priority < worst.priority) := by
  unfold place
  by_cases hfull : maxBuffer ≤ buf.length
  · rw [if_pos hfull]
    rcases worstIndex_spec buf with ⟨hempty, hnone⟩ | ⟨idx, worst, hidx, hworst⟩
    · rw [hnone]
      exact Or.inl ⟨rfl, Or.inr hempty⟩
    · simp only [hidx, hworst]
      by_cases hlt : msg.priority < worst.priority
      · rw [if_pos hlt]
        exact Or.inr (Or.inl ⟨idx, worst, rfl, hfull, rfl, hworst, hlt⟩)
      · rw [if_neg hlt]
        exact Or.inr (Or.inr ⟨rfl, hfull, idx, worst, rfl, hworst, hlt⟩)
  · rw [if_neg hfull]
    exact Or.inl ⟨rfl, Or.inl (Nat.lt_of_not_le hfull)⟩

/-! ## The router -/

/-- The counters, of 64 bits. -/
structure RouterStats where
  totalStored : UInt64
  totalForwarded : UInt64
  totalExpired : UInt64
  totalDropped : UInt64
  totalDelivered : UInt64
  deriving DecidableEq

structure DtnRouter where
  buffers : Buffers
  maxBuffer : Nat
  stats : RouterStats

namespace DtnRouter

def new (maxBuffer : Nat) : DtnRouter := ⟨∅, maxBuffer, ⟨0, 0, 0, 0, 0⟩⟩

/-- The buffer of a node, empty if it has none. -/
def buffer (r : DtnRouter) (node : String) : List DtnMessage := r.buffers.getD node []

def bufferSize (r : DtnRouter) (node : String) : Nat := (r.buffer node).length

/-- Store a message; was it stored? -/
def store (r : DtnRouter) (node : String) (msg : DtnMessage) : Bool × DtnRouter :=
  let (admission, buf) := place r.maxBuffer (r.buffer node) msg
  let rejected := decide (admission = .rejected)
  let replaced := decide (admission = .replaced)
  let dropped := if replaced || rejected then r.stats.totalDropped + 1 else r.stats.totalDropped
  let stored := if !rejected then r.stats.totalStored + 1 else r.stats.totalStored
  (!rejected, { r with
    buffers := r.buffers.insert node buf
    stats := { r.stats with totalDropped := dropped, totalStored := stored } })

/-- Two nodes meet: the messages handed to the first one, and to the second one. -/
def encounter (r : DtnRouter) (nodeA nodeB : String) : (List DtnMessage × List DtnMessage) × DtnRouter :=
  let (toA, buffers) := collectForwarded r.buffers nodeB nodeA
  let (toB, buffers) := collectForwarded buffers nodeA nodeB
  ((toA.forwarded, toB.forwarded), { r with
    buffers
    stats := { r.stats with
      totalForwarded := r.stats.totalForwarded + (toA.forwardedCount + toB.forwardedCount)
      totalDelivered := r.stats.totalDelivered + (toA.deliveredCount + toB.deliveredCount)
      totalExpired := r.stats.totalExpired + (toA.expiredCount + toB.expiredCount) } })

/-- The time to live after a tick, not below zero. -/
def aged (msg : DtnMessage) : DtnMessage := { msg with ttl := if msg.ttl = 0 then 0 else msg.ttl - 1 }

/-- The positions of the messages whose time to live ends, from an index on, and these messages. -/
def expiring : List DtnMessage → Nat → List Nat × List DtnMessage
  | [], _ => ([], [])
  | msg :: rest, idx =>
    let (toRemove, expired) := expiring rest (idx + 1)
    if (aged msg).ttl = 0 then (idx :: toRemove, msg :: expired) else (toRemove, expired)

/-- What a tick leaves of a buffer, and what expires. -/
def tickBuffer (buf : List DtnMessage) : List DtnMessage × List DtnMessage :=
  let (toRemove, expired) := expiring buf 0
  ((removeAt buf toRemove).map aged, expired)

/-- Does the tick end the message's time to live? -/
def expires (msg : DtnMessage) : Bool := (aged msg).ttl = 0

theorem expiring_eq : ∀ (buf : List DtnMessage) (idx : Nat),
    expiring buf idx = ((positions expires buf).map (· + idx), buf.filter expires)
  | [], _ => rfl
  | msg :: rest, idx => by
    rw [expiring, expiring_eq rest, positions, shift_succ, List.filter_cons]
    by_cases h : (aged msg).ttl = 0 <;> simp [expires, h]

/-- **A tick as a filter.** -/
theorem tickBuffer_spec (buf : List DtnMessage) :
    tickBuffer buf = ((buf.filter fun msg => !expires msg).map aged, buf.filter expires) := by
  have h := removeAt_positions id expires buf
  rw [List.map_id, List.map_id] at h
  rw [tickBuffer, expiring_eq]
  simp only [Nat.add_zero, List.map_id', h]

/-- One tick of a node: the expired messages. -/
def tick (r : DtnRouter) (node : String) : List DtnMessage × DtnRouter :=
  match r.buffers.lookup node with
  | none => ([], r)
  | some buf =>
    let (buf, expired) := tickBuffer buf
    (expired, { r with
      buffers := r.buffers.insert node buf
      stats := if expired.length = 0 then r.stats
        else { r.stats with totalExpired := r.stats.totalExpired + UInt64.ofNat expired.length } })

/-- **The buffers after a tick.** -/
theorem getD_tick (r : DtnRouter) (node n : String) : (r.tick node).2.buffers.getD n [] =
    if n = node then ((r.buffers.getD node []).filter fun msg => !expires msg).map aged else r.buffers.getD n [] := by
  unfold tick
  cases hb : r.buffers.lookup node with
  | none =>
    by_cases hn : n = node
    · subst hn
      rw [if_pos rfl, StrMap.getD_of_none hb]
      rfl
    · rw [if_neg hn]
  | some buf =>
    by_cases hn : n = node
    · subst hn
      rw [if_pos rfl, StrMap.getD_of_lookup hb]
      simp only [tickBuffer_spec, StrMap.getD_insert_self]
    · rw [if_neg hn]
      exact StrMap.getD_insert_ne hn

end DtnRouter

end Onde.Dtn
