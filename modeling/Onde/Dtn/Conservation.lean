import Onde.Dtn.Router

/-!
# Conservation of messages

`Tally` counts, beside the router, what was stored, replaced, rejected, delivered to its destination and expired.

* `size_pass`: what leaves a buffer in an encounter was delivered to its destination or had reached its hop limit;
* `Balanced`: the accounts, kept by each operation (`Balanced.store`, `Balanced.encounter`, `Balanced.tick`);
* `conservation`: they hold after every sequence of operations.
-/

namespace Onde.Dtn

open Onde.Lib

namespace DtnMessage

/-- Has the message a destination? -/
def unicast (msg : DtnMessage) : Bool := msg.destination.isSome

@[simp] theorem unicast_deliverable (fromNode toNode : String) (msg : DtnMessage) :
    (msg.deliverable fromNode toNode).unicast = msg.unicast := rfl

end DtnMessage

namespace Buffers

/-- The number of messages in all buffers. -/
def size (buffers : Buffers) : Nat := StrMap.total List.length buffers

/-- The messages of a buffer at their hop limit. -/
def atLimit (buffers : Buffers) (node : String) : Nat := (buffers.getD node []).countP DtnMessage.atHopLimit

/-- One buffer in place of another. -/
theorem size_insert (buffers : Buffers) (node : String) (buf : List DtnMessage) :
    size (buffers.insert node buf) + (buffers.getD node []).length = buffers.size + buf.length := by
  have h := StrMap.total_insert List.length buffers node buf
  rw [StrMap.getD, size, size]
  cases hb : buffers.lookup node with
  | none => simpa [hb] using h
  | some old => simpa [hb] using h

end Buffers

/-! ## One pass -/

/-- What leaves the buffer is at its hop limit, or handed to its destination, not both. -/
theorem leaves_cases (toNode : String) (msg : DtnMessage) : (if msg.leaves toNode then 1 else 0) =
    (if msg.atHopLimit then 1 else 0) + if msg.unicast && msg.handed toNode then 1 else 0 := by
  unfold DtnMessage.leaves DtnMessage.handed DtnMessage.unicast
  cases msg.atHopLimit <;> cases msg.shouldDeliver toNode <;> cases msg.destination.isSome <;> rfl

theorem countP_leaves (toNode : String) : ∀ buf : List DtnMessage, buf.countP (DtnMessage.leaves toNode) =
    buf.countP DtnMessage.atHopLimit + buf.countP fun msg => msg.unicast && msg.handed toNode
  | [] => rfl
  | msg :: rest => by
    have ih := countP_leaves toNode rest
    have hcases := leaves_cases toNode msg
    rw [List.countP_cons, List.countP_cons, List.countP_cons]
    omega

theorem length_pass (fromNode toNode : String) (buf : List DtnMessage) :
    (buf.filter fun msg => !msg.leaves toNode).length +
      ((buf.filter (DtnMessage.handed toNode)).map (·.deliverable fromNode toNode)).countP DtnMessage.unicast +
      buf.countP DtnMessage.atHopLimit = buf.length := by
  have hunicast : ((buf.filter (DtnMessage.handed toNode)).map (·.deliverable fromNode toNode)).countP
      DtnMessage.unicast = buf.countP fun msg => msg.unicast && msg.handed toNode := by
    rw [List.countP_map, List.countP_filter]
    rfl
  have hsplit := List.length_eq_countP_add_countP (DtnMessage.leaves toNode) (l := buf)
  have hstay : (buf.filter fun msg => !msg.leaves toNode).length =
      buf.countP fun msg => decide ¬msg.leaves toNode = true := by
    rw [← List.countP_eq_length_filter]
    exact List.countP_congr fun msg _ => by simp
  have hleaves := countP_leaves toNode buf
  omega

/-- **What leaves the buffers in a pass.** -/
theorem size_pass (buffers : Buffers) (fromNode toNode : String) :
    let r := collectForwarded buffers fromNode toNode
    r.2.size + r.1.forwarded.countP DtnMessage.unicast + buffers.atLimit fromNode = buffers.size ∧
      r.1.expiredCount = UInt64.ofNat (buffers.atLimit fromNode) := by
  unfold collectForwarded Buffers.atLimit StrMap.getD
  cases hb : buffers.lookup fromNode with
  | none => exact ⟨rfl, rfl⟩
  | some buf =>
    have hpass := length_pass fromNode toNode buf
    have hsize := buffers.size_insert fromNode (collectBuffer fromNode toNode buf).1
    rw [StrMap.getD, hb, Option.getD_some] at hsize
    simp only [collectBuffer_eq, List.length_map, Option.getD_some] at hsize hpass ⊢
    exact ⟨by omega, trivial⟩

/-- A pass makes no buffer longer. -/
theorem length_collectForwarded (buffers : Buffers) (fromNode toNode node : String) :
    ((collectForwarded buffers fromNode toNode).2.getD node []).length ≤ (buffers.getD node []).length := by
  rw [getD_collectForwarded]
  split
  · next h =>
    rw [h, List.length_map]
    exact List.length_filter_le _ _
  · exact Nat.le_refl _

/-! ## The accounts -/

/-- A call of the router. -/
inductive RouterOp where
  | store (node : String) (msg : DtnMessage)
  | encounter (nodeA nodeB : String)
  | tick (node : String)

/-- The router, with what happened to the messages so far. -/
structure Tally where
  router : DtnRouter
  stored : Nat
  replaced : Nat
  rejected : Nat
  unicast : Nat
  expired : Nat

namespace Tally

def new (maxBuffer : Nat) : Tally := ⟨.new maxBuffer, 0, 0, 0, 0, 0⟩

def store (t : Tally) (node : String) (msg : DtnMessage) : Tally :=
  let admission := (place t.router.maxBuffer (t.router.buffer node) msg).1
  { t with
    router := (t.router.store node msg).2
    stored := t.stored + if admission = .rejected then 0 else 1
    replaced := t.replaced + if admission = .replaced then 1 else 0
    rejected := t.rejected + if admission = .rejected then 1 else 0 }

def encounter (t : Tally) (nodeA nodeB : String) : Tally :=
  let ((toA, toB), router) := t.router.encounter nodeA nodeB
  { t with
    router
    unicast := t.unicast + (toA.countP DtnMessage.unicast + toB.countP DtnMessage.unicast)
    expired := t.expired + (t.router.buffers.atLimit nodeB +
      Buffers.atLimit (collectForwarded t.router.buffers nodeB nodeA).2 nodeA) }

def tick (t : Tally) (node : String) : Tally :=
  let (expired, router) := t.router.tick node
  { t with router, expired := t.expired + expired.length }

def step (t : Tally) : RouterOp → Tally
  | .store node msg => t.store node msg
  | .encounter nodeA nodeB => t.encounter nodeA nodeB
  | .tick node => t.tick node

/-- The accounts after a sequence of calls. -/
def after (maxBuffer : Nat) (ops : List RouterOp) : Tally := ops.foldl step (new maxBuffer)

/-- The accounts balance, the counters of the router are those of the accounts, and no buffer is too long. -/
structure Balanced (t : Tally) : Prop where
  size : t.router.buffers.size + t.replaced + t.unicast + t.expired = t.stored
  stored : t.router.stats.totalStored = UInt64.ofNat t.stored
  expired : t.router.stats.totalExpired = UInt64.ofNat t.expired
  dropped : t.router.stats.totalDropped = UInt64.ofNat (t.replaced + t.rejected)
  bound : ∀ node, t.router.bufferSize node ≤ max 1 t.router.maxBuffer

variable {t : Tally}

theorem balanced_new (maxBuffer : Nat) : (new maxBuffer).Balanced :=
  ⟨rfl, rfl, rfl, rfl, fun _ => Nat.zero_le _⟩

/-- A buffer in place of another keeps the bound if it does. -/
theorem bound_insert {buffers : Buffers} {node : String} {buf : List DtnMessage} {n : Nat}
    (h : ∀ k, (buffers.getD k []).length ≤ n) (hbuf : buf.length ≤ n) (k : String) :
    (StrMap.getD (buffers.insert node buf) k []).length ≤ n := by
  by_cases hk : k = node
  · subst hk
    rwa [StrMap.getD_insert_self]
  · rw [StrMap.getD_insert_ne hk]
    exact h k

theorem Balanced.store (hb : t.Balanced) (node : String) (msg : DtnMessage) : (t.store node msg).Balanced := by
  have hsize := hb.size
  have hbuf : (t.router.buffer node).length ≤ max 1 t.router.maxBuffer := hb.bound node
  have hinsert (buf : List DtnMessage) : Buffers.size (t.router.buffers.insert node buf) +
      (t.router.buffer node).length = t.router.buffers.size + buf.length := t.router.buffers.size_insert node buf
  unfold Tally.store DtnRouter.store
  rcases place_spec t.router.maxBuffer (t.router.buffer node) msg with
    ⟨ha, hroom⟩ | ⟨idx, worst, ha, hfull, -, hidx, -⟩ | ⟨ha, hfull, -⟩
  · have hnew : (t.router.buffer node ++ [msg]).length ≤ max 1 t.router.maxBuffer := by
      rw [List.length_append, List.length_singleton]
      rcases hroom with hlt | hempty
      · omega
      · simp [hempty]
    have hlen := hinsert (t.router.buffer node ++ [msg])
    rw [List.length_append, List.length_singleton] at hlen
    rw [ha]
    refine ⟨?_, ?_, hb.expired, ?_, bound_insert hb.bound hnew⟩
    · simp
      omega
    · simp [hb.stored]
    · simp [hb.dropped]
  · have herase : (t.router.buffer node).length = ((t.router.buffer node).eraseIdx idx).length + 1 := by
      have hlt := (List.getElem?_eq_some_iff.mp hidx).1
      rw [List.length_eraseIdx_of_lt hlt]
      omega
    have hnew : ((t.router.buffer node).eraseIdx idx ++ [msg]).length ≤ max 1 t.router.maxBuffer := by
      rw [List.length_append, List.length_singleton]
      omega
    have hlen := hinsert ((t.router.buffer node).eraseIdx idx ++ [msg])
    rw [List.length_append, List.length_singleton] at hlen
    rw [ha]
    refine ⟨?_, ?_, hb.expired, ?_, bound_insert hb.bound hnew⟩
    · simp
      omega
    · simp [hb.stored]
    · simp [hb.dropped, Nat.add_right_comm]
  · have hlen := hinsert (t.router.buffer node)
    rw [ha]
    refine ⟨?_, ?_, hb.expired, ?_, bound_insert hb.bound hbuf⟩
    · simp
      omega
    · simp [hb.stored]
    · simp [hb.dropped, ← Nat.add_assoc]

theorem Balanced.encounter (hb : t.Balanced) (nodeA nodeB : String) : (t.encounter nodeA nodeB).Balanced := by
  obtain ⟨hsizeA, hexpiredA⟩ := size_pass t.router.buffers nodeB nodeA
  obtain ⟨hsizeB, hexpiredB⟩ := size_pass (collectForwarded t.router.buffers nodeB nodeA).2 nodeA nodeB
  have hsize := hb.size
  refine ⟨?_, hb.stored, ?_, hb.dropped, fun node => ?_⟩
  · simp only [Tally.encounter, DtnRouter.encounter]
    omega
  · simp only [Tally.encounter, DtnRouter.encounter, hb.expired, hexpiredA, hexpiredB, UInt64.ofNat_add]
  · exact (length_collectForwarded _ nodeA nodeB node).trans
      ((length_collectForwarded _ nodeB nodeA node).trans (hb.bound node))

theorem Balanced.tick (hb : t.Balanced) (node : String) : (t.tick node).Balanced := by
  have hsize := hb.size
  unfold Tally.tick DtnRouter.tick
  cases hlookup : t.router.buffers.lookup node with
  | none => exact hb
  | some buf =>
    have hbuf : buf.length ≤ max 1 t.router.maxBuffer := by
      have h := hb.bound node
      rwa [DtnRouter.bufferSize, DtnRouter.buffer, StrMap.getD_of_lookup hlookup] at h
    have hinsert := t.router.buffers.size_insert node (DtnRouter.tickBuffer buf).1
    rw [StrMap.getD_of_lookup hlookup] at hinsert
    -- what stays and what expires is the whole buffer
    have hsplit : (DtnRouter.tickBuffer buf).1.length + (DtnRouter.tickBuffer buf).2.length = buf.length := by
      have h := List.length_eq_length_filter_add DtnRouter.expires (l := buf)
      simp only [DtnRouter.tickBuffer_spec, List.length_map]
      omega
    have hleft : (DtnRouter.tickBuffer buf).1.length ≤ max 1 t.router.maxBuffer := by omega
    refine ⟨?_, ?_, ?_, ?_, bound_insert hb.bound hleft⟩
    · simp only
      omega
    all_goals
      simp only
      split
    · exact hb.stored
    · exact hb.stored
    · next hnone => rw [hb.expired, hnone, Nat.add_zero]
    · rw [hb.expired, UInt64.ofNat_add]
    · exact hb.dropped
    · exact hb.dropped

theorem Balanced.step (hb : t.Balanced) : ∀ op : RouterOp, (t.step op).Balanced
  | .store node msg => hb.store node msg
  | .encounter nodeA nodeB => hb.encounter nodeA nodeB
  | .tick node => hb.tick node

/-- No call changes the capacity. -/
theorem maxBuffer_step (t : Tally) (op : RouterOp) : (t.step op).router.maxBuffer = t.router.maxBuffer := by
  cases op with
  | store node msg => rfl
  | encounter nodeA nodeB => rfl
  | tick node =>
    show (t.router.tick node).2.maxBuffer = _
    unfold DtnRouter.tick
    split <;> rfl

theorem maxBuffer_after (maxBuffer : Nat) (ops : List RouterOp) :
    (after maxBuffer ops).router.maxBuffer = maxBuffer := by
  induction ops using List.reverseRecOn with
  | nil => rfl
  | append_singleton ops op ih =>
    rw [after, List.foldl_append]
    exact (maxBuffer_step _ op).trans ih

theorem balanced_after (maxBuffer : Nat) : ∀ ops : List RouterOp, (after maxBuffer ops).Balanced := by
  intro ops
  induction ops using List.reverseRecOn with
  | nil => exact balanced_new maxBuffer
  | append_singleton ops op ih =>
    rw [after, List.foldl_append]
    exact ih.step op

/-- **Conservation of messages.** After every sequence of calls the messages in the buffers are those stored without
those replaced, delivered to their destination and expired; the dropped ones are those replaced and those rejected; and
no buffer is longer than the capacity, or than one message. The counters of the router are the numbers of the accounts
modulo `2^64`, so that the equations hold of them in their own arithmetic. -/
theorem conservation (maxBuffer : Nat) (ops : List RouterOp) :
    let t := after maxBuffer ops
    UInt64.ofNat t.router.buffers.size = t.router.stats.totalStored - UInt64.ofNat t.replaced -
        UInt64.ofNat t.unicast - t.router.stats.totalExpired ∧
      t.router.stats.totalDropped = UInt64.ofNat t.replaced + UInt64.ofNat t.rejected ∧
      (∀ node, t.router.bufferSize node ≤ max 1 maxBuffer) ∧
      t.router.buffers.size + t.replaced + t.unicast + t.expired = t.stored ∧
      t.router.stats.totalStored.toNat = t.stored % 2 ^ 64 ∧ t.router.stats.totalExpired.toNat = t.expired % 2 ^ 64 ∧
      t.router.stats.totalDropped.toNat = (t.replaced + t.rejected) % 2 ^ 64 := by
  intro t
  have hb : t.Balanced := balanced_after maxBuffer ops
  refine ⟨?_, ?_, fun node => ?_, hb.size, ?_, ?_, ?_⟩
  · rw [hb.stored, hb.expired, ← hb.size]
    simp only [UInt64.ofNat_add]
    grind
  · rw [hb.dropped, UInt64.ofNat_add]
  · have h := hb.bound node
    rwa [maxBuffer_after] at h
  · rw [hb.stored, UInt64.toNat_ofNat']
  · rw [hb.expired, UInt64.toNat_ofNat']
  · rw [hb.dropped, UInt64.toNat_ofNat']

end Tally

end Onde.Dtn
