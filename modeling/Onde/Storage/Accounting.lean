import Onde.Storage.MessageStore

/-!
# Do the totals of the message store add up?

* `StoreOp`, `runStore`: the calls that change a store, and their runs from an empty one with its gauges at zero;
* `Accounted`: the ids are distinct, the budget is kept, and the gauges are the count and the two sums;
* `accounted_push`, `accounted_sweep`: what is kept by an insertion within the budget, and by a purge;
* `store_accounting`: every run is accounted.
-/

namespace Onde.Storage

open Onde.Lib

namespace TieredMessageStore

variable {s : TieredMessageStore} {msg : TieredMessage} {deflate : Bytes → Bytes}

/-- The gauges of exactly these messages. -/
def gauges (ms : List TieredMessage) : StorageGauges :=
  ⟨ms.length, (ms.map TieredMessage.originalSize).sum, (ms.map fun m => m.payload.length).sum⟩

/-- The totals of the store are those of its messages. -/
structure Accounted (s : TieredMessageStore) : Prop where
  ids : (s.messages.map TieredMessage.id).Nodup
  budget : s.usedRawBytes ≤ s.policy.maxBytes
  metrics : s.metrics = some (gauges s.messages)

/-- An insertion. -/
def push (s : TieredMessageStore) (msg : TieredMessage) : TieredMessageStore := { s with
  messages := s.messages ++ [msg]
  metrics := s.metrics.map fun m =>
    ⟨m.events + 1, m.rawBytes + msg.originalSize, m.storedBytes + msg.payload.length⟩ }

theorem usedRawBytes_push (s : TieredMessageStore) (msg : TieredMessage) :
    (s.push msg).usedRawBytes = s.usedRawBytes + msg.originalSize := by
  simp [push, usedRawBytes]

theorem gauges_push (ms : List TieredMessage) (msg : TieredMessage) :
    gauges (ms ++ [msg]) = ⟨(gauges ms).events + 1, (gauges ms).rawBytes + msg.originalSize,
      (gauges ms).storedBytes + msg.payload.length⟩ := by
  simp [gauges]

/-- **An insertion of a new id within the budget keeps the totals.** -/
theorem accounted_push (hs : s.Accounted) (hnew : ∀ m ∈ s.messages, m.id ≠ msg.id)
    (hroom : s.usedRawBytes + msg.originalSize ≤ s.policy.maxBytes) : (s.push msg).Accounted := by
  constructor
  · rw [push, List.map_append, List.nodup_append]
    refine ⟨hs.ids, List.pairwise_singleton _ _, ?_⟩
    rintro a ha b hb rfl
    obtain ⟨m, hm, hid⟩ := List.mem_map.mp ha
    exact hnew m hm (hid.trans (List.mem_singleton.mp hb))
  · rw [usedRawBytes_push]
    exact hroom
  · show s.metrics.map _ = some (gauges (s.messages ++ [msg]))
    rw [hs.metrics, gauges_push]
    rfl

/-! ## The machine's sum -/

theorem usedRawBytes64_eq (s : TieredMessageStore) : s.usedRawBytes64 = UInt64.ofNat s.usedRawBytes := by
  have hsum : ∀ (ms : List TieredMessage) (n : Nat),
      ms.foldl (fun sum m => sum + UInt64.ofNat m.originalSize) (UInt64.ofNat n) =
        UInt64.ofNat (n + (ms.map TieredMessage.originalSize).sum) := by
    intro ms
    induction ms with
    | nil => exact fun n => rfl
    | cons m ms ih =>
      intro n
      rw [List.foldl_cons, ← UInt64.ofNat_add, ih, List.map_cons, List.sum_cons, Nat.add_assoc]
  rw [usedRawBytes64, usedRawBytes, ← Nat.zero_add (s.messages.map TieredMessage.originalSize).sum]
  exact hsum s.messages 0

theorem maxBytes_lt (policy : StoragePolicy) : policy.maxBytes < 2 ^ 63 := by
  cases policy <;> decide

/-- Within the budget it is the exact sum. -/
theorem usedRawBytes64_toNat (hs : s.usedRawBytes ≤ s.policy.maxBytes) : s.usedRawBytes64.toNat = s.usedRawBytes := by
  have hmax := maxBytes_lt s.policy
  rw [usedRawBytes64_eq, UInt64.toNat_ofNat']
  exact Nat.mod_eq_of_lt (by omega)

/-- The budget test of a restored message does not wrap. -/
theorem restore_room (hs : s.usedRawBytes ≤ s.policy.maxBytes) (hsize : msg.originalSize < 2 ^ 63) :
    UInt64.ofNat s.policy.maxBytes < s.usedRawBytes64 + UInt64.ofNat msg.originalSize ↔
      s.policy.maxBytes < s.usedRawBytes + msg.originalSize := by
  have hmax := maxBytes_lt s.policy
  rw [usedRawBytes64_eq, ← UInt64.ofNat_add, UInt64.lt_iff_toNat_lt, UInt64.toNat_ofNat', UInt64.toNat_ofNat',
    Nat.mod_eq_of_lt (by omega), Nat.mod_eq_of_lt (by omega)]

/-! ## The calls -/

/-- A message is refused, or new within the budget and inserted. -/
theorem store_cases (deflate : Bytes → Bytes) (s : TieredMessageStore) (id : String) (tier : MessageTier)
    (payload : Bytes) (createdAt : Nat) (geohash : String) :
    let msg : TieredMessage := ⟨id, tier, createdAt, deflate payload, payload.length, geohash⟩
    s.store deflate id tier payload createdAt geohash = (false, s) ∨
      (s.store deflate id tier payload createdAt geohash = (true, s.push msg) ∧
        (∀ m ∈ s.messages, m.id ≠ id) ∧ s.usedRawBytes + payload.length ≤ s.policy.maxBytes) := by
  intro msg
  unfold store
  split
  · exact Or.inl rfl
  · next hid =>
    split
    · exact Or.inl rfl
    · next hroom =>
      split
      · exact Or.inl rfl
      · refine Or.inr ⟨rfl, fun m hm heq => hid (List.any_eq_true.mpr ⟨m, hm, decide_eq_true heq⟩), ?_⟩
        exact Nat.not_lt.mp hroom

/-- And so is one from disk. -/
theorem restore_cases (hs : s.usedRawBytes ≤ s.policy.maxBytes) (hsize : msg.originalSize < 2 ^ 63) :
    (s.restore msg = (false, s) ∧ ((∃ m ∈ s.messages, m.id = msg.id) ∨
      s.policy.maxBytes < s.usedRawBytes + msg.originalSize)) ∨
    (s.restore msg = (true, s.push msg) ∧ (∀ m ∈ s.messages, m.id ≠ msg.id) ∧
      s.usedRawBytes + msg.originalSize ≤ s.policy.maxBytes) := by
  unfold restore
  by_cases hid : s.messages.any fun m => m.id = msg.id
  · obtain ⟨m, hm, heq⟩ := List.any_eq_true.mp hid
    rw [if_pos hid]
    exact Or.inl ⟨rfl, Or.inl ⟨m, hm, of_decide_eq_true heq⟩⟩
  · rw [if_neg hid]
    by_cases hroom : s.policy.maxBytes < s.usedRawBytes + msg.originalSize
    · rw [if_pos ((restore_room hs hsize).mpr hroom)]
      exact Or.inl ⟨rfl, Or.inr hroom⟩
    · rw [if_neg (mt (restore_room hs hsize).mp hroom)]
      refine Or.inr ⟨rfl, fun m hm heq => hid (List.any_eq_true.mpr ⟨m, hm, decide_eq_true heq⟩), ?_⟩
      exact Nat.not_lt.mp hroom

/-- What is purged and what is kept make up the whole. -/
theorem sum_partition (f : TieredMessage → Nat) (keep : TieredMessage → Bool) (ms : List TieredMessage) :
    ((ms.filter fun m => !keep m).map f).sum + ((ms.filter keep).map f).sum = (ms.map f).sum := by
  induction ms with
  | nil => rfl
  | cons m ms ih =>
    cases hk : keep m <;> simp [hk] <;> omega

/-- **A purge keeps the totals.** -/
theorem accounted_sweep (hs : s.Accounted) (now : Nat) : (s.sweepExpired now).2.Accounted := by
  have hraw := sum_partition TieredMessage.originalSize (fun m => m.unexpired now) s.messages
  have hstored := sum_partition (fun m => m.payload.length) (fun m => m.unexpired now) s.messages
  have hcount := List.length_eq_length_filter_add (l := s.messages) fun m => m.unexpired now
  constructor
  · exact hs.ids.sublist (List.Sublist.map _ (List.filter_sublist))
  · have hbudget := hs.budget
    show ((s.messages.filter fun m => m.unexpired now).map TieredMessage.originalSize).sum ≤ s.policy.maxBytes
    rw [usedRawBytes] at hbudget
    omega
  · show s.metrics.map _ = some (gauges (s.messages.filter fun m => m.unexpired now))
    rw [hs.metrics, Option.map_some]
    refine congrArg some ?_
    simp only [gauges, StorageGauges.mk.injEq]
    omega

end TieredMessageStore

/-! ## Runs -/

/-- A call on the store. -/
inductive StoreOp where
  | store (id : String) (tier : MessageTier) (payload : Bytes) (createdAt : Nat) (geohash : String)
  | restore (msg : TieredMessage)
  | sweepExpired (now : Nat)

def StoreOp.apply (deflate : Bytes → Bytes) (s : TieredMessageStore) : StoreOp → TieredMessageStore
  | store id tier payload createdAt geohash => (s.store deflate id tier payload createdAt geohash).2
  | restore msg => (s.restore msg).2
  | sweepExpired now => (s.sweepExpired now).2

/-- What is restored has a size below `2^63`. -/
def StoreOp.Sized : StoreOp → Prop
  | restore msg => msg.originalSize < 2 ^ 63
  | _ => True

open TieredMessageStore

variable {deflate : Bytes → Bytes} {s : TieredMessageStore}

/-- A call keeps the totals. -/
theorem StoreOp.accounted (hs : s.Accounted) {op : StoreOp} (hop : op.Sized) :
    (op.apply deflate s).Accounted := by
  cases op with
  | store id tier payload createdAt geohash =>
    rcases store_cases deflate s id tier payload createdAt geohash with hrefused | ⟨hstored, hnew, hroom⟩
    · rw [apply, hrefused]
      exact hs
    · rw [apply, hstored]
      exact accounted_push hs hnew hroom
  | restore msg =>
    rcases restore_cases hs.budget hop with ⟨hrefused, _⟩ | ⟨hrestored, hnew, hroom⟩
    · rw [apply, hrefused]
      exact hs
    · rw [apply, hrestored]
      exact accounted_push hs hnew hroom
  | sweepExpired now => exact accounted_sweep hs now

/-- An empty store with a fresh registry. -/
def emptyStore (policy : StoragePolicy) (myGeohash : String) : TieredMessageStore :=
  { withGeohash policy myGeohash with metrics := some ⟨0, 0, 0⟩ }

/-- A run of calls. -/
def runStore (deflate : Bytes → Bytes) (s : TieredMessageStore) (ops : List StoreOp) : TieredMessageStore :=
  ops.foldl (StoreOp.apply deflate) s

theorem accounted_run {ops : List StoreOp} (hs : s.Accounted) (hops : ∀ op ∈ ops, op.Sized) :
    (runStore deflate s ops).Accounted := by
  induction ops generalizing s with
  | nil => exact hs
  | cons op ops ih =>
    exact ih (StoreOp.accounted hs (hops op List.mem_cons_self)) fun op' hop' => hops op' (List.mem_cons_of_mem op hop')

/-- No call changes the policy. -/
theorem StoreOp.apply_policy (deflate : Bytes → Bytes) (s : TieredMessageStore) (op : StoreOp) :
    (op.apply deflate s).policy = s.policy := by
  cases op with
  | store id tier payload createdAt geohash =>
    rcases store_cases deflate s id tier payload createdAt geohash with hrefused | ⟨hstored, _⟩
    · rw [apply, hrefused]
    · rw [apply, hstored]
      rfl
  | restore msg =>
    show (s.restore msg).2.policy = s.policy
    unfold TieredMessageStore.restore
    split
    · rfl
    split
    · rfl
    · rfl
  | sweepExpired now => rfl

theorem runStore_policy (deflate : Bytes → Bytes) (s : TieredMessageStore) (ops : List StoreOp) :
    (runStore deflate s ops).policy = s.policy := by
  induction ops generalizing s with
  | nil => rfl
  | cons op ops ih => exact (ih _).trans (op.apply_policy deflate s)

/-- **The message store adds up.** After every sequence of calls the ids are distinct, the used bytes are the sum of the
sizes and within the budget, and the gauges are the exact count and sums. -/
theorem store_accounting {policy : StoragePolicy} {myGeohash : String} {ops : List StoreOp}
    (hops : ∀ op ∈ ops, op.Sized) :
    let s := runStore deflate (emptyStore policy myGeohash) ops
    (s.messages.map TieredMessage.id).Nodup ∧
      s.usedRawBytes64.toNat = (s.messages.map TieredMessage.originalSize).sum ∧
      s.usedRawBytes64.toNat ≤ policy.maxBytes ∧
      s.metrics = some ⟨s.messages.length, (s.messages.map TieredMessage.originalSize).sum, s.usedBytes⟩ := by
  intro s
  have hempty : (emptyStore policy myGeohash).Accounted := ⟨List.nodup_nil, Nat.zero_le _, rfl⟩
  have hs : s.Accounted := accounted_run hempty hops
  have hpolicy : s.policy = policy := runStore_policy deflate (emptyStore policy myGeohash) ops
  have hbudget := hs.budget
  rw [usedRawBytes64_toNat hbudget]
  rw [hpolicy] at hbudget
  exact ⟨hs.ids, rfl, hbudget, hs.metrics⟩

/-- Two messages, one of them expired by the time of the purge. -/
theorem store_accounting_known :
    let deflate := fun data => if data = utf8Bytes "OK" then [0xf3, 0xf7, 0x06, 0x00] else data
    let ops : List StoreOp := [.store "a" .critical (utf8Bytes "OK") 1700000000 "u09tunq",
      .restore ⟨"b", .low, 1700000000, [0xf3, 0xf7, 0x06, 0x00], 2, "u09tunq"⟩, .sweepExpired 1700003600]
    (runStore deflate (emptyStore .mobile "u09tunq") ops).usedRawBytes64.toNat = 2 ∧
      (runStore deflate (emptyStore .mobile "u09tunq") ops).metrics = some ⟨1, 2, 4⟩ := by
  intro deflate ops
  have hsized : ∀ op ∈ ops, op.Sized := by simp [ops, StoreOp.Sized]
  obtain ⟨_, hsum, _, hmetrics⟩ := @store_accounting deflate .mobile "u09tunq" ops hsized
  exact ⟨hsum.trans (by decide), hmetrics.trans (by decide)⟩

end Onde.Storage
