import Onde.Lib.Bytes

/-!
# The tiered message store

`TieredMessageStore.store` keeps a compressed message unless its id is already stored, the raw budget is spent or the
message is out of the neighbourhood. Ids stay distinct and the budget is kept (`store_spec`). `restore` takes a message
back from disk, and `sweepExpired` drops what is past its retention.
-/

namespace Onde.Storage

open Onde.Lib

inductive MessageTier where
  | critical | important | normal | low
  deriving DecidableEq

/-- How long a message is kept, in seconds. -/
def MessageTier.retentionSecs : MessageTier → Nat
  | critical => 7 * 24 * 3600
  | important => 2 * 24 * 3600
  | normal => 6 * 3600
  | low => 3600

def MessageTier.label : MessageTier → String
  | critical => "critical"
  | important => "important"
  | normal => "normal"
  | low => "low"

/-- A stored message, with its compressed payload. -/
structure TieredMessage where
  id : String
  tier : MessageTier
  createdAt : Nat
  payload : Bytes
  originalSize : Nat
  geohash : String
  deriving DecidableEq

/-- The message is within its retention. -/
def TieredMessage.unexpired (now : Nat) (m : TieredMessage) : Bool := now - m.createdAt < m.tier.retentionSecs

inductive StoragePolicy where
  | mobile | desktop | gateway
  deriving DecidableEq

/-- The budget, in raw bytes. -/
def StoragePolicy.maxBytes : StoragePolicy → Nat
  | .mobile => 64 * 1024 * 1024
  | .desktop => 2 * 1024 * 1024 * 1024
  | .gateway => 16 * 1024 * 1024 * 1024

/-- The gauges of the store. -/
structure StorageGauges where
  events : Nat
  rawBytes : Nat
  storedBytes : Nat
  deriving DecidableEq

structure TieredMessageStore where
  messages : List TieredMessage
  policy : StoragePolicy
  myGeohash : String
  metrics : Option StorageGauges

namespace TieredMessageStore

def withGeohash (policy : StoragePolicy) (myGeohash : String) : TieredMessageStore := ⟨[], policy, myGeohash, none⟩

/-- The length of the common prefix asked for. -/
def shardPrefixLen (s : TieredMessageStore) : Nat :=
  match s.policy with
  | .mobile => 5
  | .desktop => 4
  | .gateway => 3

def usedRawBytes (s : TieredMessageStore) : Nat := (s.messages.map TieredMessage.originalSize).sum

/-- The same sum as the machine adds it. -/
def usedRawBytes64 (s : TieredMessageStore) : UInt64 :=
  s.messages.foldl (fun sum m => sum + UInt64.ofNat m.originalSize) 0

/-- The size of what is stored. -/
def usedBytes (s : TieredMessageStore) : Nat := (s.messages.map fun m => m.payload.length).sum

/-- Is a message of the neighbourhood, or critical? -/
def shouldStoreLocally (geohash myGeohash : String) (tier : MessageTier) (prefixLen : Nat) : Bool :=
  if tier = .critical then true
  else if prefixLen = 0 then false
  else
    let common := ((geohash.toList.zip myGeohash.toList).takeWhile fun p => p.1 = p.2).length
    prefixLen ≤ common

/-- Store a message; `deflate` compresses. -/
def store (deflate : Bytes → Bytes) (s : TieredMessageStore) (id : String) (tier : MessageTier) (payload : Bytes)
    (createdAt : Nat) (geohash : String) : Bool × TieredMessageStore :=
  if s.messages.any fun m => m.id = id then (false, s)
  else if s.policy.maxBytes < s.usedRawBytes + payload.length then (false, s)
  else if !shouldStoreLocally geohash s.myGeohash tier s.shardPrefixLen then (false, s)
  else
    let compressed := deflate payload
    (true, { s with
      messages := s.messages ++ [⟨id, tier, createdAt, compressed, payload.length, geohash⟩]
      metrics := s.metrics.map fun m =>
        ⟨m.events + 1, m.rawBytes + payload.length, m.storedBytes + compressed.length⟩ })

/-- Take back a message from disk, its payload compressed already. -/
def restore (s : TieredMessageStore) (msg : TieredMessage) : Bool × TieredMessageStore :=
  if s.messages.any fun m => m.id = msg.id then (false, s)
  else if UInt64.ofNat s.policy.maxBytes < s.usedRawBytes64 + UInt64.ofNat msg.originalSize then (false, s)
  else
    (true, { s with
      messages := s.messages ++ [msg]
      metrics := s.metrics.map fun m =>
        ⟨m.events + 1, m.rawBytes + msg.originalSize, m.storedBytes + msg.payload.length⟩ })

/-- Drop the expired messages; the gauges never go below zero. -/
def sweepExpired (s : TieredMessageStore) (now : Nat) : Nat × TieredMessageStore :=
  let kept := s.messages.filter fun m => m.unexpired now
  let purged := s.messages.filter fun m => !m.unexpired now
  (s.messages.length - kept.length, { s with
    messages := kept
    metrics := s.metrics.map fun m => ⟨m.events - purged.length,
      m.rawBytes - (purged.map TieredMessage.originalSize).sum,
      m.storedBytes - (purged.map fun m => m.payload.length).sum⟩ })

/-- **Ids stay distinct and the raw budget is kept.** -/
theorem store_spec {deflate : Bytes → Bytes} {s : TieredMessageStore} {id : String} {tier : MessageTier}
    {payload : Bytes} {createdAt : Nat} {geohash : String} (hn : (s.messages.map TieredMessage.id).Nodup)
    (hb : s.usedRawBytes ≤ s.policy.maxBytes) :
    let r := s.store deflate id tier payload createdAt geohash
    (r.2.messages.map TieredMessage.id).Nodup ∧ r.2.usedRawBytes ≤ r.2.policy.maxBytes ∧
      (r.1 = true → ∃ m ∈ r.2.messages, m.id = id ∧ m.payload = deflate payload) := by
  intro r
  show ((s.store deflate id tier payload createdAt geohash).2.messages.map TieredMessage.id).Nodup ∧
    (s.store deflate id tier payload createdAt geohash).2.usedRawBytes ≤ _ ∧ _
  unfold r store
  by_cases hid : s.messages.any fun m => m.id = id
  · rw [if_pos hid]
    exact ⟨hn, hb, fun h => nomatch h⟩
  rw [if_neg hid]
  by_cases hbudget : s.policy.maxBytes < s.usedRawBytes + payload.length
  · rw [if_pos hbudget]
    exact ⟨hn, hb, fun h => nomatch h⟩
  rw [if_neg hbudget]
  by_cases hlocal : shouldStoreLocally geohash s.myGeohash tier s.shardPrefixLen
  · have hnew : ∀ m ∈ s.messages, m.id ≠ id := fun m hm he =>
      hid (List.any_eq_true.mpr ⟨m, hm, by simpa using he⟩)
    simp only [hlocal, Bool.not_true, Bool.false_eq_true, if_false]
    refine ⟨?_, ?_, fun _ => ⟨_, List.mem_append_right _ List.mem_cons_self, rfl, rfl⟩⟩
    · rw [List.map_append, List.nodup_append]
      refine ⟨hn, by simp, ?_⟩
      rintro a ha b hb rfl
      obtain ⟨m, hm, rfl⟩ := List.mem_map.mp ha
      exact hnew m hm (by simpa using hb)
    · simp only [usedRawBytes, List.map_append, List.sum_append, List.map_cons, List.map_nil, List.sum_cons,
        List.sum_nil] at hbudget ⊢
      omega
  · simp only [hlocal, Bool.not_false, if_true]
    exact ⟨hn, hb, fun h => nomatch h⟩

end TieredMessageStore

end Onde.Storage
