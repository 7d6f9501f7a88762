import Onde.Lib.HashMap
import Onde.Lib.Table
import Onde.Storage.MessageStore

/-!
# The file of the messages

* `SqliteStore`: the table of the messages, whose integer columns are signed;
* `ofMessage`, `toMessage`: a message as a row, and back (`toMessage_ofMessage`);
* `lookup_store`, `lookup_sweepExpired`, `mem_loadAll`: what the statements do, row by row;
* `sweepExpired_keeps`: a purge of the file deletes no message that is within its retention.
-/

namespace Onde.Storage

open Onde.Lib

/-- An unsigned number of 64 bits read as a signed one. -/
def asI64 (n : Nat) : Int :=
  if n % 2 ^ 64 < 2 ^ 63 then (n % 2 ^ 64 : Nat) else (n % 2 ^ 64 : Nat) - 2 ^ 64

/-- And a signed one as an unsigned one. -/
def asU64 (i : Int) : Nat := (i % 2 ^ 64).toNat

theorem asU64_asI64 {n : Nat} (hn : n < 2 ^ 64) : asU64 (asI64 n) = n := by
  unfold asU64 asI64
  split <;> omega

theorem asI64_of_lt {n : Nat} (hn : n < 2 ^ 63) : asI64 n = n := by
  unfold asI64
  split <;> omega

/-- A row of the table, without its key. -/
structure MessageRow where
  tier : String
  createdAt : Int
  payload : Bytes
  originalSize : Int
  geohash : String
  deriving DecidableEq

/-- A label that is none of the others is normal. -/
def parseTier (label : String) : MessageTier :=
  if label = "critical" then .critical
  else if label = "important" then .important
  else if label = "low" then .low
  else .normal

theorem parseTier_label (tier : MessageTier) : parseTier tier.label = tier := by
  cases tier <;> decide

theorem label_injective {tier tier' : MessageTier} (h : tier.label = tier'.label) : tier = tier' := by
  rw [← parseTier_label tier, h, parseTier_label]

namespace MessageRow

/-- The row of a message. -/
def ofMessage (m : TieredMessage) : MessageRow :=
  ⟨m.tier.label, asI64 m.createdAt, m.payload, asI64 m.originalSize, m.geohash⟩

/-- The message of a row. -/
def toMessage (id : String) (r : MessageRow) : TieredMessage :=
  ⟨id, parseTier r.tier, asU64 r.createdAt, r.payload, asU64 r.originalSize, r.geohash⟩

/-- What is read is what was written. -/
theorem toMessage_ofMessage {m : TieredMessage} (hcreated : m.createdAt < 2 ^ 64) (hsize : m.originalSize < 2 ^ 64) :
    (ofMessage m).toMessage m.id = m := by
  rw [toMessage, ofMessage, parseTier_label, asU64_asI64 hcreated, asU64_asI64 hsize]

end MessageRow

/-- The table of the messages. -/
abbrev SqliteStore := Table String MessageRow

namespace SqliteStore

variable {t : SqliteStore} {id : String} {r : MessageRow}

/-- Insert or replace a message. -/
def store (t : SqliteStore) (m : TieredMessage) : SqliteStore := t.put m.id (.ofMessage m)

/-- Delete the rows of one tier that are past its retention. -/
def sweepTier (now : Nat) (t : SqliteStore) (tier : MessageTier) : SqliteStore :=
  let cutoff := asI64 (now - tier.retentionSecs)
  t.filter fun _ r => !(r.tier = tier.label && r.createdAt < cutoff)

/-- Delete the expired rows, tier by tier. -/
def sweepExpired (t : SqliteStore) (now : Nat) : SqliteStore :=
  [MessageTier.critical, .important, .normal, .low].foldl (sweepTier now) t

/-- All messages, in the order the rows come in. -/
def loadAll (order : HashOrder) (t : SqliteStore) : List TieredMessage :=
  (order.order t.keys).filterMap fun id => (t.lookup id).map (MessageRow.toMessage id)

theorem lookup_store (t : SqliteStore) (m : TieredMessage) (id : String) :
    (t.store m).lookup id = if id = m.id then some (.ofMessage m) else t.lookup id := Table.lookup_put t m.id _ id

theorem lookup_sweepTier {now : Nat} {tier : MessageTier} : (sweepTier now t tier).lookup id = some r ↔
    t.lookup id = some r ∧ (r.tier = tier.label → asI64 (now - tier.retentionSecs) ≤ r.createdAt) := by
  rw [sweepTier, Table.lookup_filter_some]
  refine and_congr_right fun _ => ?_
  rw [imp_iff_not_or]
  simp

/-- **A purge deletes the rows past the retention of their tier**, and no others. -/
theorem lookup_sweepExpired {now : Nat} : (t.sweepExpired now).lookup id = some r ↔
    t.lookup id = some r ∧
      ∀ tier : MessageTier, r.tier = tier.label → asI64 (now - tier.retentionSecs) ≤ r.createdAt := by
  unfold sweepExpired
  simp only [List.foldl_cons, List.foldl_nil, lookup_sweepTier]
  constructor
  · rintro ⟨⟨⟨⟨hl, hcritical⟩, himportant⟩, hnormal⟩, hlow⟩
    exact ⟨hl, fun tier => by cases tier <;> assumption⟩
  · rintro ⟨hl, hall⟩
    exact ⟨⟨⟨⟨hl, hall _⟩, hall _⟩, hall _⟩, hall _⟩

/-- A purge keeps the row of a message within its retention. -/
theorem sweepExpired_keeps {now : Nat} {m : TieredMessage} (hnow : now < 2 ^ 63) (hcreated : m.createdAt < 2 ^ 63)
    (hm : m.unexpired now = true) (hl : t.lookup m.id = some (.ofMessage m)) :
    (t.sweepExpired now).lookup m.id = some (.ofMessage m) := by
  refine lookup_sweepExpired.mpr ⟨hl, fun tier htier => ?_⟩
  obtain rfl := label_injective htier
  have hret := of_decide_eq_true hm
  show asI64 (now - m.tier.retentionSecs) ≤ asI64 m.createdAt
  rw [asI64_of_lt hcreated, asI64_of_lt (by omega)]
  omega

theorem mem_loadAll {order : HashOrder} {m : TieredMessage} :
    m ∈ t.loadAll order ↔ ∃ r, t.lookup m.id = some r ∧ r.toMessage m.id = m := by
  rw [loadAll, List.mem_filterMap]
  constructor
  · rintro ⟨id, _, hm⟩
    obtain ⟨r, hr, rfl⟩ := Option.map_eq_some_iff.mp hm
    exact ⟨r, hr, rfl⟩
  · rintro ⟨r, hr, hm⟩
    refine ⟨m.id, (order.mem _ _).mpr (Finmap.mem_keys.mpr (Table.mem_of_lookup hr)), ?_⟩
    rw [hr, Option.map_some, hm]

/-- Every id is loaded once. -/
theorem loadAll_nodup (order : HashOrder) (t : SqliteStore) : ((t.loadAll order).map TieredMessage.id).Nodup := by
  have hids : (t.loadAll order).map TieredMessage.id = order.order t.keys := by
    rw [loadAll, List.map_filterMap]
    have hmap : ∀ id ∈ order.order t.keys,
        ((t.lookup id).map (MessageRow.toMessage id)).map TieredMessage.id = some id := by
      intro id hid
      obtain ⟨r, hr⟩ := Finmap.mem_iff.mp (Finmap.mem_keys.mp ((order.mem _ _).mp hid))
      rw [hr]
      rfl
    rw [List.filterMap_congr hmap, List.filterMap_some]
  rw [hids]
  exact order.nodup _

end SqliteStore

end Onde.Storage
