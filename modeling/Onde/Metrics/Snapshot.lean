import Onde.Lib.Template
import Onde.Metrics.Registry

/-!
# The snapshot of the metrics

* `NodeMetrics`: the values of the registry, and `record`: what a call makes of them;
* `snapshotJson`: their compact JSON, the body of the health endpoint;
* `snapshotJson_inj`: which tells every value.
-/

namespace Onde.Metrics

open Onde.Lib

/-- The values of the registry, and when it was created. -/
structure NodeMetrics where
  startedAt : UInt64
  counters : Counter → UInt64

/-- What a call makes of the values. -/
def NodeMetrics.record (m : NodeMetrics) (call : MetricsCall) : NodeMetrics :=
  { m with counters := call.ops.foldl (fun cs d => Function.update cs d.1 (d.2.effect (cs d.1))) m.counters }

/-- The connectivity gauges. -/
structure PeerHealth where
  known : UInt64
  synced : UInt64

/-- The cumulative counters. -/
structure CounterSet where
  messagesIngested : UInt64
  messagesRejected : UInt64
  messagesGossiped : UInt64
  messagesDuplicated : UInt64
  healthRequests : UInt64

/-- The storage gauges. -/
structure StorageHealth where
  events : UInt64
  bytesRaw : UInt64
  bytesStored : UInt64

/-- The body of the health endpoint. -/
structure MetricsSnapshot where
  status : String
  uptimeS : UInt64
  peers : PeerHealth
  metrics : CounterSet
  storage : StorageHealth

/-- A snapshot at a time. -/
def NodeMetrics.snapshot (m : NodeMetrics) (unixNow : UInt64) : MetricsSnapshot where
  status := "ok"
  uptimeS := if unixNow < m.startedAt then 0 else unixNow - m.startedAt
  peers := ⟨m.counters .peersKnown, m.counters .peersSynced⟩
  metrics := ⟨m.counters .messagesIngested, m.counters .messagesRejected, m.counters .messagesGossiped,
    m.counters .messagesDuplicated, m.counters .healthRequests⟩
  storage := ⟨m.counters .storageEvents, m.counters .storageRawBytes, m.counters .storageStoredBytes⟩

/-- An unsigned number in JSON. -/
def num (n : UInt64) : Json := .num (.posInt n)

/-- The JSON value of a snapshot, its fields in the order of their declaration. -/
def MetricsSnapshot.toJson (s : MetricsSnapshot) : Json :=
  .obj [("status", .str s.status), ("uptime_s", num s.uptimeS),
    ("peers", .obj [("known", num s.peers.known), ("synced", num s.peers.synced)]),
    ("metrics", .obj [("messages_ingested", num s.metrics.messagesIngested),
      ("messages_rejected", num s.metrics.messagesRejected), ("messages_gossiped", num s.metrics.messagesGossiped),
      ("messages_duplicated", num s.metrics.messagesDuplicated), ("health_requests", num s.metrics.healthRequests)]),
    ("storage", .obj [("events", num s.storage.events), ("bytes_raw", num s.storage.bytesRaw),
      ("bytes_stored", num s.storage.bytesStored)])]

/-- The snapshot as one line of JSON. -/
def NodeMetrics.snapshotJson (m : NodeMetrics) (unixNow : UInt64) : String := (m.snapshot unixNow).toJson.render

/-- What stands before the value of a field. -/
def label (name : String) : List Char := Json.quote name ++ [':']

/-- The numbers of a snapshot, each with the text before it. -/
def MetricsSnapshot.pieces (s : MetricsSnapshot) : List (List Char × Nat) :=
  [('{' :: label "status" ++ Json.quote s.status ++ ',' :: label "uptime_s", s.uptimeS.toNat),
    (',' :: label "peers" ++ '{' :: label "known", s.peers.known.toNat), (',' :: label "synced", s.peers.synced.toNat),
    ('}' :: ',' :: label "metrics" ++ '{' :: label "messages_ingested", s.metrics.messagesIngested.toNat),
    (',' :: label "messages_rejected", s.metrics.messagesRejected.toNat),
    (',' :: label "messages_gossiped", s.metrics.messagesGossiped.toNat),
    (',' :: label "messages_duplicated", s.metrics.messagesDuplicated.toNat),
    (',' :: label "health_requests", s.metrics.healthRequests.toNat),
    ('}' :: ',' :: label "storage" ++ '{' :: label "events", s.storage.events.toNat),
    (',' :: label "bytes_raw", s.storage.bytesRaw.toNat), (',' :: label "bytes_stored", s.storage.bytesStored.toNat)]

theorem chars_toJson (s : MetricsSnapshot) : s.toJson.chars = fill s.pieces ['}', '}'] := by
  simp [MetricsSnapshot.toJson, num, Json.chars, Json.charsFields, JsonNumber.render, MetricsSnapshot.pieces, fill,
    label]

theorem pieces_closed (s : MetricsSnapshot) : Pieces s.pieces := by
  simp [Pieces, MetricsSnapshot.pieces, Json.closed_cons]

theorem pieces_inj {s t : MetricsSnapshot} (hstatus : s.status = t.status) (h : s.pieces = t.pieces) : s = t := by
  obtain ⟨status, uptime, ⟨known, synced⟩, ⟨_, _, _, _, _⟩, ⟨_, _, _⟩⟩ := s
  obtain ⟨status', uptime', ⟨known', synced'⟩, ⟨_, _, _, _, _⟩, ⟨_, _, _⟩⟩ := t
  simp only [MetricsSnapshot.pieces, List.cons.injEq, Prod.mk.injEq, UInt64.toNat_inj, true_and, and_true] at h
  simp only at hstatus
  simp [hstatus, h]

/-- **The JSON of a snapshot tells every value.** -/
theorem snapshotJson_inj {m m' : NodeMetrics} {now now' : UInt64} (h : m.snapshotJson now = m'.snapshotJson now') :
    m.snapshot now = m'.snapshot now' := by
  have hchars : (m.snapshot now).toJson.chars = (m'.snapshot now').toJson.chars := String.ofList_injective h
  have hlast : Json.Closed ['}', '}'] := Json.closed_cons rfl _
  rw [chars_toJson, chars_toJson] at hchars
  exact pieces_inj rfl (fill_inj (pieces_closed _) (pieces_closed _) hlast rfl hchars)

end Onde.Metrics
