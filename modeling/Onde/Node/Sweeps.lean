import Onde.Node.Restore

/-!
# Do the sweeps agree?

The store in memory, the file and the reload at a restart each have a test of their own for what is past its retention.

* `keptOnDisk`: the test of the file, on signed numbers; `kept_alike_iff`: when it is the test of the memory;
* `fileOf`: the table with the rows of the messages; `mem_loadAll_sweepExpired`: what a purge leaves of it;
* `reloaded`: the rows that a reload offers to the store (`loadPersistedMessages_eq`);
* `sweeps_agree_iff`: all three keep the same messages exactly when no message has just reached its retention and the
  cutoffs are not negative.
-/

namespace Onde

open Lib Storage

namespace Storage

variable {m : TieredMessage} {ms : List TieredMessage} {now : Nat} {order : HashOrder}

/-- The purge of the file keeps the row of the message. -/
def TieredMessage.keptOnDisk (now : Nat) (m : TieredMessage) : Bool :=
  asI64 (now - m.tier.retentionSecs) ≤ asI64 m.createdAt

theorem retentionSecs_lt (tier : MessageTier) : 0 < tier.retentionSecs ∧ tier.retentionSecs < 2 ^ 63 := by
  cases tier <;> decide

/-- A cutoff beyond the signed numbers is negative. -/
theorem asI64_neg {n : Nat} (hlow : 2 ^ 63 ≤ n) (hhigh : n < 2 ^ 64) : asI64 n < 0 := by
  unfold asI64
  split <;> omega

/-- **Memory and file disagree on a message when it has just reached its retention, or the cutoff is negative.** -/
theorem kept_alike_iff (hcreated : m.createdAt < 2 ^ 63) (hnow : now < 2 ^ 64) :
    m.keptOnDisk now = m.unexpired now ↔
      now ≠ m.createdAt + m.tier.retentionSecs ∧ now - m.tier.retentionSecs < 2 ^ 63 := by
  obtain ⟨hpos, hsmall⟩ := retentionSecs_lt m.tier
  rw [TieredMessage.keptOnDisk, TieredMessage.unexpired, asI64_of_lt hcreated, decide_eq_decide]
  by_cases hcut : now - m.tier.retentionSecs < 2 ^ 63
  · rw [asI64_of_lt hcut]
    omega
  · have hneg := asI64_neg (Nat.le_of_not_lt hcut) (by omega : now - m.tier.retentionSecs < 2 ^ 64)
    -- every row is kept, and no message is within its retention any more
    constructor
    · intro hiff
      exact absurd (hiff.mp (by omega)) (by omega)
    · exact fun hcond => absurd hcond.2 hcut

namespace SqliteStore

/-- The table with the rows of the messages. -/
def fileOf (ms : List TieredMessage) : SqliteStore := ms.foldl store ∅

theorem lookup_foldl_store {id : String} {r : MessageRow} (hids : (ms.map TieredMessage.id).Nodup)
    (t : SqliteStore) : (ms.foldl store t).lookup id = some r ↔
      (∃ m ∈ ms, m.id = id ∧ r = .ofMessage m) ∨ (id ∉ ms.map TieredMessage.id ∧ t.lookup id = some r) := by
  induction ms generalizing t with
  | nil => simp
  | cons m ms ih =>
    obtain ⟨hm, hids⟩ := List.nodup_cons.mp hids
    rw [List.foldl_cons, ih hids, lookup_store]
    by_cases hid : id = m.id
    · subst hid
      rw [if_pos rfl]
      constructor
      · rintro (⟨m', hm', heq, -⟩ | ⟨-, hrow⟩)
        · exact absurd (List.mem_map.mpr ⟨m', hm', heq⟩) hm
        · exact .inl ⟨m, List.mem_cons_self, rfl, (Option.some.inj hrow).symm⟩
      · rintro (⟨m', hm', heq, rfl⟩ | ⟨hnot, -⟩)
        · rcases List.mem_cons.mp hm' with rfl | hm'
          · exact .inr ⟨hm, rfl⟩
          · exact absurd (List.mem_map.mpr ⟨m', hm', heq⟩) hm
        · exact absurd List.mem_cons_self hnot
    · rw [if_neg hid]
      constructor
      · rintro (⟨m', hm', heq, hrow⟩ | ⟨hnot, hrow⟩)
        · exact .inl ⟨m', List.mem_cons_of_mem m hm', heq, hrow⟩
        · exact .inr ⟨fun hin => (List.mem_cons.mp hin).elim hid hnot, hrow⟩
      · rintro (⟨m', hm', heq, hrow⟩ | ⟨hnot, hrow⟩)
        · rcases List.mem_cons.mp hm' with rfl | hm'
          · exact absurd heq.symm hid
          · exact .inl ⟨m', hm', heq, hrow⟩
        · exact .inr ⟨fun hin => hnot (List.mem_cons_of_mem _ hin), hrow⟩

theorem lookup_fileOf {id : String} {r : MessageRow} (hids : (ms.map TieredMessage.id).Nodup) :
    (fileOf ms).lookup id = some r ↔ ∃ m ∈ ms, m.id = id ∧ r = .ofMessage m := by
  rw [fileOf, lookup_foldl_store hids]
  exact or_iff_left fun hnone => nomatch hnone.2

end SqliteStore

/-- Messages whose numbers the columns of the file can hold, with distinct ids. -/
structure Storable (ms : List TieredMessage) : Prop where
  ids : (ms.map TieredMessage.id).Nodup
  created : ∀ m ∈ ms, m.createdAt < 2 ^ 63
  sizes : ∀ m ∈ ms, m.originalSize < 2 ^ 64

namespace Storable

/-- The messages of the table are those it was filled with, -/
theorem mem_loadAll (hs : Storable ms) : m ∈ (SqliteStore.fileOf ms).loadAll order ↔ m ∈ ms := by
  have hread : ∀ m' ∈ ms, (MessageRow.ofMessage m').toMessage m'.id = m' := fun m' hm' =>
    MessageRow.toMessage_ofMessage (lt_trans (hs.created m' hm') (by decide)) (hs.sizes m' hm')
  rw [SqliteStore.mem_loadAll]
  constructor
  · rintro ⟨r, hr, hm⟩
    obtain ⟨m', hm', hid, rfl⟩ := (SqliteStore.lookup_fileOf hs.ids).mp hr
    rw [← hid, hread m' hm'] at hm
    exact hm ▸ hm'
  · exact fun hm => ⟨_, (SqliteStore.lookup_fileOf hs.ids).mpr ⟨m, hm, rfl, rfl⟩, hread m hm⟩

/-- **and a purge leaves those it keeps.** -/
theorem mem_loadAll_sweepExpired (hs : Storable ms) :
    m ∈ ((SqliteStore.fileOf ms).sweepExpired now).loadAll order ↔ m ∈ ms ∧ m.keptOnDisk now = true := by
  have hkept : ∀ m' : TieredMessage, (∀ tier : MessageTier, (MessageRow.ofMessage m').tier = tier.label →
      asI64 (now - tier.retentionSecs) ≤ (MessageRow.ofMessage m').createdAt) ↔ m'.keptOnDisk now = true := by
    intro m'
    rw [TieredMessage.keptOnDisk, decide_eq_true_iff]
    constructor
    · exact fun hall => hall m'.tier rfl
    · intro hcut tier htier
      obtain rfl := label_injective htier
      exact hcut
  rw [SqliteStore.mem_loadAll]
  constructor
  · rintro ⟨r, hr, hm⟩
    obtain ⟨hold, hall⟩ := SqliteStore.lookup_sweepExpired.mp hr
    obtain ⟨m', hm', hid, rfl⟩ := (SqliteStore.lookup_fileOf hs.ids).mp hold
    rw [← hid, MessageRow.toMessage_ofMessage (lt_trans (hs.created m' hm') (by decide)) (hs.sizes m' hm')] at hm
    exact hm ▸ ⟨hm', (hkept m').mp hall⟩
  · rintro ⟨hm, hcut⟩
    refine ⟨.ofMessage m, SqliteStore.lookup_sweepExpired.mpr ⟨?_, (hkept m).mpr hcut⟩,
      MessageRow.toMessage_ofMessage (lt_trans (hs.created m hm) (by decide)) (hs.sizes m hm)⟩
    exact (SqliteStore.lookup_fileOf hs.ids).mpr ⟨m, hm, rfl, rfl⟩

end Storable

end Storage

namespace Node

variable {h : Host} {env : Env} {n : Node h.withMessageFile} {t : SqliteStore}

/-- Take back a row, and count it. -/
def takeBack (r : Nat × TieredMessageStore) (m : TieredMessage) : Nat × TieredMessageStore :=
  let restored := r.2.restore m
  (if restored.1 then r.1 + 1 else r.1, restored.2)

/-- The rows that a reload offers to the store. -/
def reloaded (now : Nat) (order : HashOrder) (t : SqliteStore) : List TieredMessage :=
  (t.loadAll order).filter fun m => m.unexpired now

/-- **A reload takes back the rows of the filter, in the order they come in.** -/
theorem loadPersistedMessages_eq (hfile : n.persistence = some t) : n.loadPersistedMessages env =
    (((reloaded env.clock env.order t).foldl takeBack (0, n.messageStore)).1,
      { n with messageStore := ((reloaded env.clock env.order t).foldl takeBack (0, n.messageStore)).2 }) := by
  have hfold : (t.loadAll env.order).foldl (loadRow env.clock) (0, n.messageStore) =
      (reloaded env.clock env.order t).foldl takeBack (0, n.messageStore) := by
    rw [reloaded, List.foldl_filter]
    rfl
  unfold loadPersistedMessages
  rw [hfile]
  dsimp only
  rw [hfold]

end Node

open Node

/-- The purge of the memory, the purge of the file behind it and a reload of that file keep the same messages. -/
def SweepsAgree (s : TieredMessageStore) (now : Nat) (order : HashOrder) : Prop :=
  (((SqliteStore.fileOf s.messages).sweepExpired now).loadAll order).Perm (s.sweepExpired now).2.messages ∧
    (reloaded now order (SqliteStore.fileOf s.messages)).Perm (s.sweepExpired now).2.messages

variable {s : TieredMessageStore} {now : Nat} {order : HashOrder}

/-- A reload keeps what the memory keeps, -/
theorem reloaded_perm (hs : Storable s.messages) :
    (reloaded now order (SqliteStore.fileOf s.messages)).Perm (s.sweepExpired now).2.messages := by
  refine (List.perm_ext_iff_of_nodup ((SqliteStore.loadAll_nodup order _).of_map.filter _)
    (hs.ids.of_map.filter _)).mpr fun m => ?_
  rw [List.mem_filter, hs.mem_loadAll, List.mem_filter]

/-- and the file does where the two tests agree. -/
theorem disk_perm_iff (hs : Storable s.messages) :
    (((SqliteStore.fileOf s.messages).sweepExpired now).loadAll order).Perm (s.sweepExpired now).2.messages ↔
      ∀ m ∈ s.messages, m.keptOnDisk now = m.unexpired now := by
  have hmem : (((SqliteStore.fileOf s.messages).sweepExpired now).loadAll order).Perm
      (s.sweepExpired now).2.messages ↔
        ∀ m, m ∈ s.messages ∧ m.keptOnDisk now = true ↔ m ∈ s.messages ∧ m.unexpired now = true := by
    refine (List.perm_ext_iff_of_nodup (SqliteStore.loadAll_nodup order _).of_map
      (hs.ids.of_map.filter _)).trans (forall_congr' fun m => ?_)
    rw [hs.mem_loadAll_sweepExpired, List.mem_filter]
  rw [hmem]
  exact forall_congr' fun m => and_congr_right_iff.trans (imp_congr_right fun _ => Bool.eq_iff_iff.symm)

/-- **Memory, file and reload keep the same messages exactly when no message is as old as its retention and no cutoff
passes the signed numbers.** -/
theorem sweeps_agree_iff (s : TieredMessageStore) (now : Nat) (order : HashOrder) (hs : Storable s.messages)
    (hnow : now < 2 ^ 64) :
    SweepsAgree s now order ↔ ∀ m ∈ s.messages,
      now ≠ m.createdAt + m.tier.retentionSecs ∧ now - m.tier.retentionSecs < 2 ^ 63 := by
  rw [SweepsAgree, and_iff_left (reloaded_perm hs), disk_perm_iff hs]
  exact forall₂_congr fun m hm => kept_alike_iff (hs.created m hm) hnow

/-! ## An hour later -/

/-- A store with one message of the lowest tier. -/
def lowStore : TieredMessageStore :=
  { TieredMessageStore.withGeohash .mobile "u09tunq" with
    messages := [⟨"a", .low, 1700000000, [0xf3, 0xf7, 0x06, 0x00], 2, "u09tunq"⟩] }

theorem lowStore_storable : Storable lowStore.messages where
  ids := by decide
  created := fun m hm => by obtain rfl := List.mem_singleton.mp hm; decide
  sizes := fun m hm => by obtain rfl := List.mem_singleton.mp hm; decide

/-- **At exactly an hour the message is gone from memory and still in the file.** -/
theorem hour_disagrees : ¬SweepsAgree lowStore 1700003600 .sorted := by
  intro hagree
  have hall := (disk_perm_iff lowStore_storable).mp hagree.1
  exact absurd (hall _ List.mem_cons_self) (by decide)

/-- A second before, all keep it. -/
theorem minute_agrees : SweepsAgree lowStore 1700003599 .sorted ∧ (lowStore.sweepExpired 1700003599).2.messages ≠ [] :=
  ⟨(sweeps_agree_iff lowStore 1700003599 .sorted lowStore_storable (by decide)).mpr fun m hm => by
      obtain rfl := List.mem_singleton.mp hm
      decide, by decide⟩

end Onde
