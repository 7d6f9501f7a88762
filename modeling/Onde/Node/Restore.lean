import Mathlib.Algebra.Order.BigOperators.Group.List
import Onde.Lib.Run
import Onde.Node.Publish
import Onde.Storage.Accounting
import Onde.Storage.Persistence

/-!
# Is a restart exact?

A node with a file publishes, receives alerts, purges and restarts, on a clock that does not go back.

* `restoreFromPersistence`, `sweepMessageStore`: what a restart reads and a purge deletes, in memory and on disk;
* `Backed`: every message in memory is in the file, and every other row of the file is expired;
* `Backed.keepMessage`, `Backed.sweep`, `Backed.restart`: what the steps keep;
* `restart_exact`: after every run a restart reloads exactly the messages in memory that are within their retention.
-/

namespace Onde

open Lib Crypto Reputation Protocol Social Storage TieredMessageStore

variable {h : Host}

/-- The host whose message file is the table; its writes succeed. -/
def Host.withMessageFile (h : Host) : Host := { h with
  MessageDb := SqliteStore
  storeMessage t m := (.ok (), t.store m) }

namespace Node

/-- Take back a row if it is within its retention, and count it. -/
def loadRow (now : Nat) (r : Nat × TieredMessageStore) (m : TieredMessage) : Nat × TieredMessageStore :=
  if m.unexpired now then
    let restored := r.2.restore m
    (if restored.1 then r.1 + 1 else r.1, restored.2)
  else r

/-- Load the rows of the file. -/
def loadPersistedMessages (env : Env) (n : Node h.withMessageFile) : Nat × Node h.withMessageFile :=
  match n.persistence with
  | none => (0, n)
  | some t =>
    let loaded := SqliteStore.loadAll env.order t
    let r := loaded.foldl (loadRow env.clock) (0, n.messageStore)
    (r.1, { n with messageStore := r.2 })

def restoreFromPersistence (env : Env) (n : Node h.withMessageFile) : Nat × Node h.withMessageFile :=
  n.loadPersistedMessages env

/-- Purge the store and the file. -/
def sweepMessageStore (env : Env) (n : Node h.withMessageFile) : Nat × Node h.withMessageFile :=
  let swept := n.messageStore.sweepExpired env.clock
  (swept.1, { n with
    messageStore := swept.2
    persistence := n.persistence.map fun t => SqliteStore.sweepExpired t env.clock })

/-- A restart on the same file with the same identity: a fresh node, then what the file gives back. -/
def restarted (env : Env) (n : Node h.withMessageFile) : Node h.withMessageFile :=
  (restoreFromPersistence env (Node.new n.config n.identity n.persistence n.socialStore)).2

/-- Two states hold the same messages, in memory and on disk. -/
structure SameMessages (n n' : Node h.withMessageFile) : Prop where
  messageStore : n'.messageStore = n.messageStore
  persistence : n'.persistence = n.persistence
  config : n'.config = n.config

/-- The file backs the memory: it has every message in memory, and what else it has is expired. -/
structure Backed (clock : Nat) (n : Node h.withMessageFile) (t : SqliteStore) : Prop where
  file : n.persistence = some t
  accounted : n.messageStore.Accounted
  policy : n.messageStore.policy = (match n.config.nodeType with
    | .mobile => StoragePolicy.mobile
    | .desktopBridge => StoragePolicy.desktop)
  created : ∀ m ∈ n.messageStore.messages, m.createdAt < 2 ^ 63
  written : ∀ m ∈ n.messageStore.messages, t.lookup m.id = some (.ofMessage m)
  rest : ∀ id r, t.lookup id = some r →
    (∃ m ∈ n.messageStore.messages, m.id = id) ∨ (r.toMessage id).unexpired clock = false

variable {env : Env} {clock clock' : Nat} {n n' : Node h.withMessageFile} {t : SqliteStore}

/-- What is expired stays expired. -/
theorem unexpired_of_later {m : TieredMessage} (hle : clock ≤ clock') (hm : m.unexpired clock' = true) :
    m.unexpired clock = true := by
  have hlt := of_decide_eq_true hm
  exact decide_eq_true (by omega)

theorem Backed.later (hb : Backed clock n t) (hle : clock ≤ clock') : Backed clock' n t := by
  refine ⟨hb.file, hb.accounted, hb.policy, hb.created, hb.written, fun id r hr => (hb.rest id r hr).imp_right ?_⟩
  intro hexpired
  by_contra hun
  rw [Bool.not_eq_false] at hun
  rw [unexpired_of_later hle hun] at hexpired
  cases hexpired

theorem Backed.same (hb : Backed clock n t) (hs : SameMessages n n') : Backed clock n' t := by
  obtain ⟨hstore, hfile, hconfig⟩ := hs
  constructor
  · exact hfile.trans hb.file
  · rw [hstore]
    exact hb.accounted
  · rw [hstore, hconfig]
    exact hb.policy
  · rw [hstore]
    exact hb.created
  · rw [hstore]
    exact hb.written
  · rw [hstore]
    exact hb.rest

/-- The sizes are within the budget. -/
theorem Backed.size_lt (hb : Backed clock n t) {m : TieredMessage} (hm : m ∈ n.messageStore.messages) :
    m.originalSize < 2 ^ 64 := by
  have hle : m.originalSize ≤ n.messageStore.usedRawBytes :=
    List.single_le_sum (fun _ _ => Nat.zero_le _) _ (List.mem_map_of_mem hm)
  have hbudget := hb.accounted.budget
  have hmax := maxBytes_lt n.messageStore.policy
  omega

/-- What is read back of a message in memory is the message. -/
theorem Backed.read (hb : Backed clock n t) {m : TieredMessage} (hm : m ∈ n.messageStore.messages) :
    (MessageRow.ofMessage m).toMessage m.id = m :=
  MessageRow.toMessage_ofMessage ((hb.created m hm).trans (by decide)) (hb.size_lt hm)

/-- A message that is new in memory and written to the file. -/
theorem Backed.push (hb : Backed clock n t) (msg : TieredMessage) (hcreated : msg.createdAt < 2 ^ 63)
    (hnew : ∀ m ∈ n.messageStore.messages, m.id ≠ msg.id)
    (hroom : n.messageStore.usedRawBytes + msg.originalSize ≤ n.messageStore.policy.maxBytes) :
    Backed clock { n with messageStore := n.messageStore.push msg, persistence := some (t.store msg) }
      (t.store msg) := by
  refine ⟨rfl, accounted_push hb.accounted hnew hroom, hb.policy, ?_, ?_, ?_⟩
  · intro m hm
    rcases List.mem_append.mp hm with hold | hlast
    · exact hb.created m hold
    · rw [List.mem_singleton.mp hlast]
      exact hcreated
  · intro m hm
    rw [SqliteStore.lookup_store]
    rcases List.mem_append.mp hm with hold | hlast
    · rw [if_neg (hnew m hold)]
      exact hb.written m hold
    · rw [List.mem_singleton.mp hlast, if_pos rfl]
  · intro id r hr
    rw [SqliteStore.lookup_store] at hr
    by_cases hid : id = msg.id
    · exact Or.inl ⟨msg, List.mem_append_right _ (List.mem_singleton_self msg), hid.symm⟩
    · rw [if_neg hid] at hr
      exact (hb.rest id r hr).imp_left fun ⟨m, hm, heq⟩ => ⟨m, List.mem_append_left _ hm, heq⟩

/-- The message kept of an event. -/
def keptMessage (n : Node h.withMessageFile) (event : MeshEvent) (tier : MessageTier) : TieredMessage :=
  ⟨event.id, tier, event.createdAt.toNat, h.deflate (utf8Bytes event.content), (utf8Bytes event.content).length,
    n.config.myGeohash⟩

/-- A new message is found under its id. -/
theorem find_push {s : TieredMessageStore} (msg : TieredMessage) (hnew : ∀ m ∈ s.messages, m.id ≠ msg.id) :
    ((s.push msg).messages.find? fun m => m.id = msg.id) = some msg := by
  have hnone : (s.messages.find? fun m => m.id = msg.id) = none :=
    List.find?_eq_none.mpr fun m hm => by simpa using hnew m hm
  show (s.messages ++ [msg]).find? _ = some msg
  rw [List.find?_append, hnone]
  simp

/-- **Keeping a message writes it to the file exactly if it is new in memory.** -/
theorem keepMessage_cases (n : Node h.withMessageFile) (event : MeshEvent) (tier : MessageTier) :
    SameMessages n (n.keepMessage event tier).2 ∨
      (SameMessages { n with
          messageStore := n.messageStore.push (n.keptMessage event tier)
          persistence := n.persistence.map fun t => SqliteStore.store t (n.keptMessage event tier) }
        (n.keepMessage event tier).2 ∧
      (∀ m ∈ n.messageStore.messages, m.id ≠ event.id) ∧
      n.messageStore.usedRawBytes + (n.keptMessage event tier).originalSize ≤ n.messageStore.policy.maxBytes) := by
  rcases store_cases h.deflate n.messageStore event.id tier (utf8Bytes event.content) event.createdAt.toNat
    n.config.myGeohash with hrefused | ⟨hstored, hnew, hroom⟩
  · left
    have hkeep : (n.keepMessage event tier).2 = n := by
      unfold keepMessage
      dsimp only [Host.withMessageFile]
      rw [hrefused, if_neg Bool.false_ne_true]
      rfl
    rw [hkeep]
    exact ⟨rfl, rfl, rfl⟩
  · right
    refine ⟨?_, hnew, hroom⟩
    have hkeep : (n.keepMessage event tier).2 =
        persistMessage { n with messageStore := n.messageStore.push (n.keptMessage event tier) } event.id tier
          (utf8Bytes event.content) event.createdAt.toNat n.config.myGeohash := by
      unfold keepMessage
      dsimp only [Host.withMessageFile]
      rw [hstored, if_pos rfl]
      rfl
    rw [hkeep, persistMessage]
    dsimp only
    cases n.persistence with
    | none => exact ⟨rfl, rfl, rfl⟩
    | some t =>
      dsimp only
      have hfind := find_push (n.keptMessage event tier) hnew
      refine ⟨rfl, ?_, rfl⟩
      show some (SqliteStore.store t (Option.getD _ _)) = some (SqliteStore.store t (n.keptMessage event tier))
      rw [show (n.keptMessage event tier).id = event.id from rfl] at hfind
      rw [hfind]
      rfl

/-- Keeping a message keeps the file behind the memory. -/
theorem Backed.keepMessage (hb : Backed clock n t) (event : MeshEvent) (tier : MessageTier)
    (hcreated : event.createdAt.toNat < 2 ^ 63) : ∃ t', Backed clock (n.keepMessage event tier).2 t' := by
  rcases keepMessage_cases n event tier with hsame | ⟨hpush, hnew, hroom⟩
  · exact ⟨t, hb.same hsame⟩
  · have hpushed := hb.push (n.keptMessage event tier) hcreated hnew hroom
    rw [hb.file] at hpush
    exact ⟨_, hpushed.same hpush⟩

/-- So does a purge of both. -/
theorem Backed.sweep (hb : Backed env.clock n t) (hclock : env.clock < 2 ^ 63) :
    Backed env.clock (n.sweepMessageStore env).2 (t.sweepExpired env.clock) := by
  have hmem : ∀ m, m ∈ (n.sweepMessageStore env).2.messageStore.messages ↔
      m ∈ n.messageStore.messages ∧ m.unexpired env.clock = true := fun m => List.mem_filter
  refine ⟨?_, accounted_sweep hb.accounted env.clock, hb.policy, fun m hm => hb.created m ((hmem m).mp hm).1, ?_, ?_⟩
  · show n.persistence.map _ = _
    rw [hb.file]
    rfl
  · intro m hm
    obtain ⟨hold, hun⟩ := (hmem m).mp hm
    exact SqliteStore.sweepExpired_keeps hclock (hb.created m hold) hun (hb.written m hold)
  · intro id r hr
    obtain ⟨hold, _⟩ := SqliteStore.lookup_sweepExpired.mp hr
    rcases hb.rest id r hold with ⟨m, hm, rfl⟩ | hexpired
    · cases hun : m.unexpired env.clock with
      | true => exact Or.inl ⟨m, (hmem m).mpr ⟨hm, hun⟩, rfl⟩
      | false =>
        right
        have hrow := hb.written m hm
        rw [hold] at hrow
        cases hrow
        rw [hb.read hm]
        exact hun
    · exact Or.inr hexpired

/-! ## The restart -/

/-- **Rows with distinct ids that fit in the budget are all taken back**, in the order they come in. -/
theorem foldl_loadRow (clock : Nat) {ms : List TieredMessage} {r : Nat × TieredMessageStore} (hs : r.2.Accounted)
    (hids : (ms.map TieredMessage.id).Nodup) (hnew : ∀ m ∈ ms, ∀ m' ∈ r.2.messages, m'.id ≠ m.id)
    (hroom : r.2.usedRawBytes + ((ms.filter (TieredMessage.unexpired clock)).map TieredMessage.originalSize).sum ≤
      r.2.policy.maxBytes) :
    let r' := ms.foldl (loadRow clock) r
    r'.1 = r.1 + (ms.filter (TieredMessage.unexpired clock)).length ∧ r'.2.Accounted ∧
      r'.2.messages = r.2.messages ++ ms.filter (TieredMessage.unexpired clock) ∧ r'.2.policy = r.2.policy := by
  induction ms generalizing r with
  | nil => exact ⟨rfl, hs, (List.append_nil _).symm, rfl⟩
  | cons m ms ih =>
    obtain ⟨hm, hids⟩ := List.nodup_cons.mp hids
    cases hun : m.unexpired clock with
    | false =>
      have hrow : loadRow clock r m = r := by rw [loadRow, hun, if_neg Bool.false_ne_true]
      rw [List.filter_cons_of_neg (by rw [hun]; exact Bool.false_ne_true)] at hroom ⊢
      rw [List.foldl_cons, hrow]
      exact ih hs hids (fun m' hm' => hnew m' (List.mem_cons_of_mem m hm')) hroom
    | true =>
      rw [List.filter_cons_of_pos hun] at hroom ⊢
      rw [List.map_cons, List.sum_cons] at hroom
      have hmax := maxBytes_lt r.2.policy
      have hsize : m.originalSize < 2 ^ 63 := by omega
      rcases restore_cases hs.budget hsize with ⟨_, hrefused⟩ | ⟨hrestored, hfresh, hfits⟩
      · rcases hrefused with ⟨m', hm', heq⟩ | hfull
        · exact absurd heq (hnew m List.mem_cons_self m' hm')
        · omega
      · have hrow : loadRow clock r m = (r.1 + 1, r.2.push m) := by
          rw [loadRow, hun, if_pos rfl]
          dsimp only
          rw [hrestored, if_pos rfl]
        have hpushed := usedRawBytes_push r.2 m
        have hnew' : ∀ m' ∈ ms, ∀ old ∈ (r.2.push m).messages, old.id ≠ m'.id := by
          intro m' hm' old hold
          rcases List.mem_append.mp hold with hold | hlast
          · exact hnew m' (List.mem_cons_of_mem m hm') old hold
          · rw [List.mem_singleton.mp hlast]
            intro heq
            exact hm (List.mem_map.mpr ⟨m', hm', heq.symm⟩)
        obtain ⟨hcount, hacc, hmessages, hpolicy⟩ := ih (r := (r.1 + 1, r.2.push m))
          (accounted_push hs hfresh hfits) hids hnew' (by
            show (r.2.push m).usedRawBytes + _ ≤ r.2.policy.maxBytes
            omega)
        rw [List.foldl_cons, hrow]
        refine ⟨?_, hacc, hmessages.trans (List.append_assoc _ _ _), hpolicy⟩
        rw [hcount, List.length_cons, Nat.add_assoc, Nat.add_comm 1]

/-- **The rows within their retention are the messages in memory within theirs.** -/
theorem Backed.loaded (hb : Backed clock n t) (order : HashOrder) :
    ((t.loadAll order).filter fun m => m.unexpired clock).Perm
      (n.messageStore.messages.filter fun m => m.unexpired clock) := by
  refine (List.perm_ext_iff_of_nodup ((SqliteStore.loadAll_nodup order t).of_map.filter _)
    (hb.accounted.ids.of_map.filter _)).mpr fun m => ?_
  rw [List.mem_filter, List.mem_filter]
  refine and_congr_left fun hun => ?_
  rw [SqliteStore.mem_loadAll]
  constructor
  · rintro ⟨r, hr, hm⟩
    rcases hb.rest m.id r hr with ⟨m', hm', hid⟩ | hexpired
    · have hrow := hb.written m' hm'
      rw [hid, hr] at hrow
      cases hrow
      rw [← hid, hb.read hm'] at hm
      rwa [← hm]
    · rw [hm, hun] at hexpired
      cases hexpired
  · exact fun hm => ⟨_, hb.written m hm, hb.read hm⟩

/-- What a restart loads. -/
theorem Backed.restarted_messages (hb : Backed env.clock n t) :
    (restoreFromPersistence env (Node.new n.config n.identity n.persistence n.socialStore)).1 =
        ((t.loadAll env.order).filter fun m => m.unexpired env.clock).length ∧
      (n.restarted env).messageStore.Accounted ∧
      (n.restarted env).messageStore.messages = (t.loadAll env.order).filter (fun m => m.unexpired env.clock) ∧
      (n.restarted env).messageStore.policy = n.messageStore.policy := by
  have hperm := hb.loaded env.order
  let fresh : Node h.withMessageFile := Node.new n.config n.identity (some t) n.socialStore
  have hload := foldl_loadRow env.clock (r := (0, fresh.messageStore)) ⟨List.nodup_nil, Nat.zero_le _, rfl⟩
    (SqliteStore.loadAll_nodup env.order t) (fun _ _ _ hm' => absurd hm' List.not_mem_nil) ?_
  · rw [restarted, hb.file, hb.policy]
    rw [Nat.zero_add] at hload
    exact hload
  · have hsum := (hperm.map TieredMessage.originalSize).sum_nat
    have hswept := (accounted_sweep hb.accounted env.clock).budget
    show 0 + _ ≤ fresh.messageStore.policy.maxBytes
    rw [Nat.zero_add, hsum]
    have hpolicy : fresh.messageStore.policy = n.messageStore.policy := hb.policy.symm
    rw [hpolicy]
    exact hswept

/-- **A restart keeps the file behind the memory.** -/
theorem Backed.restart (hb : Backed env.clock n t) : Backed env.clock (n.restarted env) t := by
  obtain ⟨_, hacc, hmessages, hpolicy⟩ := hb.restarted_messages
  have hmem : ∀ m, m ∈ (n.restarted env).messageStore.messages ↔
      m ∈ n.messageStore.messages ∧ m.unexpired env.clock = true := by
    intro m
    rw [hmessages, (hb.loaded env.order).mem_iff, List.mem_filter]
  have hconfig : (n.restarted env).config = n.config := by
    rw [restarted, hb.file]
    rfl
  refine ⟨?_, hacc, ?_, fun m hm => hb.created m ((hmem m).mp hm).1, fun m hm => hb.written m ((hmem m).mp hm).1, ?_⟩
  · rw [restarted, hb.file]
    rfl
  · rw [hconfig]
    exact hpolicy.trans hb.policy
  · intro id r hr
    rcases hb.rest id r hr with ⟨m, hm, rfl⟩ | hexpired
    · cases hun : m.unexpired env.clock with
      | true => exact Or.inl ⟨m, (hmem m).mpr ⟨hm, hun⟩, rfl⟩
      | false =>
        right
        have hrow := hb.written m hm
        rw [hr] at hrow
        cases hrow
        rw [hb.read hm]
        exact hun
    · exact Or.inr hexpired

/-! ## The runs -/

/-- A call that changes the messages, or a restart. -/
inductive MessageStep (env : Env) : Node h.withMessageFile → Node h.withMessageFile → Prop
  | publishAlert {n n' : Node h.withMessageFile} {content : String} {event : MeshEvent}
    (hp : n.publishAlert env content = .ok (event, n')) : MessageStep env n n'
  | publishMutualAid {n n' : Node h.withMessageFile} {content : String} {event : MeshEvent}
    (hp : n.publishMutualAid env content = .ok (event, n')) : MessageStep env n n'
  | handleIncomingAlert {n n' : Node h.withMessageFile} {event : MeshEvent} {stored : Bool}
    (ha : n.handleIncomingAlert env event = .ok (stored, n')) : MessageStep env n n'
  | sweepMessageStore (n : Node h.withMessageFile) : MessageStep env n (n.sweepMessageStore env).2
  | restart (n : Node h.withMessageFile) : MessageStep env n (n.restarted env)

theorem publishSigned_same {event e : MeshEvent} {powFailed : String}
    (hp : n.publishSigned env event powFailed = .ok (e, n')) : SameMessages n n' := by
  unfold publishSigned at hp
  obtain ⟨_, _, hp⟩ := bind_eq_ok.mp hp
  obtain ⟨_, _, hp⟩ := bind_eq_ok.mp hp
  obtain ⟨_, _, hp⟩ := bind_eq_ok.mp hp
  cases hp
  exact ⟨rfl, rfl, rfl⟩

/-- A publication keeps the file behind the memory, -/
theorem Backed.publishText (hb : Backed env.clock n t) {kind : OndeMessageType} {tier : MessageTier}
    {what content : String} {e : MeshEvent} (hclock : env.clock + maxClockSkewSecs < 2 ^ 63)
    (hp : publishText kind tier what env n content = .ok (e, n')) : ∃ t', Backed env.clock n' t' := by
  unfold Node.publishText at hp
  split at hp
  · cases hp
  obtain ⟨_, _, hp⟩ := bind_eq_ok.mp hp
  obtain ⟨⟨e₁, n₁⟩, hsigned, hp⟩ := bind_eq_ok.mp hp
  cases hp
  have hcreated : e.createdAt = env.fuzzyTimestampSecs := by
    obtain ⟨⟨nonce, rfl⟩, _⟩ := publishSigned_ok hsigned
    rfl
  obtain ⟨t', ht'⟩ := (hb.same (publishSigned_same hsigned)).keepMessage e tier (by
    have hle := env.fuzzyTimestampSecs_le
    rw [hcreated]
    unfold maxClockSkewSecs at hclock
    omega)
  exact ⟨t', ht'.same ⟨rfl, rfl, rfl⟩⟩

/-- and so does an alert received. -/
theorem Backed.handleIncomingAlert (hb : Backed env.clock n t) {event : MeshEvent} {stored : Bool}
    (hclock : env.clock + maxClockSkewSecs < 2 ^ 63) (ha : n.handleIncomingAlert env event = .ok (stored, n')) :
    ∃ t', Backed env.clock n' t' := by
  by_cases hk : event.kind = .alert
  · rw [handleIncomingAlert_eq hk] at ha
    cases hv : event.validateWithReputation h.withMessageFile.toPrimitives env.clock n.reputation with
    | error err =>
      rw [hv] at ha
      cases ha
    | ok u =>
      rw [hv] at ha
      obtain ⟨_, htime, _, _⟩ := checkSigned_ok.mp (validateWithPowMin_ok.mp hv).1
      have hsame : SameMessages n { n with gossip := (n.gossip.insertNew env.order event).2 } := ⟨rfl, rfl, rfl⟩
      obtain ⟨t', ht'⟩ := (hb.same hsame).keepMessage event .critical (by omega)
      have hkept : (Node.keepMessage { n with gossip := (n.gossip.insertNew env.order event).2 } event .critical).2 =
        n' := congrArg Prod.snd (Except.ok.inj ha)
      rw [hkept] at ht'
      exact ⟨t', ht'⟩
  · unfold Node.handleIncomingAlert at ha
    rw [if_pos hk] at ha
    cases ha
    exact ⟨t, hb⟩

/-- **Every step keeps the file behind the memory.** -/
theorem Backed.step (hb : Backed env.clock n t) (hclock : env.clock + maxClockSkewSecs < 2 ^ 63)
    (hs : MessageStep env n n') : ∃ t', Backed env.clock n' t' := by
  cases hs with
  | publishAlert hp => exact hb.publishText hclock hp
  | publishMutualAid hp => exact hb.publishText hclock hp
  | handleIncomingAlert ha => exact hb.handleIncomingAlert hclock ha
  | sweepMessageStore => exact ⟨_, hb.sweep (by omega)⟩
  | restart => exact ⟨t, hb.restart⟩

end Node

open Node

/-- A node and the time of its last call. -/
structure Station (h : Host) where
  node : Node h.withMessageFile
  clock : Nat

/-- A call at a time that is not before the last one; the system clock is a signed number of seconds, and no event may
be dated beyond it. -/
structure StationStep (env : Env) (s s' : Station h) : Prop where
  later : s.clock ≤ env.clock
  fits : env.clock + maxClockSkewSecs < 2 ^ 63
  step : MessageStep env s.node s'.node
  clock : s'.clock = env.clock

/-- Any other call: it touches neither the messages nor the file. -/
structure StationSilent (s s' : Station h) : Prop where
  same : SameMessages s.node s'.node
  clock : s'.clock = s.clock

/-- A node started on a new file. -/
def Station.start (h : Host) (config : NodeConfig) (identity : Identity)
    (socialStore : Option h.withMessageFile.SocialDb) : Station h :=
  ⟨Node.new config identity (some (∅ : SqliteStore)) socialStore, 0⟩

variable {config : NodeConfig} {identity : Identity} {socialStore : Option h.withMessageFile.SocialDb}
  {env : Env} {s : Station h} {vs : List (Visit (Station h) Env)}

theorem backed_start : Backed 0 (Station.start h config identity socialStore).node ∅ :=
  ⟨rfl, ⟨List.nodup_nil, Nat.zero_le _, rfl⟩, rfl, fun _ hm => absurd hm List.not_mem_nil,
    fun _ hm => absurd hm List.not_mem_nil, fun _ _ hr => nomatch hr⟩

/-- **In every run the file is behind the memory.** -/
theorem backed_run (hr : Run StationStep StationSilent (Station.start h config identity socialStore) vs s) :
    ∃ t, Backed s.clock s.node t := by
  refine Run.invariant (I := fun s => ∃ t, Backed s.clock s.node t) ⟨∅, backed_start⟩ ?_ ?_ hr
  · rintro env s s' ⟨t, hb⟩ hv
    rw [hv.clock]
    exact (hb.later hv.later).step hv.fits hv.step
  · rintro s s' ⟨t, hb⟩ hs
    rw [hs.clock]
    exact ⟨t, hb.same hs.same⟩

/-- **A restart is exact.** After every run of publications, alerts, purges and restarts, a restart loads each message
that is in memory and within its retention, unchanged, and nothing else, within the budget. -/
theorem restart_exact (env : Env)
    (hr : Run StationStep StationSilent (Station.start h config identity socialStore) vs s)
    (hclock : s.clock ≤ env.clock) :
    let restarted := s.node.restarted env
    restarted.messageStore.messages.Perm (s.node.messageStore.messages.filter fun m => m.unexpired env.clock) ∧
      restarted.messageStore.usedRawBytes ≤ restarted.messageStore.policy.maxBytes ∧
      (restoreFromPersistence env (Node.new s.node.config s.node.identity s.node.persistence s.node.socialStore)).1 =
        restarted.messageStore.messages.length := by
  intro restarted
  obtain ⟨t, hb⟩ := backed_run hr
  have hnow := hb.later hclock
  obtain ⟨hcount, hacc, hmessages, _⟩ := hnow.restarted_messages
  refine ⟨?_, hacc.budget, ?_⟩
  · rw [hmessages]
    exact hnow.loaded env.order
  · rw [hcount, hmessages]

/-- A node that trusts the author receives an alert, and restarts a minute later. -/
theorem restart_exact_known : ∃ s : Station knownHost, ∃ v : Visit (Station knownHost) Env,
    Run StationStep StationSilent (Station.start knownHost .default (.ofByte 2) none) [v] s ∧
      (s.node.restarted (.still 1700000060)).messageStore.messages.Perm
        (s.node.messageStore.messages.filter fun m => m.unexpired 1700000060) := by
  let start := Station.start knownHost .default (.ofByte 2) none
  let trusting : Node knownHost.withMessageFile :=
    { start.node with reputation := start.node.reputation.bootstrap [knownAuthor] }
  have hv : (knownEvent .alert).validateWithReputation knownHost.withMessageFile.toPrimitives 1700000000
      trusting.reputation = .ok () := trusting_valid .alert
  obtain ⟨⟨stored, n⟩, ha⟩ : ∃ r, trusting.handleIncomingAlert (.still 1700000000) (knownEvent .alert) = .ok r :=
    ⟨_, (handleIncomingAlert_eq rfl).trans (congrArg (Except.map _) hv)⟩
  have hstep : StationStep (.still 1700000000) ⟨trusting, 0⟩ (⟨n, 1700000000⟩ : Station knownHost) :=
    ⟨Nat.zero_le _, by decide, .handleIncomingAlert ha, rfl⟩
  have hstart : Run StationStep StationSilent start [] ⟨trusting, 0⟩ := Run.start.silent ⟨⟨rfl, rfl, rfl⟩, rfl⟩
  have hrun := hstart.visit hstep
  exact ⟨_, _, hrun, (restart_exact (.still 1700000060) hrun (Nat.le_add_right _ 60)).1⟩

end Onde
