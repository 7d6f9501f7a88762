import Mathlib.Algebra.BigOperators.Ring.Finset
import Onde.Lib.LockFree
import Onde.Storage.Accounting

/-!
# The registry of metrics

The counters are independent cells that all threads of the node write: additions are one atomic step, the subtraction
that stops at zero is a loop.

* `program`: what calls do to one counter;
* `exact_iff`: after operations in some order a counter has exactly what they add up to, if and only if they never take
  back more than there is;
* `counter_exact_iff`: whatever the threads and their interleaving;
* `storeCalls`, `prefix_gauge`: what a message store reports of its run, at each moment exactly what it holds;
* `gauges_shared`: so the gauges of a registry that several stores share are exact in every interleaving.
-/

namespace Onde.Metrics

open Onde.Lib Onde.Storage

/-- A cell of the registry. -/
inductive Counter where
  | messagesIngested | messagesRejected | messagesGossiped | messagesDuplicated
  | peersKnown | peersSynced
  | storageEvents | storageRawBytes | storageStoredBytes
  | healthRequests
  deriving DecidableEq

/-- An operation on a cell. -/
inductive CounterOp where
  | fetchAdd (n : UInt64)
  | store (n : UInt64)
  | saturatingSub (n : UInt64)
  deriving DecidableEq

namespace CounterOp

/-- What becomes of the value. -/
def effect : CounterOp → UInt64 → UInt64
  | fetchAdd n, v => v + n
  | store n, _ => n
  | saturatingSub n, v => if v < n then 0 else v - n

/-- Which operations are loops of exchanges. -/
def loops : CounterOp → Bool
  | saturatingSub _ => true
  | _ => false

/-- The operation adds or takes back. -/
def Additive : CounterOp → Prop
  | store _ => False
  | _ => True

/-- What the operation adds. -/
def gain : CounterOp → Nat
  | fetchAdd n => n.toNat
  | _ => 0

/-- What the operation should change. -/
def weight : CounterOp → Int
  | fetchAdd n => n.toNat
  | store _ => 0
  | saturatingSub n => -n.toNat

end CounterOp

/-- A call of the registry. -/
inductive MetricsCall where
  | recordIngested
  | recordRejected
  | recordGossiped (n : UInt64)
  | recordDuplicated
  | setPeers (known synced : UInt64)
  | recordStorageAdded (rawBytes storedBytes : UInt64)
  | recordStorageRemoved (count rawBytes storedBytes : UInt64)
  | recordHealthRequest

/-- The operations of a call, in order. -/
def MetricsCall.ops : MetricsCall → List (Counter × CounterOp)
  | recordIngested => [(.messagesIngested, .fetchAdd 1)]
  | recordRejected => [(.messagesRejected, .fetchAdd 1)]
  | recordGossiped n => if 0 < n then [(.messagesGossiped, .fetchAdd n)] else []
  | recordDuplicated => [(.messagesDuplicated, .fetchAdd 1)]
  | setPeers known synced => [(.peersKnown, .store known), (.peersSynced, .store synced)]
  | recordStorageAdded rawBytes storedBytes =>
    [(.storageEvents, .fetchAdd 1), (.storageRawBytes, .fetchAdd rawBytes),
      (.storageStoredBytes, .fetchAdd storedBytes)]
  | recordStorageRemoved count rawBytes storedBytes =>
    [(.storageEvents, .saturatingSub count), (.storageRawBytes, .saturatingSub rawBytes),
      (.storageStoredBytes, .saturatingSub storedBytes)]
  | recordHealthRequest => [(.healthRequests, .fetchAdd 1)]

/-- What calls do to one counter. -/
def program (c : Counter) (calls : List MetricsCall) : List CounterOp :=
  (calls.flatMap MetricsCall.ops).filterMap fun d => if d.1 = c then some d.2 else none

/-! ## What operations add up to -/

/-- The value after operations on a fresh counter. -/
def applyAll (os : List CounterOp) : UInt64 := os.foldl (fun v o => o.effect v) 0

/-- What operations should make of it. -/
def total (os : List CounterOp) : Int := (os.map CounterOp.weight).sum

/-- What operations add. -/
def gains (os : List CounterOp) : Nat := (os.map CounterOp.gain).sum

variable {os ps : List CounterOp} {o : CounterOp} {v : UInt64}

theorem applyAll_snoc (os : List CounterOp) (o : CounterOp) : applyAll (os ++ [o]) = o.effect (applyAll os) := by
  rw [applyAll, List.foldl_append]
  rfl

theorem total_snoc (os : List CounterOp) (o : CounterOp) : total (os ++ [o]) = total os + o.weight := by
  simp [total]

theorem total_cons (o : CounterOp) (os : List CounterOp) : total (o :: os) = o.weight + total os := by
  simp [total]

theorem gains_cons (o : CounterOp) (os : List CounterOp) : gains (o :: os) = o.gain + gains os := by
  simp [gains]

theorem gains_snoc (os : List CounterOp) (o : CounterOp) : gains (os ++ [o]) = gains os + o.gain := by
  simp [gains]

/-- **What an operation changes**: what it should, and more if it stops at zero. -/
theorem effect_weight (ho : o.Additive) (hfit : v.toNat + o.gain < 2 ^ 64) :
    ((o.effect v).toNat : Int) = max 0 (v.toNat + o.weight) := by
  cases o with
  | fetchAdd n =>
    have hn : v.toNat + n.toNat < 2 ^ 64 := hfit
    show ((v + n).toNat : Int) = max 0 (v.toNat + n.toNat)
    rw [UInt64.toNat_add, Nat.mod_eq_of_lt hn]
    omega
  | store n => exact ho.elim
  | saturatingSub n =>
    show ((if v < n then 0 else v - n).toNat : Int) = max 0 ((v.toNat : Int) + -(n.toNat : Int))
    split
    · next h =>
      have hlt := UInt64.lt_iff_toNat_lt.mp h
      rw [UInt64.toNat_zero]
      omega
    · next h =>
      have hle := UInt64.le_iff_toNat_le.mp (UInt64.not_lt.mp h)
      rw [UInt64.toNat_sub_of_le _ _ (UInt64.not_lt.mp h)]
      omega

theorem weight_le_gain (o : CounterOp) : o.weight ≤ o.gain := by
  cases o <;> simp [CounterOp.weight, CounterOp.gain]

/-- What holds of operations that add and take back, as long as the counter cannot overflow. -/
structure Bounded (os : List CounterOp) : Prop where
  additive : ∀ o ∈ os, o.Additive
  fits : gains os < 2 ^ 64

theorem Bounded.init (h : Bounded (os ++ [o])) : Bounded os ∧ o.Additive ∧ gains os + o.gain < 2 ^ 64 := by
  have hfits := h.fits
  rw [gains_snoc] at hfits
  exact ⟨⟨fun o' ho' => h.additive o' (List.mem_append_left _ ho'), by omega⟩, h.additive o (by simp), hfits⟩

theorem applyAll_le_gains (h : Bounded os) : (applyAll os).toNat ≤ gains os := by
  induction os using List.reverseRecOn with
  | nil => exact Nat.le_refl 0
  | append_singleton os o ih =>
    obtain ⟨hos, ho, hfit⟩ := h.init
    have hle := ih hos
    have heff := effect_weight (v := applyAll os) ho (by omega)
    have hw := weight_le_gain o
    rw [applyAll_snoc, gains_snoc]
    omega

theorem applyAll_weight (h : Bounded (os ++ [o])) :
    ((applyAll (os ++ [o])).toNat : Int) = max 0 ((applyAll os).toNat + o.weight) := by
  obtain ⟨hos, ho, hfit⟩ := h.init
  have hle := applyAll_le_gains hos
  rw [applyAll_snoc]
  exact effect_weight ho (by omega)

/-- A counter that stopped at zero has too much ever after. -/
theorem total_le_applyAll (h : Bounded os) : total os ≤ (applyAll os).toNat := by
  induction os using List.reverseRecOn with
  | nil => exact Int.le_refl 0
  | append_singleton os o ih =>
    have hle := ih h.init.1
    rw [applyAll_weight h, total_snoc]
    omega

/-- **A counter is exact if and only if no more is ever taken back than there is.** -/
theorem exact_iff (h : Bounded os) :
    ((applyAll os).toNat : Int) = total os ↔ ∀ ps, ps <+: os → 0 ≤ total ps := by
  induction os using List.reverseRecOn with
  | nil =>
    refine ⟨fun _ ps hps => ?_, fun _ => rfl⟩
    rw [List.prefix_nil.mp hps]
    exact Int.le_refl 0
  | append_singleton os o ih =>
    have hos := h.init.1
    have hle := total_le_applyAll hos
    have hw := applyAll_weight h
    constructor
    · intro heq ps hps
      rw [hw, total_snoc] at heq
      rcases List.prefix_concat_iff.mp hps with rfl | hps
      · rw [total_snoc]
        omega
      · exact (ih hos).mp (by omega) ps hps
    · intro hall
      have hex := (ih hos).mpr fun ps hps => hall ps (hps.trans (List.prefix_append os [o]))
      have hlast := hall (os ++ [o]) (List.prefix_refl _)
      rw [total_snoc] at hlast
      rw [hw, total_snoc]
      omega

/-! ## Several threads -/

section

variable {T : Type} [DecidableEq T] [Fintype T] {progs : T → List CounterOp} {s : Shared T UInt64 CounterOp}

/-- The operations done so far are within bounds if those of all programs are. -/
theorem bounded_done (hadd : ∀ t, ∀ o ∈ progs t, o.Additive) (hfit : ∑ t, gains (progs t) < 2 ^ 64)
    (hs : Shared.Linear CounterOp.effect progs 0 s) : Bounded (s.done.map Prod.snd) where
  additive o ho := by
    obtain ⟨d, hd, rfl⟩ := List.mem_map.mp ho
    refine hadd d.1 _ ?_
    rw [← hs.order d.1]
    exact List.mem_append_left _ (List.mem_map.mpr ⟨d, by simp [hd], rfl⟩)
  fits := by
    have hle : ∀ t, gains ((s.done.filter (·.1 = t)).map Prod.snd) ≤ gains (progs t) := by
      intro t
      rw [← hs.order t]
      simp [gains]
    rw [gains, List.map_map]
    exact ((sum_threads CounterOp.gain s.done).trans_le (Finset.sum_le_sum fun t _ => hle t)).trans_lt hfit

omit [Fintype T] in
theorem value_done (hs : Shared.Linear CounterOp.effect progs 0 s) : s.value = applyAll (s.done.map Prod.snd) := by
  rw [hs.value, applyAll, List.foldl_map]

theorem total_done (s : Shared T UInt64 CounterOp) :
    total (s.done.map Prod.snd) = ∑ t, total ((s.done.filter (·.1 = t)).map Prod.snd) := by
  rw [total, List.map_map]
  exact sum_threads CounterOp.weight s.done

/-- **A counter that threads share is exact at every moment**, if none of them takes back more than it added. -/
theorem exact_shared (hadd : ∀ t, ∀ o ∈ progs t, o.Additive) (hfit : ∑ t, gains (progs t) < 2 ^ 64)
    (hw : ∀ t ps, ps <+: progs t → 0 ≤ total ps) (hs : Shared.Linear CounterOp.effect progs 0 s) :
    (s.value.toNat : Int) = ∑ t, total ((s.done.filter (·.1 = t)).map Prod.snd) := by
  rw [value_done hs, ← total_done, exact_iff (bounded_done hadd hfit hs)]
  intro ps hps
  rw [List.prefix_iff_eq_take.mp hps, ← List.map_take, total, List.map_map]
  exact nonneg_of_threads hw (fun t => ⟨_, hs.order t⟩) (List.take_prefix _ _)

/-- Only the two counters of the peers are set. -/
theorem store_ops {call : MetricsCall} {c : Counter} {n : UInt64} (h : (c, .store n) ∈ call.ops) :
    c = .peersKnown ∨ c = .peersSynced := by
  cases call with
  | recordGossiped k =>
    simp only [MetricsCall.ops] at h
    split at h <;> simp at h
  | setPeers known synced => exact (by simpa [MetricsCall.ops] using h : _ ∨ _).imp And.left And.left
  | _ => simp [MetricsCall.ops] at h

theorem mem_program {c : Counter} {calls : List MetricsCall} {o : CounterOp} (h : o ∈ program c calls) :
    ∃ call ∈ calls, (c, o) ∈ call.ops := by
  obtain ⟨⟨d, o'⟩, hd, heq⟩ := List.mem_filterMap.mp h
  obtain ⟨call, hcall, hmem⟩ := List.mem_flatMap.mp hd
  by_cases hdc : d = c
  · obtain rfl : o' = o := by simpa [hdc] using heq
    exact ⟨call, hcall, hdc ▸ hmem⟩
  · simp [hdc] at heq

theorem program_additive {c : Counter} (hc : c ≠ .peersKnown ∧ c ≠ .peersSynced) (calls : List MetricsCall) :
    ∀ o ∈ program c calls, o.Additive := by
  intro o ho
  obtain ⟨call, -, hmem⟩ := mem_program ho
  cases o with
  | store n => exact ((store_ops hmem).elim hc.1 hc.2).elim
  | _ => trivial

/-- **A counter shows what its threads reported if and only if no more was ever taken back than there was**; else it
shows more, whatever the calls and their interleaving. -/
theorem counter_exact_iff {calls : T → List MetricsCall} {c : Counter} (hc : c ≠ .peersKnown ∧ c ≠ .peersSynced)
    (hfit : ∑ t, gains (program c (calls t)) < 2 ^ 64) {as : List (CellAction T UInt64)}
    (h : (Shared.start (fun t => program c (calls t)) 0).run CounterOp.effect CounterOp.loops as = some s) :
    let done := s.done.map Prod.snd
    total done ≤ s.value.toNat ∧
      ((s.value.toNat : Int) = total done ↔ ∀ ps, ps <+: done → 0 ≤ total ps) ∧
      (s.Finished → total done = ∑ t, total (program c (calls t))) := by
  intro done
  have hlin := Shared.linear_run Shared.linear_start h
  have hbound := bounded_done (fun t => program_additive hc (calls t)) hfit hlin
  rw [value_done hlin]
  refine ⟨total_le_applyAll hbound, exact_iff hbound, fun hfin => ?_⟩
  rw [total_done]
  exact Finset.sum_congr rfl fun t _ => by rw [hlin.finished hfin t]

end

/-- A purge, and an insertion that it purges. -/
def purgeFirst : Bool → List MetricsCall
  | true => [.recordStorageAdded 5 3]
  | false => [.recordStorageRemoved 1 5 3]

/-- Reported the wrong way round, the purge is lost. -/
theorem counter_exact_iff_late :
    ∃ s, (Shared.start (fun t => program .storageRawBytes (purgeFirst t)) 0).run CounterOp.effect CounterOp.loops
      [.load false 0, .exchange false, .update true] = some s ∧ total (s.done.map Prod.snd) < s.value.toNat := by
  refine ⟨_, rfl, ?_⟩
  obtain ⟨hle, hiff, -⟩ := @counter_exact_iff Bool _ _ _ purgeFirst .storageRawBytes ⟨by decide, by decide⟩ (by decide)
    [.load false 0, .exchange false, .update true] rfl
  refine lt_of_le_of_ne hle fun heq => ?_
  have hneg := hiff.mp heq.symm [.saturatingSub 5] ⟨[.fetchAdd 5], rfl⟩
  exact absurd hneg (by decide)

/-! ## What a message store reports -/

/-- What a call on the store reports. -/
def callsOf (deflate : Bytes → Bytes) (s : TieredMessageStore) : StoreOp → List MetricsCall
  | .store id tier payload createdAt geohash =>
    if (s.store deflate id tier payload createdAt geohash).1 then
      [.recordStorageAdded (.ofNat payload.length) (.ofNat (deflate payload).length)]
    else []
  | .restore msg =>
    if (s.restore msg).1 then [.recordStorageAdded (.ofNat msg.originalSize) (.ofNat msg.payload.length)] else []
  | .sweepExpired now =>
    let purged := s.messages.filter fun m => !m.unexpired now
    [.recordStorageRemoved (.ofNat purged.length) (.ofNat (purged.map TieredMessage.originalSize).sum)
      (.ofNat (purged.map fun m => m.payload.length).sum)]

/-- And what a run of calls reports. -/
def storeCalls (deflate : Bytes → Bytes) : TieredMessageStore → List StoreOp → List MetricsCall
  | _, [] => []
  | s, op :: ops => callsOf deflate s op ++ storeCalls deflate (op.apply deflate s) ops

/-- The messages that a call takes in. -/
def takenOf (deflate : Bytes → Bytes) (s : TieredMessageStore) : StoreOp → List TieredMessage
  | .store id tier payload createdAt geohash =>
    if (s.store deflate id tier payload createdAt geohash).1 then
      [⟨id, tier, createdAt, deflate payload, payload.length, geohash⟩]
    else []
  | .restore msg => if (s.restore msg).1 then [msg] else []
  | .sweepExpired _ => []

/-- And those that a run takes in. -/
def taken (deflate : Bytes → Bytes) : TieredMessageStore → List StoreOp → List TieredMessage
  | _, [] => []
  | s, op :: ops => takenOf deflate s op ++ taken deflate (op.apply deflate s) ops

/-- What a counter should show. -/
def Counter.gauge : Counter → StorageGauges → Nat
  | .storageEvents, g => g.events
  | .storageRawBytes, g => g.rawBytes
  | .storageStoredBytes, g => g.storedBytes
  | _, _ => 0

/-- What a counter should show of these messages. -/
def Counter.amount (c : Counter) (ms : List TieredMessage) : Nat := c.gauge (TieredMessageStore.gauges ms)

theorem amount_append (c : Counter) (ms ns : List TieredMessage) :
    c.amount (ms ++ ns) = c.amount ms + c.amount ns := by
  cases c <;> simp [Counter.amount, Counter.gauge, TieredMessageStore.gauges]

theorem program_append (c : Counter) (cs ds : List MetricsCall) :
    program c (cs ++ ds) = program c cs ++ program c ds := by
  simp [program]

/-- What one operation of a store does to a counter: nothing, or one operation that changes the counter as the store's
messages change. -/
def Reports (c : Counter) (cs : List MetricsCall) (before after tk : List TieredMessage) : Prop :=
  (program c cs = [] ∧ c.amount after = c.amount before ∧ c.amount tk = 0) ∨
    ∃ o, program c cs = [o] ∧ o.Additive ∧ o.gain = c.amount tk ∧ (c.amount after : Int) = c.amount before + o.weight

theorem Reports.le {c : Counter} {cs : List MetricsCall} {before after tk : List TieredMessage}
    (h : Reports c cs before after tk) : c.amount after ≤ c.amount before + c.amount tk := by
  obtain ⟨-, heq, -⟩ | ⟨o, -, -, hgain, heq⟩ := h
  · omega
  · have hle := weight_le_gain o
    omega

theorem reports_none (c : Counter) (ms : List TieredMessage) : Reports c [] ms ms [] :=
  .inl ⟨rfl, rfl, by cases c <;> rfl⟩

/-- An addition of an amount. -/
theorem reports_add {c : Counter} {cs : List MetricsCall} {ms tk : List TieredMessage}
    (hp : program c cs = [.fetchAdd (.ofNat (c.amount tk))]) (hfit : c.amount tk < 2 ^ 64) :
    Reports c cs ms (ms ++ tk) tk :=
  .inr ⟨_, hp, trivial, UInt64.toNat_ofNat_of_lt' hfit,
    by simp [amount_append, CounterOp.weight, UInt64.toNat_ofNat_of_lt' hfit]⟩

/-- A subtraction of one. -/
theorem reports_sub {c : Counter} {cs : List MetricsCall} {before after : List TieredMessage}
    (purged : List TieredMessage) (hp : program c cs = [.saturatingSub (.ofNat (c.amount purged))])
    (hsplit : c.amount purged + c.amount after = c.amount before) (hfit : c.amount before < 2 ^ 64) :
    Reports c cs before after [] := by
  refine .inr ⟨_, hp, trivial, by cases c <;> rfl, ?_⟩
  show (c.amount after : Int) = c.amount before + -((UInt64.ofNat (c.amount purged)).toNat : Int)
  have hlt : c.amount purged < 2 ^ 64 := by omega
  rw [UInt64.toNat_ofNat_of_lt' hlt]
  omega

theorem reports_added (c : Counter) (ms : List TieredMessage) {msg : TieredMessage} (hfit : c.amount [msg] < 2 ^ 64) :
    Reports c [.recordStorageAdded (.ofNat msg.originalSize) (.ofNat msg.payload.length)] ms (ms ++ [msg]) [msg] := by
  cases c with
  | storageEvents | storageRawBytes | storageStoredBytes => exact reports_add rfl hfit
  | _ => exact .inl ⟨rfl, rfl, rfl⟩

theorem reports_removed (c : Counter) {ms : List TieredMessage} (keep : TieredMessage → Bool)
    (hfit : c.amount ms < 2 ^ 64) :
    let purged := ms.filter fun m => !keep m
    Reports c [.recordStorageRemoved (.ofNat purged.length) (.ofNat (purged.map TieredMessage.originalSize).sum)
      (.ofNat (purged.map fun m => m.payload.length).sum)] ms (ms.filter keep) [] := by
  intro purged
  cases c with
  | storageEvents =>
    refine reports_sub purged rfl ?_ hfit
    have hcount := List.length_eq_length_filter_add (l := ms) keep
    show (ms.filter fun m => !keep m).length + (ms.filter keep).length = ms.length
    omega
  | storageRawBytes =>
    exact reports_sub purged rfl (TieredMessageStore.sum_partition TieredMessage.originalSize keep ms) hfit
  | storageStoredBytes =>
    exact reports_sub purged rfl (TieredMessageStore.sum_partition (fun m => m.payload.length) keep ms) hfit
  | _ => exact .inl ⟨rfl, rfl, rfl⟩

variable {deflate : Bytes → Bytes} {s : TieredMessageStore} {op : StoreOp} {ops : List StoreOp} {c : Counter}

/-- **What a call reports is what it changes.** -/
theorem callsOf_reports (hs : s.Accounted) (hop : op.Sized)
    (hfit : c.amount s.messages + c.amount (takenOf deflate s op) < 2 ^ 64) :
    Reports c (callsOf deflate s op) s.messages (op.apply deflate s).messages (takenOf deflate s op) := by
  cases op with
  | store id tier payload createdAt geohash =>
    rcases TieredMessageStore.store_cases deflate s id tier payload createdAt geohash with hrefused | ⟨hstored, -, -⟩
    · simp only [callsOf, takenOf, StoreOp.apply, hrefused]
      exact reports_none c _
    · simp only [callsOf, takenOf, StoreOp.apply, hstored, if_true] at hfit ⊢
      exact @reports_added c s.messages ⟨id, tier, createdAt, deflate payload, payload.length, geohash⟩ (by omega)
  | restore msg =>
    rcases TieredMessageStore.restore_cases hs.budget hop with ⟨hrefused, -⟩ | ⟨hrestored, -, -⟩
    · simp only [callsOf, takenOf, StoreOp.apply, hrefused]
      exact reports_none c _
    · simp only [callsOf, takenOf, StoreOp.apply, hrestored, if_true] at hfit ⊢
      exact reports_added c s.messages (by omega)
  | sweepExpired now => exact reports_removed c (fun m => m.unexpired now) (by omega)

/-- What a run of a store does to a counter. -/
structure Faithful (deflate : Bytes → Bytes) (c : Counter) (s : TieredMessageStore) (ops : List StoreOp) : Prop where
  additive : ∀ o ∈ program c (storeCalls deflate s ops), o.Additive
  gains : gains (program c (storeCalls deflate s ops)) = c.amount (taken deflate s ops)
  whole : (c.amount (runStore deflate s ops).messages : Int) =
    c.amount s.messages + total (program c (storeCalls deflate s ops))
  moments : ∀ ps, ps <+: program c (storeCalls deflate s ops) → ∃ k,
    (c.amount (runStore deflate s (ops.take k)).messages : Int) = c.amount s.messages + total ps

/-- **At each moment of a run the reports add up to what the store holds.** -/
theorem faithful_run (hs : s.Accounted) (hops : ∀ op ∈ ops, op.Sized)
    (hfit : c.amount s.messages + c.amount (taken deflate s ops) < 2 ^ 64) : Faithful deflate c s ops := by
  induction ops generalizing s with
  | nil =>
    refine ⟨by simp [storeCalls, program], by cases c <;> rfl, by simp [storeCalls, program, total, runStore], ?_⟩
    intro ps hps
    rw [List.prefix_nil.mp hps]
    exact ⟨0, by simp [total, runStore]⟩
  | cons op ops ih =>
    have hop := hops op List.mem_cons_self
    rw [taken, amount_append] at hfit
    have hrep := @callsOf_reports deflate s op c hs hop (by omega)
    have hle := hrep.le
    have hs' : (op.apply deflate s).Accounted := StoreOp.accounted hs hop
    have hrest := ih hs' (fun op' hop' => hops op' (List.mem_cons_of_mem op hop')) (by omega)
    have hgains := hrest.gains
    have hwhole := hrest.whole
    obtain ⟨hprog, hsame, htaken⟩ | ⟨o, hprog, ho, hgain, hchange⟩ := hrep
    · have heq : program c (storeCalls deflate s (op :: ops)) =
          program c (storeCalls deflate (op.apply deflate s) ops) := by
        rw [storeCalls, program_append, hprog, List.nil_append]
      constructor
      · rw [heq]
        exact hrest.additive
      · rw [heq, hgains, taken, amount_append, htaken, Nat.zero_add]
      · rw [heq, ← hsame]
        exact hwhole
      · rw [heq, ← hsame]
        intro ps hps
        obtain ⟨k, hk⟩ := hrest.moments ps hps
        exact ⟨k + 1, hk⟩
    · have heq : program c (storeCalls deflate s (op :: ops)) =
          o :: program c (storeCalls deflate (op.apply deflate s) ops) := by
        rw [storeCalls, program_append, hprog, List.singleton_append]
      constructor
      · rw [heq]
        exact List.forall_mem_cons.mpr ⟨ho, hrest.additive⟩
      · rw [heq, gains_cons, hgains, hgain, taken, amount_append]
      · rw [heq, total_cons]
        show (c.amount (runStore deflate (op.apply deflate s) ops).messages : Int) = _
        omega
      · rw [heq]
        intro ps hps
        rcases ps with _ | ⟨p, ps⟩
        · exact ⟨0, by simp [total, runStore]⟩
        · obtain ⟨rfl, hrests⟩ := List.cons_prefix_cons.mp hps
          obtain ⟨k, hk⟩ := hrest.moments ps hrests
          refine ⟨k + 1, ?_⟩
          rw [total_cons]
          show (c.amount (runStore deflate (op.apply deflate s) (ops.take k)).messages : Int) = _
          omega

/-! ## Stores that share a registry -/

section

variable {T : Type} [DecidableEq T] [Fintype T]

/-- A counter, and the threads that run a store each and report to it. -/
def reporting (deflate : Bytes → Bytes) (stores : T → TieredMessageStore) (ops : T → List StoreOp) (c : Counter) :
    Shared T UInt64 CounterOp :=
  .start (fun t => program c (storeCalls deflate (stores t) (ops t))) 0

/-- **The gauges of a shared registry are exact in every interleaving.** Threads that each run a message store report to
the same counters. At every moment each storage gauge shows the sum of what the stores held at some moments of their
runs, and once the threads are done, of what the stores hold. They can always get done, and if no exchange fails
without a reason, their number bounds how often their loops turn. -/
theorem gauges_shared (deflate : Bytes → Bytes) {policy : T → StoragePolicy} {myGeohash : T → String}
    {ops : T → List StoreOp} (hops : ∀ t, ∀ op ∈ ops t, op.Sized) (c : Counter)
    (hfit : ∑ t, c.amount (taken deflate (emptyStore (policy t) (myGeohash t)) (ops t)) < 2 ^ 64) :
    let stores := fun t => emptyStore (policy t) (myGeohash t)
    let cell := reporting deflate stores ops c
    (∀ as s, cell.run CounterOp.effect CounterOp.loops as = some s →
      (∃ k : T → Nat, s.value.toNat = ∑ t, c.amount (runStore deflate (stores t) ((ops t).take (k t))).messages) ∧
      (s.Finished → s.value.toNat = ∑ t, c.amount (runStore deflate (stores t) (ops t)).messages) ∧
      ∃ bs s', s.run CounterOp.effect CounterOp.loops bs = some s' ∧ s'.Finished) ∧
    ∀ n, cell.PromptRun CounterOp.effect CounterOp.loops n →
      n ≤ (∑ t, (program c (storeCalls deflate (stores t) (ops t))).length) * (Fintype.card T + 1) +
        Fintype.card T := by
  intro stores cell
  have hzero : ∀ t, c.amount (stores t).messages = 0 := fun t => by cases c <;> rfl
  have hfaith : ∀ t, Faithful deflate c (stores t) (ops t) := by
    intro t
    refine faithful_run ⟨List.nodup_nil, Nat.zero_le _, rfl⟩ (hops t) ?_
    rw [hzero, Nat.zero_add]
    exact (Finset.single_le_sum (f := fun t => c.amount (taken deflate (stores t) (ops t)))
      (fun _ _ => Nat.zero_le _) (Finset.mem_univ t)).trans_lt hfit
  have hgains : ∑ t, gains (program c (storeCalls deflate (stores t) (ops t))) < 2 ^ 64 := by
    rwa [Finset.sum_congr rfl fun t _ => (hfaith t).gains]
  have hnonneg : ∀ t ps, ps <+: program c (storeCalls deflate (stores t) (ops t)) → 0 ≤ total ps := by
    intro t ps hps
    obtain ⟨k, hk⟩ := (hfaith t).moments ps hps
    rw [hzero] at hk
    omega
  refine ⟨fun as s hrun => ?_, fun n hprompt => ?_⟩
  · have hlin := Shared.linear_run Shared.linear_start hrun
    have hexact := exact_shared (fun t => (hfaith t).additive) hgains hnonneg hlin
    refine ⟨?_, fun hfin => ?_, Shared.exists_finish s⟩
    · choose k hk using fun t => (hfaith t).moments _ ⟨_, hlin.order t⟩
      refine ⟨k, Int.natCast_inj.mp ?_⟩
      rw [hexact, Nat.cast_sum]
      exact Finset.sum_congr rfl fun t _ => by rw [hk t, hzero]; simp
    · refine Int.natCast_inj.mp ?_
      rw [hexact, Nat.cast_sum]
      refine Finset.sum_congr rfl fun t _ => ?_
      have hwhole := (hfaith t).whole
      rw [hlin.finished hfin t]
      rw [hzero] at hwhole
      omega
  · have hle := Shared.length_le hprompt
    have hunready := Shared.unready_le cell
    rw [Shared.rank] at hle
    exact hle.trans (Nat.add_le_add_left hunready _)

end

/-- One store takes a message in and purges nothing, another takes one in and purges it. -/
def twoStores : Bool → List StoreOp
  | true => [.store "a" .critical (utf8Bytes "OK") 1700000000 "u09tunq", .sweepExpired 1700003600]
  | false => [.restore ⟨"b", .low, 1700000000, [0xf3, 0xf7, 0x06, 0x00], 2, "u09tunq"⟩, .sweepExpired 1700003600]

/-- However they interleave, one message of two bytes is left. -/
theorem gauges_shared_two :
    let cell := reporting id (fun _ => emptyStore .mobile "u09tunq") twoStores .storageRawBytes
    ∃ as s, cell.run CounterOp.effect CounterOp.loops as = some s ∧ s.Finished ∧ s.value.toNat = 2 := by
  have hsized : ∀ t, ∀ op ∈ twoStores t, op.Sized := by
    rintro (_ | _) <;> simp [twoStores, StoreOp.Sized]
  obtain ⟨hruns, -⟩ := @gauges_shared Bool _ _ id (fun _ => .mobile) (fun _ => "u09tunq") twoStores hsized
    .storageRawBytes (by decide)
  obtain ⟨-, -, as, s, hrun, hfin⟩ := hruns [] _ rfl
  obtain ⟨-, hdone, -⟩ := hruns as s hrun
  exact ⟨as, s, hrun, hfin, (hdone hfin).trans (by decide)⟩

end Onde.Metrics
