import Onde.Simulation.Mesh

/-!
# The accounts of the simulator

* `Op`, `run`: sends and meetings on any nodes, while the clock runs, the nodes move and the difficulty is adjusted;
* `deliveredBy`, `passedBy`: the keys a run delivers, and those it sends past the proof of work;
* `SameMessage`: what a run keeps of a message object, its time to live among it;
* `Books`: the counters against the keys delivered and passed so far, kept by every operation (`Books.apply`);
* `run_accounted`: the accounts of every run of a new network.
-/

namespace Onde.Simulation

open Onde.Lib

/-- What happens to the network. -/
inductive Op where
  | send (senderId : ℤ) (ref : Ref)
  | meet (nodeA nodeB : ℤ)
  | wait (duration : ℚ≥0)
  | move (nodes : Dict ℤ SimNode)
  | adjust (networkLoad : ℚ)

namespace MeshNetwork

variable (rt : Runtime)

def apply (net : MeshNetwork) : Op → MeshNetwork
  | .send senderId ref => (net.sendMessage rt senderId ref).2
  | .meet nodeA nodeB => (net.forwardOpportunity nodeA nodeB).1
  | .wait duration => { net with now := net.now + duration }
  | .move nodes => { net with nodes := nodes }
  | .adjust networkLoad => net.adjustDifficulty networkLoad

def run (net : MeshNetwork) (ops : List Op) : MeshNetwork := ops.foldl (apply rt) net

/-! ## What a run sends and delivers -/

/-- Some neighbour of the sender gets the message at once. -/
def deliversDirectly (net : MeshNetwork) (senderId : ℤ) (ref : Ref) : Bool :=
  match net.nodes.lookup senderId with
  | none => false
  | some sender => match net.findNeighbors sender with
    | .error _ => false
    | .ok neighbors => match net.firstDeliveryLatency (net.messages ref) none neighbors with
      | .error _ => false
      | .ok first => first.isSome

/-- The keys an operation delivers: that of a message that passes and has such a neighbour, those of the copies handed
over. -/
def deliveries (net : MeshNetwork) : Op → List (ℤ × String)
  | .send senderId ref =>
    let gate := net.countSent.gate rt ref
    if gate.1 && gate.2.deliversDirectly senderId ref then [(net.messages ref).key] else []
  | .meet nodeA nodeB => (net.forwardOpportunity nodeA nodeB).2.map fun ref => (net.messages ref).key
  | _ => []

/-- The key an operation sends past the proof of work. -/
def passes (net : MeshNetwork) : Op → List (ℤ × String)
  | .send _ ref => if (net.countSent.gate rt ref).1 then [(net.messages ref).key] else []
  | _ => []

def deliveredBy (net : MeshNetwork) : List Op → List (ℤ × String)
  | [] => []
  | op :: ops => net.deliveries rt op ++ (net.apply rt op).deliveredBy ops

def passedBy (net : MeshNetwork) : List Op → List (ℤ × String)
  | [] => []
  | op :: ops => net.passes rt op ++ (net.apply rt op).passedBy ops

end MeshNetwork

/-- The operation sends an alert or a request for mutual aid. -/
def Op.sendsGated (messages : Ref → Message) : Op → Bool
  | .send _ ref => (messages ref).gated
  | _ => false

/-- What stays of a message, and its hops within its time to live. -/
structure SameMessage (old new : Message) : Prop where
  key : new.key = old.key
  msgType : new.msgType = old.msgType
  hops : old.hopCount ≤ old.ttl → new.hopCount ≤ new.ttl

theorem SameMessage.refl (msg : Message) : SameMessage msg msg := ⟨rfl, rfl, id⟩

theorem SameMessage.trans {a b c : Message} (hab : SameMessage a b) (hbc : SameMessage b c) : SameMessage a c :=
  ⟨hbc.key.trans hab.key, hbc.msgType.trans hab.msgType, fun h => hbc.hops (hab.hops h)⟩

theorem SameMessage.gated {old new : Message} (h : SameMessage old new) : new.gated = old.gated := by
  rw [Message.gated, Message.gated, h.msgType]

/-- The counters, for the keys delivered so far, the number of messages past the proof of work and of those that
needed one. -/
structure Counted (delivered : List (ℤ × String)) (passed gated : ℕ) (s : SimStats) : Prop where
  keys : s.deliveredKeys = delivered.toFinset
  count : s.totalMessagesDelivered = s.deliveredKeys.card
  samples : s.deliveryLatencySamples.length = s.totalMessagesDelivered
  sent : s.totalMessagesSent = passed + s.powFail
  gate : s.powSuccess + s.powFail = gated
  expired : s.expiredUniqueMessages ≤ s.totalMessagesExpired

/-- The accounts of a network: its counters, where what is delivered and what is in the buffers comes from, and the
message objects as they were at the start. -/
structure Books (messages : Ref → Message) (delivered passed : List (ℤ × String)) (gated : ℕ) (net : MeshNetwork) :
    Prop where
  counted : Counted delivered passed.length gated net.stats
  origin : ∀ key ∈ delivered, key ∈ passed
  buffered : ∀ nodeId, ∀ ref ∈ net.dtnRouter.buffers nodeId, (messages ref).key ∈ passed
  same : ∀ ref, SameMessage (messages ref) (net.messages ref)

/-! ## The counters -/

section
variable {delivered : List (ℤ × String)} {passed gated : ℕ} {s : SimStats}

theorem counted_zero : Counted [] 0 0 .zero := ⟨rfl, rfl, rfl, rfl, rfl, Nat.le_refl 0⟩

/-! A send is free, or its proof of work succeeds, or fails. -/

theorem Counted.free (hc : Counted delivered passed gated s) :
    Counted delivered (passed + 1) gated { s with totalMessagesSent := s.totalMessagesSent + 1 } := by
  have hsent := hc.sent
  exact ⟨hc.keys, hc.count, hc.samples, by simp only; omega, hc.gate, hc.expired⟩

theorem Counted.success (hc : Counted delivered passed gated s) : Counted delivered (passed + 1) (gated + 1)
    { s with totalMessagesSent := s.totalMessagesSent + 1, powSuccess := s.powSuccess + 1 } := by
  have hsent := hc.sent
  have hgate := hc.gate
  exact ⟨hc.keys, hc.count, hc.samples, by simp only; omega, by simp only; omega, hc.expired⟩

theorem Counted.failure (hc : Counted delivered passed gated s) : Counted delivered passed (gated + 1)
    { s with totalMessagesSent := s.totalMessagesSent + 1, powFail := s.powFail + 1 } := by
  have hsent := hc.sent
  have hgate := hc.gate
  exact ⟨hc.keys, hc.count, hc.samples, by simp only; omega, by simp only; omega, hc.expired⟩

/-- A delivery counts its key once, with one sample. -/
theorem Counted.deliver (hc : Counted delivered passed gated s) (key : ℤ × String) (latency : ℚ) :
    Counted (delivered ++ [key]) passed gated (s.registerUniqueDelivery key latency) := by
  have hset : (delivered ++ [key]).toFinset = insert key s.deliveredKeys := by
    rw [List.toFinset_append, hc.keys, Finset.union_comm]
    simp
  unfold SimStats.registerUniqueDelivery
  split
  · next hold => exact { hc with keys := by rw [hset, Finset.insert_eq_of_mem hold] }
  · next hnew =>
    refine ⟨hset.symm, ?_, ?_, hc.sent, hc.gate, hc.expired⟩
    · rw [Finset.card_insert_of_notMem hnew, ← hc.count]
    · rw [List.length_append, hc.samples]
      rfl

/-- An expired copy counts, and its message at most once. -/
theorem Counted.expire (hc : Counted delivered passed gated s) (key : ℤ × String) : Counted delivered passed gated
    ({ s with totalMessagesExpired := s.totalMessagesExpired + 1 }.registerUniqueExpired key) := by
  have hle := hc.expired
  unfold SimStats.registerUniqueExpired
  split
  · exact ⟨hc.keys, hc.count, hc.samples, hc.sent, hc.gate, Nat.le_succ_of_le hle⟩
  · exact ⟨hc.keys, hc.count, hc.samples, hc.sent, hc.gate, Nat.succ_le_succ hle⟩

/-- **Nothing is delivered twice, and nothing that was not sent past the proof of work.** -/
theorem Counted.delivered_le {keys : List (ℤ × String)} (hc : Counted delivered keys.length gated s)
    (horigin : ∀ key ∈ delivered, key ∈ keys) : s.totalMessagesDelivered + s.powFail ≤ s.totalMessagesSent := by
  have hsub : delivered.toFinset ⊆ keys.toFinset := fun key hk =>
    List.mem_toFinset.mpr (horigin key (List.mem_toFinset.mp hk))
  have hcard : s.totalMessagesDelivered ≤ keys.length := by
    rw [hc.count, hc.keys]
    exact (Finset.card_le_card hsub).trans keys.toFinset_card_le
  rw [hc.sent]
  exact Nat.add_le_add_right hcard s.powFail

end

/-! ## What the operations keep -/

section
variable {messages : Ref → Message} {delivered passed : List (ℤ × String)} {gated : ℕ} {net : MeshNetwork} {ref : Ref}

/-- An update that keeps a message keeps all of them. -/
theorem sameMessage_update {f : Message → Message} (hf : SameMessage (net.messages ref) (f (net.messages ref)))
    (r : Ref) : SameMessage (net.messages r) ((net.update ref f).messages r) := by
  by_cases hr : r = ref
  · subst hr
    simpa [MeshNetwork.update] using hf
  · simpa [MeshNetwork.update, hr] using SameMessage.refl (net.messages r)

theorem Books.storeMessage (hb : Books messages delivered passed gated net) (nodeId : ℤ)
    (hkey : (messages ref).key ∈ passed) : Books messages delivered passed gated (net.storeMessage nodeId ref) := by
  refine ⟨hb.counted, hb.origin, fun n r hr => ?_, hb.same⟩
  by_cases hn : n = nodeId
  · subst hn
    simp only [MeshNetwork.storeMessage, Function.update_self] at hr
    rcases mem_pushBounded hr with hold | rfl
    · exact hb.buffered n r hold
    · exact hkey
  · simp only [MeshNetwork.storeMessage, Function.update_of_ne hn] at hr
    exact hb.buffered n r hr

theorem Books.storeMessages (hkey : (messages ref).key ∈ passed) : ∀ (nodeIds : List ℤ) {net : MeshNetwork},
    Books messages delivered passed gated net →
      Books messages delivered passed gated (nodeIds.foldl (MeshNetwork.storeMessage · · ref) net)
  | [], _, hb => hb
  | nodeId :: nodeIds, _, hb => storeMessages hkey nodeIds (hb.storeMessage nodeId hkey)

/-- A hop is a delivery; it goes on only within the time to live. -/
theorem Books.hop (hb : Books messages delivered passed gated net) (hkey : (messages ref).key ∈ passed)
    (hlive : (net.messages ref).hopCount < (net.messages ref).ttl) :
    Books messages (delivered ++ [(messages ref).key]) passed gated (net.hop ref) := by
  have hsame : SameMessage (net.messages ref)
      { net.messages ref with hopCount := (net.messages ref).hopCount + 1 } := ⟨rfl, rfl, fun _ => hlive⟩
  refine ⟨?_, ?_, hb.buffered, fun r => (hb.same r).trans
    (sameMessage_update (f := fun msg => { msg with hopCount := msg.hopCount + 1 }) hsame r)⟩
  · rw [← (hb.same ref).key]
    have hcounted : Counted delivered passed.length gated
        { net.stats with totalDtnHops := net.stats.totalDtnHops + 1 } :=
      ⟨hb.counted.keys, hb.counted.count, hb.counted.samples, hb.counted.sent, hb.counted.gate, hb.counted.expired⟩
    exact hcounted.deliver _ _
  · intro key hk
    rcases List.mem_append.mp hk with hold | hnew
    · exact hb.origin key hold
    · rw [List.mem_singleton.mp hnew]
      exact hkey

theorem Books.expire (hb : Books messages delivered passed gated net) :
    Books messages delivered passed gated (net.expire ref) :=
  ⟨hb.counted.expire _, hb.origin, hb.buffered, hb.same⟩

/-! ### A meeting -/

/-- The accounts in the middle of a pass over a buffer: what was handed over is delivered. -/
structure PassBooks (messages : Ref → Message) (delivered passed : List (ℤ × String)) (gated : ℕ)
    (p : MeshNetwork.Pass) : Prop where
  books : Books messages (delivered ++ p.forwarded.map fun ref => (messages ref).key) passed gated p.net
  kept : ∀ ref ∈ p.newBuf, (messages ref).key ∈ passed

theorem PassBooks.visit {p : MeshNetwork.Pass} (hp : PassBooks messages delivered passed gated p) (nodeTo : ℤ)
    (hkey : (messages ref).key ∈ passed) : PassBooks messages delivered passed gated (p.visit nodeTo ref) := by
  unfold MeshNetwork.Pass.visit
  dsimp only
  split
  · split
    · next hlive =>
      refine ⟨?_, hp.kept⟩
      rw [List.map_append, ← List.append_assoc]
      exact hp.books.hop hkey hlive
    · exact ⟨hp.books.expire, hp.kept⟩
  · refine ⟨hp.books, fun r hr => ?_⟩
    rcases List.mem_append.mp hr with hold | hnew
    · exact hp.kept r hold
    · rw [List.mem_singleton.mp hnew]
      exact hkey

theorem PassBooks.visits (nodeTo : ℤ) : ∀ (buf : List Ref) {p : MeshNetwork.Pass},
    (∀ ref ∈ buf, (messages ref).key ∈ passed) → PassBooks messages delivered passed gated p →
      PassBooks messages delivered passed gated (buf.foldl (MeshNetwork.Pass.visit nodeTo) p)
  | [], _, _, hp => hp
  | ref :: buf, _, hbuf, hp =>
    visits nodeTo buf (fun r hr => hbuf r (List.mem_cons_of_mem ref hr)) (hp.visit nodeTo (hbuf ref List.mem_cons_self))

theorem Books.handOver {forwarded : List Ref} (nodeFrom nodeTo : ℤ)
    (hb : Books messages (delivered ++ forwarded.map fun ref => (messages ref).key) passed gated net) :
    Books messages (delivered ++ (net.handOver nodeFrom nodeTo forwarded).2.map fun ref => (messages ref).key) passed
      gated (net.handOver nodeFrom nodeTo forwarded).1 := by
  have hstart : PassBooks messages delivered passed gated ⟨net, [], forwarded⟩ := ⟨hb, nofun⟩
  obtain ⟨hbooks, hkept⟩ := hstart.visits nodeTo _ (hb.buffered nodeFrom)
  refine ⟨hbooks.counted, hbooks.origin, fun n r hr => ?_, hbooks.same⟩
  by_cases hn : n = nodeFrom
  · subst hn
    simp only [MeshNetwork.handOver, Function.update_self] at hr
    exact hkept r hr
  · simp only [MeshNetwork.handOver, Function.update_of_ne hn] at hr
    exact hbooks.buffered n r hr

/-- **A meeting delivers what it hands over, in both directions.** -/
theorem Books.forwardOpportunity (hb : Books messages delivered passed gated net) (nodeA nodeB : ℤ) :
    Books messages (delivered ++ (net.forwardOpportunity nodeA nodeB).2.map fun ref => (net.messages ref).key) passed
      gated (net.forwardOpportunity nodeA nodeB).1 := by
  have hkeys : (fun ref => (net.messages ref).key) = fun ref => (messages ref).key :=
    funext fun ref => (hb.same ref).key
  have hnone : Books messages (delivered ++ ([] : List Ref).map fun ref => (messages ref).key) passed gated net := by
    simpa using hb
  rw [hkeys]
  exact (hnone.handOver nodeA nodeB).handOver nodeB nodeA

/-! ### A send -/

variable {rt : Runtime}

/-- The search for a nonce changes no counter and no buffer, -/
theorem computePow_spec (rt : Runtime) (net : MeshNetwork) (ref : Ref) : (net.computePow rt ref).2.stats = net.stats ∧
    (net.computePow rt ref).2.dtnRouter = net.dtnRouter ∧
    ∀ r, SameMessage (net.messages r) ((net.computePow rt ref).2.messages r) := by
  unfold MeshNetwork.computePow
  dsimp only
  split
  · exact ⟨rfl, rfl, fun r => .refl _⟩
  · next digest _ =>
    have hsame : SameMessage (net.messages ref) { net.messages ref with powHash := digest } := ⟨rfl, rfl, id⟩
    exact ⟨rfl, rfl, sameMessage_update (f := fun msg => { msg with powHash := digest }) hsame⟩

/-- and its outcome is counted, if the message needs one. -/
theorem gate_stats (rt : Runtime) (net : MeshNetwork) (ref : Ref) : (net.gate rt ref).2.stats =
    if (net.messages ref).gated = false then net.stats
    else if (net.gate rt ref).1 then { net.stats with powSuccess := net.stats.powSuccess + 1 }
    else { net.stats with powFail := net.stats.powFail + 1 } := by
  have hstats := (computePow_spec rt net ref).1
  unfold MeshNetwork.gate
  cases hneed : (net.messages ref).gated with
  | false => rfl
  | true =>
    dsimp only
    rw [if_pos rfl, if_neg (show ¬true = false by decide)]
    cases hfound : (net.computePow rt ref).1 with
    | true => simp [hstats]
    | false => simp [hstats]

theorem gate_rest (rt : Runtime) (net : MeshNetwork) (ref : Ref) : (net.gate rt ref).2.dtnRouter = net.dtnRouter ∧
    ∀ r, SameMessage (net.messages r) ((net.gate rt ref).2.messages r) := by
  obtain ⟨-, hrouter, hsame⟩ := computePow_spec rt net ref
  unfold MeshNetwork.gate
  dsimp only
  split
  · split
    · exact ⟨hrouter, hsame⟩
    · exact ⟨hrouter, hsame⟩
  · exact ⟨rfl, fun r => .refl _⟩

/-- What needs no proof of work passes. -/
theorem gate_free (hneed : (net.messages ref).gated = false) : (net.gate rt ref).1 = true := by
  unfold MeshNetwork.gate
  rw [if_neg (by simp [hneed])]

/-- **The proof of work splits the messages that need one**; the rest pass. -/
theorem Books.gate (hb : Books messages delivered passed gated net) (rt : Runtime) (ref : Ref) :
    Books messages delivered (passed ++ if (net.countSent.gate rt ref).1 then [(messages ref).key] else [])
      (gated + (messages ref).gated.toNat) (net.countSent.gate rt ref).2 := by
  obtain ⟨hrouter, hsame⟩ := gate_rest rt net.countSent ref
  have hneed : (net.countSent.messages ref).gated = (messages ref).gated := (hb.same ref).gated
  have hstats := gate_stats rt net.countSent ref
  refine ⟨?_, fun key hk => List.mem_append_left _ (hb.origin key hk), fun n r hr => ?_,
    fun r => (hb.same r).trans (hsame r)⟩
  · rw [hstats, hneed]
    cases hg : (messages ref).gated with
    | false =>
      have hpass : (net.countSent.gate rt ref).1 = true := gate_free (hneed.trans hg)
      rw [hpass]
      simpa [MeshNetwork.countSent] using hb.counted.free
    | true =>
      cases hfound : (net.countSent.gate rt ref).1 with
      | true => simpa [MeshNetwork.countSent] using hb.counted.success
      | false => simpa [MeshNetwork.countSent] using hb.counted.failure
  · rw [hrouter] at hr
    exact List.mem_append_left _ (hb.buffered n r hr)

/-- The bytes are no part of the accounts. -/
theorem Books.countBytes (hb : Books messages delivered passed gated net) (ref : Ref) :
    Books messages delivered passed gated (net.countBytes ref) := by
  obtain ⟨hkeys, hcount, hsamples, hsent, hgate, hexpired⟩ := hb.counted
  unfold MeshNetwork.countBytes
  dsimp only
  split
  · exact ⟨⟨hkeys, hcount, hsamples, hsent, hgate, hexpired⟩, hb.origin, hb.buffered, hb.same⟩
  split
  · exact ⟨⟨hkeys, hcount, hsamples, hsent, hgate, hexpired⟩, hb.origin, hb.buffered, hb.same⟩
  · exact hb

theorem deliversDirectly_countBytes (net : MeshNetwork) (senderId : ℤ) (ref : Ref) :
    (net.countBytes ref).deliversDirectly senderId ref = net.deliversDirectly senderId ref := by
  have hrest : (net.countBytes ref).nodes = net.nodes ∧ (net.countBytes ref).messages = net.messages := by
    unfold MeshNetwork.countBytes
    dsimp only
    repeat' split
    all_goals exact ⟨rfl, rfl⟩
  unfold MeshNetwork.deliversDirectly
  rw [hrest.1, hrest.2]
  simp only [MeshNetwork.findNeighbors_congr hrest.1, MeshNetwork.firstDeliveryLatency_congr hrest.1]

/-- **A broadcast is one delivery if some neighbour gets the message at once**, and none otherwise. -/
theorem Books.broadcast {senderId : ℤ} {sender : SimNode} (hb : Books messages delivered passed gated net)
    (hkey : (messages ref).key ∈ passed) (hsender : net.nodes.lookup senderId = some sender) :
    Books messages (delivered ++ if net.deliversDirectly senderId ref then [(messages ref).key] else []) passed gated
      (net.broadcast senderId sender ref).2 := by
  have hstored : Books messages delivered passed gated (net.storeMessage senderId ref) :=
    hb.storeMessage senderId hkey
  have hnodes : (net.storeMessage senderId ref).nodes = net.nodes := rfl
  have hneighbors := MeshNetwork.findNeighbors_congr hnodes sender
  unfold MeshNetwork.broadcast
  dsimp only
  rw [hneighbors]
  cases hn : net.findNeighbors sender with
  | error err =>
    have hdirect : net.deliversDirectly senderId ref = false := by
      rw [MeshNetwork.deliversDirectly, hsender]
      simp only [hn]
    simpa [hdirect] using hstored
  | ok neighbors =>
    have hmsg : (net.storeMessage senderId ref).messages ref = net.messages ref := rfl
    have hfirst := MeshNetwork.firstDeliveryLatency_congr hnodes (net.messages ref) none neighbors
    dsimp only
    rw [hmsg, hfirst]
    cases hl : net.firstDeliveryLatency (net.messages ref) none neighbors with
    | error err =>
      have hdirect : net.deliversDirectly senderId ref = false := by
        rw [MeshNetwork.deliversDirectly, hsender]
        simp only [hn, hl]
      simpa [hdirect] using hstored
    | ok first =>
      have hdirect : net.deliversDirectly senderId ref = first.isSome := by
        rw [MeshNetwork.deliversDirectly, hsender]
        simp only [hn, hl]
      rw [hdirect]
      cases first with
      | none => simpa using Books.storeMessages hkey (neighbors.take 10) hstored
      | some latency =>
        refine Books.storeMessages hkey (neighbors.take 10) ⟨?_, ?_, hstored.buffered, hstored.same⟩
        · rw [(hb.same ref).key]
          exact hstored.counted.deliver _ _
        · intro key hk
          rcases List.mem_append.mp hk with hold | hnew
          · exact hstored.origin key hold
          · rw [List.mem_singleton.mp hnew]
            exact hkey

/-- **A send is one delivery if its message passes and has a neighbour to get it at once.** -/
theorem Books.sendMessage (hb : Books messages delivered passed gated net) (senderId : ℤ) :
    Books messages (delivered ++ net.deliveries rt (.send senderId ref)) (passed ++ net.passes rt (.send senderId ref))
      (gated + (messages ref).gated.toNat) (net.sendMessage rt senderId ref).2 := by
  have hkey : (net.messages ref).key = (messages ref).key := (hb.same ref).key
  have hgate := hb.gate rt ref
  unfold MeshNetwork.sendMessage MeshNetwork.deliveries MeshNetwork.passes
  dsimp only
  rw [hkey]
  cases hpass : (net.countSent.gate rt ref).1 with
  | false =>
    rw [hpass] at hgate
    simpa using hgate
  | true =>
    rw [hpass, if_pos rfl] at hgate
    rw [Bool.true_and, if_pos rfl, if_neg (show ¬(!true) = true by decide)]
    have hmem : (messages ref).key ∈ passed ++ [(messages ref).key] := by simp
    have hbytes := hgate.countBytes ref
    rw [← deliversDirectly_countBytes]
    generalize (net.countSent.gate rt ref).2.countBytes ref = sent at hbytes ⊢
    cases hl : sent.nodes.lookup senderId with
    | none =>
      have hdirect : sent.deliversDirectly senderId ref = false := by rw [MeshNetwork.deliversDirectly, hl]
      simpa [hdirect] using hbytes
    | some sender => exact hbytes.broadcast hmem hl

/-- The difficulty is no part of the accounts. -/
theorem Books.adjustDifficulty (hb : Books messages delivered passed gated net) (networkLoad : ℚ) :
    Books messages delivered passed gated (net.adjustDifficulty networkLoad) := by
  unfold MeshNetwork.adjustDifficulty
  repeat' split
  all_goals exact ⟨hb.counted, hb.origin, hb.buffered, hb.same⟩

/-- **Every operation keeps the accounts.** -/
theorem Books.apply (hb : Books messages delivered passed gated net) (rt : Runtime) (op : Op) :
    Books messages (delivered ++ net.deliveries rt op) (passed ++ net.passes rt op)
      (gated + (op.sendsGated messages).toNat) (net.apply rt op) := by
  cases op with
  | send senderId ref => exact hb.sendMessage senderId
  | meet nodeA nodeB =>
    simpa [MeshNetwork.apply, MeshNetwork.deliveries, MeshNetwork.passes, Op.sendsGated] using
      hb.forwardOpportunity nodeA nodeB
  | wait duration =>
    have hwait : Books messages delivered passed gated { net with now := net.now + duration } :=
      ⟨hb.counted, hb.origin, hb.buffered, hb.same⟩
    simpa [MeshNetwork.apply, MeshNetwork.deliveries, MeshNetwork.passes, Op.sendsGated] using hwait
  | move nodes =>
    have hmove : Books messages delivered passed gated { net with nodes := nodes } :=
      ⟨hb.counted, hb.origin, hb.buffered, hb.same⟩
    simpa [MeshNetwork.apply, MeshNetwork.deliveries, MeshNetwork.passes, Op.sendsGated] using hmove
  | adjust networkLoad =>
    simpa [MeshNetwork.apply, MeshNetwork.deliveries, MeshNetwork.passes, Op.sendsGated] using
      hb.adjustDifficulty networkLoad

/-- **Every run keeps the accounts.** -/
theorem Books.run (rt : Runtime) : ∀ (ops : List Op) {delivered passed : List (ℤ × String)} {gated : ℕ}
    {net : MeshNetwork}, Books messages delivered passed gated net →
      Books messages (delivered ++ net.deliveredBy rt ops) (passed ++ net.passedBy rt ops)
        (gated + ops.countP (Op.sendsGated messages)) (net.run rt ops)
  | [], _, _, _, _, hb => by simpa [MeshNetwork.deliveredBy, MeshNetwork.passedBy, MeshNetwork.run] using hb
  | op :: ops, _, _, gated, _, hb => by
    have hrest := Books.run rt ops (hb.apply rt op)
    have hcount : gated + (op :: ops).countP (Op.sendsGated messages) =
        gated + (op.sendsGated messages).toNat + ops.countP (Op.sendsGated messages) := by
      rw [List.countP_cons]
      cases op.sendsGated messages
      · simp
      · simp
        omega
    rw [hcount, MeshNetwork.deliveredBy, MeshNetwork.passedBy, ← List.append_assoc, ← List.append_assoc]
    exact hrest

theorem books_fresh (now : ℚ) (nodes : Dict ℤ SimNode) (messages : Ref → Message) :
    Books messages [] [] 0 (.fresh now nodes messages) :=
  ⟨counted_zero, nofun, nofun, fun _ => .refl _⟩

end

/-! ## The accounts of a run -/

/-- The accounts of a run from the network at its start. -/
structure Accounted (rt : Runtime) (net : MeshNetwork) (ops : List Op) : Prop where
  delivered : (net.run rt ops).stats.totalMessagesDelivered = (net.deliveredBy rt ops).toFinset.card
  samples : (net.run rt ops).stats.deliveryLatencySamples.length = (net.run rt ops).stats.totalMessagesDelivered
  sent : (net.run rt ops).stats.totalMessagesDelivered + (net.run rt ops).stats.powFail ≤
    (net.run rt ops).stats.totalMessagesSent
  gated : (net.run rt ops).stats.powSuccess + (net.run rt ops).stats.powFail =
    ops.countP (Op.sendsGated net.messages)
  expired : (net.run rt ops).stats.expiredUniqueMessages ≤ (net.run rt ops).stats.totalMessagesExpired
  hops : ∀ ref, (net.messages ref).hopCount ≤ (net.messages ref).ttl →
    ((net.run rt ops).messages ref).hopCount ≤ ((net.run rt ops).messages ref).ttl

/-- **The accounts of every run of a new network.** The messages delivered are counted once for each sender and
identifier, with one latency each, and there are no more of them than messages sent past the proof of work; every alert
and every request for mutual aid is a success or a failure of it; a message that expires is counted with its first
expired copy; and no message takes more hops than its time to live, however many copies it has. -/
theorem run_accounted (rt : Runtime) (now : ℚ) (nodes : Dict ℤ SimNode) (messages : Ref → Message) (ops : List Op) :
    Accounted rt (.fresh now nodes messages) ops := by
  have hb := (books_fresh now nodes messages).run rt ops
  rw [List.nil_append, List.nil_append, Nat.zero_add] at hb
  have hc := hb.counted
  refine ⟨by rw [hc.count, hc.keys], hc.samples, hc.delivered_le hb.origin, hc.gate, hc.expired, fun ref hle => ?_⟩
  exact (hb.same ref).hops hle

/-- A message to two neighbours, one of whom meets another node later, is delivered once and hops once. -/
example :
    let place := fun (nodes : Dict ℤ SimNode) nodeId x y => nodes.insert nodeId ⟨nodeId, .wifiAware, x, y⟩
    let nodes := place (place (place (place ∅ 0 500 500) 1 550 500) 2 450 500) 3 950 950
    let msg : Message := ⟨"msg-1", 0, "ai_query", 100, 5, 0, 0, none, ""⟩
    let stats := ((MeshNetwork.fresh 0 nodes fun _ => msg).run ⟨id, fun _ => "0.0"⟩
      [.send 0 0, .wait 60, .meet 1 3]).stats
    stats.totalMessagesDelivered = 1 ∧ stats.deliveryLatencySamples.length = 1 ∧ stats.totalDtnHops = 1 := by
  decide +kernel

end Onde.Simulation
