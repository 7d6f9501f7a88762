import Mathlib.Data.NNRat.Defs
import Onde.Lib.Fifo
import Onde.Simulation.Encounters

/-!
# The mesh network of the simulator

* `SimStats`: the counters, by message and by copy;
* `computePow`: the search for a nonce;
* `storeMessage`, `forwardOpportunity`: the buffers of the delay-tolerant router;
* `sendMessage`: a message goes to the neighbours of its sender.

The copies of a message in the buffers are references to one object, which a hop changes for all of them.
-/

namespace Onde.Simulation

open Onde.Lib

/-! ## Messages, nodes and counters -/

/-- A reference to a message object. -/
abbrev Ref := ℕ

structure Message where
  msgId : String
  senderId : ℤ
  msgType : String
  payloadSizeBytes : ℤ
  ttl : ℤ
  hopCount : ℤ
  timestamp : ℚ
  destination : Option ℤ
  powHash : String

/-- What makes two messages the same to the counters. -/
def Message.key (msg : Message) : ℤ × String := (msg.senderId, msg.msgId)

/-- Whether the message is for a node; without a destination it is for all. -/
def Message.isFor (msg : Message) (nodeId : ℤ) : Bool := msg.destination = none || msg.destination = some nodeId

/-- The types that need a proof of work. -/
def Message.gated (msg : Message) : Bool := msg.msgType ∈ ["alert", "mutual_aid"]

structure TechProfile where
  rangeM : ℚ
  bandwidthBps : ℚ
  latencyMs : ℚ

def techProfiles : TechType → Option TechProfile
  | .wifiAware => some ⟨200, 50000000, 10⟩
  | .ble => some ⟨50, 2000000, 30⟩
  | .lora => some ⟨5000, 50000, 100⟩
  | .ethernet => some ⟨999999, 1000000000, 1⟩
  | .hybrid => none

structure SimNode where
  nodeId : ℤ
  tech : TechType
  x : ℚ
  y : ℚ

structure SimStats where
  totalMessagesSent : ℕ
  totalMessagesDelivered : ℕ
  totalMessagesExpired : ℕ
  totalDtnHops : ℕ
  totalVoiceBytes : ℤ
  totalTextBytes : ℤ
  powSuccess : ℕ
  powFail : ℕ
  deliveryLatencySamples : List ℚ
  deliveredKeys : Finset (ℤ × String)
  expiredKeys : Finset (ℤ × String)
  expiredUniqueMessages : ℕ

def SimStats.zero : SimStats := ⟨0, 0, 0, 0, 0, 0, 0, 0, [], ∅, ∅, 0⟩

/-- Count the first copy of a message that expires. -/
def SimStats.registerUniqueExpired (s : SimStats) (key : ℤ × String) : SimStats :=
  if key ∈ s.expiredKeys then s
  else { s with
    expiredKeys := insert key s.expiredKeys
    expiredUniqueMessages := s.expiredUniqueMessages + 1 }

/-- Count the first delivery of a message, with its latency. -/
def SimStats.registerUniqueDelivery (s : SimStats) (key : ℤ × String) (latency : ℚ) : SimStats :=
  if key ∈ s.deliveredKeys then s
  else { s with
    deliveredKeys := insert key s.deliveredKeys
    totalMessagesDelivered := s.totalMessagesDelivered + 1
    deliveryLatencySamples := s.deliveryLatencySamples ++ [latency] }

/-! ## The network -/

structure PowValidator where
  difficulty : ℕ
  adaptive : Bool
  totalAttempts : ℕ

structure DtnRouter where
  buffers : ℤ → List Ref
  forwardCount : ℕ
  dropCount : ℕ

/-- The network, with the clock and the message objects. -/
structure MeshNetwork where
  now : ℚ
  messages : Ref → Message
  nodes : Dict ℤ SimNode
  dtnRouter : DtnRouter
  powValidator : PowValidator
  stats : SimStats

/-- What the program takes from its libraries: the digest in hexadecimal and the text of a number. -/
structure Runtime where
  sha256Hexdigest : String → String
  formatFloat : ℚ → String

inductive KeyError where
  | node (nodeId : ℤ)
  | tech (tech : TechType)
  deriving DecidableEq

def maxAttempts : ℕ := 10000

def bufferCapacity : ℕ := 2000

namespace MeshNetwork

/-- A new network with the nodes and messages that are given. -/
def fresh (now : ℚ) (nodes : Dict ℤ SimNode) (messages : Ref → Message) : MeshNetwork where
  now := now
  messages := messages
  nodes := nodes
  dtnRouter := ⟨fun _ => [], 0, 0⟩
  powValidator := ⟨4, true, 0⟩
  stats := .zero

/-- Change a message object. -/
def update (net : MeshNetwork) (ref : Ref) (f : Message → Message) : MeshNetwork :=
  { net with messages := Function.update net.messages ref (f (net.messages ref)) }

/-! ## Proof of work -/

/-- The first nonce whose digest begins with the target, with the digest. -/
def findNonce (rt : Runtime) (target data : String) : ℕ → ℕ → Option (ℕ × String)
  | 0, _ => none
  | left + 1, nonce =>
    let digest := rt.sha256Hexdigest s!"{data}:{nonce}"
    if target.toList.isPrefixOf digest.toList then some (nonce, digest) else findNonce rt target data left (nonce + 1)

/-- Search a nonce for a message. -/
def computePow (rt : Runtime) (net : MeshNetwork) (ref : Ref) : Bool × MeshNetwork :=
  let msg := net.messages ref
  let target := String.ofList (List.replicate net.powValidator.difficulty '0')
  let data := s!"{msg.senderId}:{msg.msgType}:{msg.msgId}:{rt.formatFloat net.now}"
  match findNonce rt target data maxAttempts 0 with
  | none => (false, { net with powValidator.totalAttempts := net.powValidator.totalAttempts + maxAttempts })
  | some (nonce, digest) =>
    (true, { net.update ref (fun msg => { msg with powHash := digest }) with
      powValidator.totalAttempts := net.powValidator.totalAttempts + (nonce + 1) })

def adjustDifficulty (net : MeshNetwork) (networkLoad : ℚ) : MeshNetwork :=
  if !net.powValidator.adaptive then net
  else if 8 / 10 < networkLoad then { net with powValidator.difficulty := min 8 (net.powValidator.difficulty + 1) }
  else if networkLoad < 2 / 10 then { net with powValidator.difficulty := max 2 (net.powValidator.difficulty - 1) }
  else net

/-! ## The router -/

/-- Put a copy in the buffer of a node; a full one loses its oldest copy. -/
def storeMessage (net : MeshNetwork) (nodeId : ℤ) (ref : Ref) : MeshNetwork :=
  let buf := net.dtnRouter.buffers nodeId
  { net with dtnRouter := { net.dtnRouter with
    buffers := Function.update net.dtnRouter.buffers nodeId (pushBounded bufferCapacity buf ref)
    dropCount := if buf.length < bufferCapacity then net.dtnRouter.dropCount else net.dtnRouter.dropCount + 1 } }

/-- The pass over a buffer: the network so far, the copies that stay, the copies handed over. -/
structure Pass where
  net : MeshNetwork
  newBuf : List Ref
  forwarded : List Ref

/-- A hop of a copy. -/
def hop (net : MeshNetwork) (ref : Ref) : MeshNetwork :=
  let msg := net.messages ref
  let net := net.update ref fun msg => { msg with hopCount := msg.hopCount + 1 }
  { net with
    dtnRouter.forwardCount := net.dtnRouter.forwardCount + 1
    stats := { net.stats with totalDtnHops := net.stats.totalDtnHops + 1 }.registerUniqueDelivery msg.key
      (net.now - msg.timestamp) }

/-- A copy at the end of its time to live. -/
def expire (net : MeshNetwork) (ref : Ref) : MeshNetwork :=
  { net with stats := { net.stats with totalMessagesExpired := net.stats.totalMessagesExpired + 1
    }.registerUniqueExpired (net.messages ref).key }

/-- One copy of a buffer, with the node that is met. -/
def Pass.visit (nodeTo : ℤ) (p : Pass) (ref : Ref) : Pass :=
  let msg := p.net.messages ref
  if msg.isFor nodeTo then
    if msg.hopCount < msg.ttl then ⟨p.net.hop ref, p.newBuf, p.forwarded ++ [ref]⟩
    else { p with net := p.net.expire ref }
  else { p with newBuf := p.newBuf ++ [ref] }

/-- A node hands its copies over to another one. -/
def handOver (nodeFrom nodeTo : ℤ) (net : MeshNetwork) (forwarded : List Ref) : MeshNetwork × List Ref :=
  let p := (net.dtnRouter.buffers nodeFrom).foldl (Pass.visit nodeTo) ⟨net, [], forwarded⟩
  ({ p.net with dtnRouter.buffers := Function.update p.net.dtnRouter.buffers nodeFrom p.newBuf }, p.forwarded)

/-- Two nodes meet, with the copies that were handed over. -/
def forwardOpportunity (net : MeshNetwork) (nodeA nodeB : ℤ) : MeshNetwork × List Ref :=
  let there := net.handOver nodeA nodeB []
  there.1.handOver nodeB nodeA there.2

/-! ## Sending -/

/-- Whether a node reaches another one. Distances are compared by their squares. -/
def reaches (node : SimNode) (profile : TechProfile) (other : SimNode) : Bool :=
  let distSq := (node.x - other.x) ^ 2 + (node.y - other.y) ^ 2
  (node.tech = .ethernet && distSq < 1000 ^ 2) || (node.tech = .lora && distSq ≤ 5000 ^ 2) ||
    distSq ≤ profile.rangeM ^ 2

def findNeighbors (net : MeshNetwork) (node : SimNode) : Except KeyError (List ℤ) :=
  match techProfiles node.tech with
  | none => .error (.tech node.tech)
  | some profile => .ok (net.nodes.entries.filterMap fun other =>
    if other.1 = node.nodeId then none else if reaches node profile other.2 then some other.1 else none)

/-- The latency of the link to a neighbour. -/
def linkLatency (msg : Message) (profile : TechProfile) : ℚ :=
  profile.latencyMs / 1000 + msg.payloadSizeBytes * 8 / max 1 profile.bandwidthBps

/-- The least latency over the neighbours the message is for. -/
def firstDeliveryLatency (net : MeshNetwork) (msg : Message) : Option ℚ → List ℤ → Except KeyError (Option ℚ)
  | best, [] => .ok best
  | best, nbId :: rest => match net.nodes.lookup nbId with
    | none => .error (.node nbId)
    | some nb =>
      if msg.isFor nbId then match techProfiles nb.tech with
        | none => .error (.tech nb.tech)
        | some profile =>
          let latency := linkLatency msg profile
          net.firstDeliveryLatency msg (if best.all (latency < ·) then some latency else best) rest
      else net.firstDeliveryLatency msg best rest

def countSent (net : MeshNetwork) : MeshNetwork :=
  { net with stats.totalMessagesSent := net.stats.totalMessagesSent + 1 }

/-- The proof of work of the messages that need one. -/
def gate (rt : Runtime) (net : MeshNetwork) (ref : Ref) : Bool × MeshNetwork :=
  if (net.messages ref).gated then
    let (found, net) := net.computePow rt ref
    if found then (true, { net with stats.powSuccess := net.stats.powSuccess + 1 })
    else (false, { net with stats.powFail := net.stats.powFail + 1 })
  else (true, net)

def countBytes (net : MeshNetwork) (ref : Ref) : MeshNetwork :=
  let msg := net.messages ref
  if msg.msgType = "voice" then
    { net with stats.totalVoiceBytes := net.stats.totalVoiceBytes + msg.payloadSizeBytes }
  else if msg.msgType = "alert" then
    { net with stats.totalTextBytes := net.stats.totalTextBytes + msg.payloadSizeBytes }
  else net

/-- Store a copy at the sender, deliver to the neighbours, store copies at the first ten of them. -/
def broadcast (net : MeshNetwork) (senderId : ℤ) (sender : SimNode) (ref : Ref) : Except KeyError Bool × MeshNetwork :=
  let net := net.storeMessage senderId ref
  match net.findNeighbors sender with
  | .error err => (.error err, net)
  | .ok neighbors => match net.firstDeliveryLatency (net.messages ref) none neighbors with
    | .error err => (.error err, net)
    | .ok first =>
      let net := match first with
        | none => net
        | some latency => { net with stats := net.stats.registerUniqueDelivery (net.messages ref).key latency }
      (.ok true, (neighbors.take 10).foldl (storeMessage · · ref) net)

/-- Send a message. A missing profile raises half-way, and what was done before stays done. -/
def sendMessage (rt : Runtime) (net : MeshNetwork) (senderId : ℤ) (ref : Ref) : Except KeyError Bool × MeshNetwork :=
  let (passed, net) := net.countSent.gate rt ref
  if !passed then (.ok false, net)
  else
    let net := net.countBytes ref
    match net.nodes.lookup senderId with
    | none => (.ok false, net)
    | some sender => net.broadcast senderId sender ref

/-! ## What the search for neighbours reads -/

variable {net net' : MeshNetwork}

theorem findNeighbors_congr (hn : net'.nodes = net.nodes) (node : SimNode) :
    net'.findNeighbors node = net.findNeighbors node := by
  unfold findNeighbors
  rw [hn]

theorem firstDeliveryLatency_congr (hn : net'.nodes = net.nodes) (msg : Message) : ∀ (best : Option ℚ) (nbIds : List ℤ),
    net'.firstDeliveryLatency msg best nbIds = net.firstDeliveryLatency msg best nbIds
  | _, [] => rfl
  | best, nbId :: rest => by
    unfold firstDeliveryLatency
    rw [hn]
    simp only [firstDeliveryLatency_congr hn msg _ rest]

end MeshNetwork

end Onde.Simulation
