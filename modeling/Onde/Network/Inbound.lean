import Onde.Network.Queues
import Onde.Node.Receptions
import Onde.Protocol.Admission
import Onde.Protocol.Wire

/-!
# The inbound pump

* `processInbound`: every frame of the inbound queue is decoded and received like an event of a gossip peer, and its
  outcome counted (`PumpReport`);
* `accounts_pass`: a pass does nothing to the node but the receptions of the events its frames decode to, and counts
  each frame once;
* `inbound_accounted`: over every run of readers and pump, each frame received is handled once and in order, waiting or
  dropped, each frame handled is counted once, and the counters of the node move with the reports.
-/

namespace Onde.Network

open Onde.Lib Onde.Protocol

variable {h : Host}

/-- What the passes of the pump did. -/
structure PumpReport where
  framesReceived : Nat
  eventsIngested : Nat
  eventsRejected : Nat
  eventsNeutral : Nat
  decodeErrors : Nat
  framesQueuedOutbound : Nat
  deriving DecidableEq

namespace PumpReport

def zero : PumpReport := ⟨0, 0, 0, 0, 0, 0⟩

/-- Count the outcome of an event. -/
def count (report : PumpReport) : PeerEventOutcome → PumpReport
  | .alertStored | .endorsementApplied | .abuseReportApplied _ =>
    { report with eventsIngested := report.eventsIngested + 1 }
  | .social outcome => match outcome with
    | .postStored _ | .commentStored _ | .voteApplied | .followApplied | .messageStored | .moderationApplied =>
      { report with eventsIngested := report.eventsIngested + 1 }
    | .ignored => { report with eventsNeutral := report.eventsNeutral + 1 }
  | .rejected _ | .endorsementRejected _ | .abuseReportRejected _ =>
    { report with eventsRejected := report.eventsRejected + 1 }
  | .alertNotStored | .other => { report with eventsNeutral := report.eventsNeutral + 1 }

/-- Passes one after the other. -/
def add (a b : PumpReport) : PumpReport where
  framesReceived := a.framesReceived + b.framesReceived
  eventsIngested := a.eventsIngested + b.eventsIngested
  eventsRejected := a.eventsRejected + b.eventsRejected
  eventsNeutral := a.eventsNeutral + b.eventsNeutral
  decodeErrors := a.decodeErrors + b.decodeErrors
  framesQueuedOutbound := a.framesQueuedOutbound + b.framesQueuedOutbound

/-- The counters of the frames handled, without those of the frames sent. -/
def handled (report : PumpReport) : Nat :=
  report.eventsIngested + report.eventsNeutral + report.eventsRejected + report.decodeErrors

end PumpReport

/-- A frame of the inbound queue, and the surroundings in which the pump handles it. -/
structure InboundFrame where
  peerKey : String
  payload : Bytes
  env : Env
  now : Nat

/-- One frame: decoded, received and counted; a frame that does not decode is counted and forgotten. -/
def processFrame (s : PumpReport × Node h) (frame : InboundFrame) : PumpReport × Node h :=
  let report := { s.1 with framesReceived := s.1.framesReceived + 1 }
  match fromWireBytes frame.payload with
  | .ok event =>
    let received := s.2.receivePeerEvent frame.env frame.now event
    (report.count received.outcome, received.node)
  | .error _ => ({ report with decodeErrors := report.decodeErrors + 1 }, s.2)

/-- One pass over the frames. -/
def processInbound (n : Node h) (frames : List InboundFrame) : PumpReport × Node h :=
  frames.foldl processFrame (.zero, n)

end Onde.Network

namespace Onde.Node

open Onde.Lib Onde.Protocol Onde.Storage

variable {h : Host} {env : Env} {now : Nat} {n : Node h} {event : MeshEvent}

/-! ## The counters of a reception -/

theorem persistMessage_metrics (n : Node h) (id : String) (tier : MessageTier) (payload : Bytes) (createdAt : Nat)
    (geohash : String) : (n.persistMessage id tier payload createdAt geohash).metrics = n.metrics := by
  unfold persistMessage
  split <;> rfl

theorem keepMessage_metrics (n : Node h) (event : MeshEvent) (tier : MessageTier) :
    (n.keepMessage event tier).2.metrics = n.metrics := by
  unfold keepMessage
  dsimp only
  split
  · exact persistMessage_metrics _ _ _ _ _ _
  · rfl

theorem handleIncomingEndorsement_metrics (env : Env) (n : Node h) (event : MeshEvent) :
    (n.handleIncomingEndorsement env event).2.metrics = n.metrics := by
  unfold handleIncomingEndorsement
  repeat' split
  all_goals rfl

theorem handleIncomingAbuseReport_metrics (env : Env) (n : Node h) (event : MeshEvent) :
    (n.handleIncomingAbuseReport env event).2.metrics = n.metrics := by
  unfold handleIncomingAbuseReport
  repeat' split
  all_goals rfl

/-- The dispatcher counts nothing, -/
theorem routePeerEvent_metrics (env : Env) (now : Nat) (n : Node h) (event : MeshEvent) :
    (n.routePeerEvent env now event).node.metrics = n.metrics := by
  by_cases ha : event.kind = .alert
  · have heq : n.handleIncomingAlert env event = _ := handleIncomingAlert_eq ha
    unfold routePeerEvent
    simp only [ha]
    cases hv : event.validateWithReputation h.toPrimitives env.clock n.reputation with
    | error err =>
      rw [hv] at heq
      simp only [heq, Except.map]
      rfl
    | ok u =>
      rw [hv] at heq
      have hkept := keepMessage_metrics { n with gossip := (n.gossip.insertNew env.order event).2 } event .critical
      cases hkeep : keepMessage { n with gossip := (n.gossip.insertNew env.order event).2 } event .critical with
      | mk stored n' =>
        rw [hkeep] at hkept
        simp only [heq, Except.map, hkeep]
        cases stored <;> exact hkept
  by_cases he : event.kind = .endorsement
  · have hm := handleIncomingEndorsement_metrics env n event
    unfold routePeerEvent
    simp only [he]
    generalize n.handleIncomingEndorsement env event = r at hm ⊢
    obtain ⟨outcome, n'⟩ := r
    cases outcome with
    | applied => exact hm
    | ignored => exact hm
    | rejected err =>
      dsimp only
      split <;> exact hm
  by_cases hr : event.kind = .abuseReport
  · have hm := handleIncomingAbuseReport_metrics env n event
    unfold routePeerEvent
    simp only [hr]
    generalize n.handleIncomingAbuseReport env event = r at hm ⊢
    obtain ⟨outcome, n'⟩ := r
    cases outcome <;> exact hm
  cases hs : event.kind.isSocial with
  | true =>
    have heq : n.handleIncomingSocial env event = _ := handleIncomingSocial_eq hs
    rw [routePeerEvent_social hs, heq]
    cases socialPayload h event with
    | error err => rfl
    | ok effect => cases event.validateWithReputation h.toPrimitives env.clock n.reputation <;> rfl
  | false => rw [routePeerEvent_other ⟨ha, he, hr, hs⟩]

/-- and the gate counts duplicates only. -/
theorem receivePeerEventInner_metrics (env : Env) (now : Nat) (n : Node h) (event : MeshEvent) :
    (n.receivePeerEventInner env now event).node.metrics.messagesIngested = n.metrics.messagesIngested ∧
      (n.receivePeerEventInner env now event).node.metrics.messagesRejected = n.metrics.messagesRejected := by
  have hgate : (n.admitPeerEvent env now event).node.metrics.messagesIngested = n.metrics.messagesIngested ∧
      (n.admitPeerEvent env now event).node.metrics.messagesRejected = n.metrics.messagesRejected := by
    unfold admitPeerEvent
    dsimp only
    repeat' split
    all_goals exact ⟨rfl, rfl⟩
  unfold receivePeerEventInner
  dsimp only
  split
  · exact hgate
  · rw [routePeerEvent_metrics]
    split
    · exact hgate
    · exact hgate

end Onde.Node

namespace Onde.Network

open Onde.Lib Onde.Protocol

variable {h : Host} {n : Node h}

/-! ## What a pass does -/

/-- The receptions a pass makes. -/
def receptions (frames : List InboundFrame) : List Call :=
  frames.filterMap fun frame => (fromWireBytes frame.payload).toOption.map fun event => ⟨frame.env, frame.now, event⟩

/-- The node after receptions. -/
def afterReceptions (n : Node h) (calls : List Call) : Node h :=
  calls.foldl (fun n c => (n.receivePeerEvent c.env c.now c.event).node) n

theorem afterReceptions_append (n : Node h) (cs ds : List Call) :
    afterReceptions n (cs ++ ds) = afterReceptions (afterReceptions n cs) ds := List.foldl_append

/-- What a report and a node owe to the frames handled since a node was as it was. -/
structure Accounts (n₀ : Node h) (frames : List InboundFrame) (s : PumpReport × Node h) : Prop where
  node : s.2 = afterReceptions n₀ (receptions frames)
  received : s.1.framesReceived = frames.length
  handled : s.1.handled = frames.length
  decoded : s.1.decodeErrors + (receptions frames).length = frames.length
  ingested : s.2.metrics.messagesIngested = n₀.metrics.messagesIngested + s.1.eventsIngested
  rejected : s.2.metrics.messagesRejected = n₀.metrics.messagesRejected + s.1.eventsRejected

theorem accounts_start (n : Node h) : Accounts n [] (.zero, n) := ⟨rfl, rfl, rfl, rfl, rfl, rfl⟩

theorem receptions_snoc_error (frames : List InboundFrame) {frame : InboundFrame} {err : String}
    (hd : fromWireBytes frame.payload = .error err) : receptions (frames ++ [frame]) = receptions frames := by
  simp [receptions, hd, Except.toOption]

theorem receptions_snoc_ok (frames : List InboundFrame) {frame : InboundFrame} {event : MeshEvent}
    (hd : fromWireBytes frame.payload = .ok event) :
    receptions (frames ++ [frame]) = receptions frames ++ [⟨frame.env, frame.now, event⟩] := by
  simp [receptions, hd, Except.toOption]

/-- **Both classifications of an outcome agree**: the one of the report and the one of the counters of the node. -/
theorem count_agrees (report : PumpReport) (metrics : NodeMetrics) (outcome : PeerEventOutcome) :
    (report.count outcome).framesReceived = report.framesReceived ∧
      (report.count outcome).handled = report.handled + 1 ∧
      (report.count outcome).decodeErrors = report.decodeErrors ∧
      (Node.countOutcome metrics outcome).messagesIngested + report.eventsIngested =
        metrics.messagesIngested + (report.count outcome).eventsIngested ∧
      (Node.countOutcome metrics outcome).messagesRejected + report.eventsRejected =
        metrics.messagesRejected + (report.count outcome).eventsRejected := by
  cases outcome with
  | social outcome =>
    cases outcome <;> refine ⟨rfl, ?_, rfl, ?_, ?_⟩ <;>
      simp only [PumpReport.count, PumpReport.handled, Node.countOutcome] <;> omega
  | _ =>
    refine ⟨rfl, ?_, rfl, ?_, ?_⟩ <;>
      simp only [PumpReport.count, PumpReport.handled, Node.countOutcome] <;> omega

theorem processFrame_error {s : PumpReport × Node h} {frame : InboundFrame} {err : String}
    (hd : fromWireBytes frame.payload = .error err) : processFrame s frame =
      ({ s.1 with framesReceived := s.1.framesReceived + 1, decodeErrors := s.1.decodeErrors + 1 }, s.2) := by
  rw [processFrame, hd]

theorem processFrame_ok {s : PumpReport × Node h} {frame : InboundFrame} {event : MeshEvent}
    (hd : fromWireBytes frame.payload = .ok event) : processFrame s frame =
      (PumpReport.count { s.1 with framesReceived := s.1.framesReceived + 1 }
        (s.2.receivePeerEvent frame.env frame.now event).outcome,
        (s.2.receivePeerEvent frame.env frame.now event).node) := by
  rw [processFrame, hd]

/-- A frame is handled and accounted for. -/
theorem Accounts.frame {n₀ : Node h} {frames : List InboundFrame} {s : PumpReport × Node h} (ha : Accounts n₀ frames s)
    (frame : InboundFrame) : Accounts n₀ (frames ++ [frame]) (processFrame s frame) := by
  have hlen : (frames ++ [frame]).length = frames.length + 1 := by simp
  obtain ⟨hnode, hreceived, hhandled, hdecoded, hingested, hrejected⟩ := ha
  cases hd : fromWireBytes frame.payload with
  | error err =>
    rw [processFrame_error hd]
    have hcalls := receptions_snoc_error frames hd
    refine ⟨by rw [hcalls]; exact hnode, by rw [hlen]; exact congrArg (· + 1) hreceived, ?_, ?_, hingested, hrejected⟩
    · rw [hlen, ← hhandled]
      rfl
    · rw [hlen, hcalls, ← hdecoded]
      exact Nat.add_right_comm _ _ _
  | ok event =>
    rw [processFrame_ok hd]
    have hcalls := receptions_snoc_ok frames hd
    obtain ⟨hing, hrej⟩ := Node.receivePeerEventInner_metrics frame.env frame.now s.2 event
    obtain ⟨hcounted, hone, herrors, hmore, hless⟩ := count_agrees
      { s.1 with framesReceived := s.1.framesReceived + 1 }
      (s.2.receivePeerEventInner frame.env frame.now event).node.metrics
      (s.2.receivePeerEventInner frame.env frame.now event).outcome
    rw [hing] at hmore
    rw [hrej] at hless
    refine ⟨?_, ?_, ?_, ?_, ?_, ?_⟩
    · rw [hcalls, afterReceptions_append, ← hnode]
      rfl
    · rw [hlen, ← hreceived]
      exact hcounted
    · rw [hlen, ← hhandled]
      exact hone
    · rw [hlen, hcalls, List.length_append, ← hdecoded]
      exact congrArg (· + _) herrors
    · rw [hingested] at hmore
      refine Nat.add_right_cancel (m := s.1.eventsIngested) (hmore.trans ?_)
      exact Nat.add_right_comm _ _ _
    · rw [hrejected] at hless
      refine Nat.add_right_cancel (m := s.1.eventsRejected) (hless.trans ?_)
      exact Nat.add_right_comm _ _ _

/-- A pass is accounted for, -/
theorem accounts_pass (n : Node h) (frames : List InboundFrame) : Accounts n frames (processInbound n frames) := by
  induction frames using List.reverseRecOn with
  | nil => exact accounts_start n
  | append_singleton frames frame ih =>
    rw [processInbound, List.foldl_append]
    exact ih.frame frame

theorem receptions_append (frames frames' : List InboundFrame) :
    receptions (frames ++ frames') = receptions frames ++ receptions frames' := List.filterMap_append

/-- and so are passes one after the other. -/
theorem Accounts.trans {n₀ : Node h} {frames frames' : List InboundFrame} {s s' : PumpReport × Node h}
    (ha : Accounts n₀ frames s) (hb : Accounts s.2 frames' s') :
    Accounts n₀ (frames ++ frames') (s.1.add s'.1, s'.2) := by
  obtain ⟨hnode, hreceived, hhandled, hdecoded, hingested, hrejected⟩ := ha
  obtain ⟨hnode', hreceived', hhandled', hdecoded', hingested', hrejected'⟩ := hb
  have hcalls := receptions_append frames frames'
  refine ⟨?_, ?_, ?_, ?_, ?_, ?_⟩
  · rw [hcalls, afterReceptions_append, ← hnode]
    exact hnode'
  all_goals simp only [PumpReport.add, PumpReport.handled, hcalls, List.length_append] at *
  all_goals omega

/-! ## Runs -/

/-- The moment at which a frame is handled: what the reception reads, and the time it is told. -/
structure Moment where
  env : Env
  now : Nat

/-- The queues of a transport, the node the pump serves, the reports so far, and the frames handled, oldest first. -/
structure Post (h : Host) where
  queues : Queues Bytes
  node : Node h
  report : PumpReport
  handled : List InboundFrame

namespace Post

/-- What happens next: something to an outbound queue, a reader hands a frame over, or a pass of the pump. -/
inductive Action where
  | outbound (a : Outbound.Action Bytes)
  | receive (peerKey : String) (payload : Bytes)
  | pass (moment : Nat → Moment)

def start (capacity : Nat) (n : Node h) : Post h := ⟨.start capacity, n, .zero, []⟩

/-- The frames of a drained queue, each at its moment. -/
def timed (moment : Nat → Moment) (frames : List (String × Bytes)) : List InboundFrame :=
  frames.mapIdx fun i frame => ⟨frame.1, frame.2, (moment i).env, (moment i).now⟩

def step (s : Post h) : Action → Option (Post h)
  | .outbound a => (s.queues.step id (.outbound a)).map fun q => { s with queues := q }
  | .receive peerKey payload => (s.queues.step id (.receive peerKey payload)).map fun q => { s with queues := q }
  | .pass moment =>
    let drained := s.queues.drainInbound
    let frames := timed moment drained.1
    let passed := processInbound s.node frames
    some ⟨drained.2, passed.2, s.report.add passed.1, s.handled ++ frames⟩

def run : Post h → List Action → Option (Post h)
  | s, [] => some s
  | s, a :: as => (s.step a).bind fun s => run s as

/-- The frames the readers handed over, oldest first. -/
def arrived : List Action → List (String × Bytes)
  | [] => []
  | .receive peerKey payload :: as => (peerKey, payload) :: arrived as
  | _ :: as => arrived as

/-- The frame without its moment. -/
def wire (frames : List InboundFrame) : List (String × Bytes) := frames.map fun f => (f.peerKey, f.payload)

theorem wire_timed (moment : Nat → Moment) (frames : List (String × Bytes)) : wire (timed moment frames) = frames := by
  refine List.ext_getElem? fun i => ?_
  simp only [wire, timed, List.getElem?_map, List.getElem?_mapIdx, Option.map_map]
  cases frames[i]? <;> rfl

theorem wire_append (frames frames' : List InboundFrame) : wire (frames ++ frames') = wire frames ++ wire frames' :=
  List.map_append

/-- What a run keeps: each frame received is handled, waiting or dropped, in order, and those handled are accounted
for. -/
structure Settled (n₀ : Node h) (arrived : List (String × Bytes)) (s : Post h) : Prop where
  order : (wire s.handled ++ s.queues.inbound).Sublist arrived
  every : s.handled.length + s.queues.inbound.length + s.queues.framesDroppedInboundFull = arrived.length
  received : s.queues.framesReceived = arrived.length
  accounts : Accounts n₀ s.handled (s.report, s.node)

theorem settled_start (capacity : Nat) (n : Node h) : Settled n [] (start capacity n) :=
  ⟨.slnil, rfl, rfl, accounts_start n⟩

/-- The frames an action brings. -/
def Action.brings : Action → List (String × Bytes)
  | .receive peerKey payload => [(peerKey, payload)]
  | _ => []

theorem arrived_cons (a : Action) (as : List Action) : arrived (a :: as) = a.brings ++ arrived as := by
  cases a <;> rfl

/-- A frame that comes in goes last, after the oldest ones have made room. -/
theorem Settled.receive {n₀ : Node h} {came : List (String × Bytes)} {s s' : Post h} (hs : Settled n₀ came s)
    {peerKey : String} {payload : Bytes} (h : s.step (.receive peerKey payload) = some s') :
    Settled n₀ (came ++ [(peerKey, payload)]) s' := by
  unfold step Queues.step at h
  simp only [Option.map_map, Option.map_eq_some_iff, Function.comp_apply] at h
  obtain ⟨⟨gone, kept⟩, hr, rfl⟩ := h
  have hsplit : s.queues.inbound = gone ++ kept := evictFull_spec hr
  obtain ⟨horder, hevery, hreceived, haccounts⟩ := hs
  rw [hsplit] at horder hevery
  have hkept : (wire s.handled ++ kept).Sublist came :=
    ((List.Sublist.refl _).append (List.sublist_append_right gone kept)).trans horder
  refine ⟨?_, ?_, ?_, haccounts⟩
  · rw [← List.append_assoc]
    exact hkept.append (.refl _)
  · simp only [List.length_append] at hevery ⊢
    omega
  · rw [List.length_append, ← hreceived]
    rfl

/-- A pass takes every frame that waits. -/
theorem Settled.pass {n₀ : Node h} {came : List (String × Bytes)} {s s' : Post h} (hs : Settled n₀ came s)
    {moment : Nat → Moment} (h : s.step (.pass moment) = some s') : Settled n₀ came s' := by
  obtain ⟨horder, hevery, hreceived, haccounts⟩ := hs
  obtain rfl := Option.some.inj h
  have hlen : (timed moment s.queues.inbound).length = s.queues.inbound.length := List.length_mapIdx
  refine ⟨?_, ?_, hreceived, haccounts.trans (accounts_pass s.node (timed moment s.queues.inbound))⟩
  · rw [wire_append]
    dsimp only [Queues.drainInbound]
    rw [wire_timed, List.append_nil]
    exact horder
  · dsimp only [Queues.drainInbound]
    rw [List.length_append, hlen]
    exact hevery

/-- What happens to an outbound queue is no matter of the inbound one. -/
theorem Settled.outbound {n₀ : Node h} {came : List (String × Bytes)} {s s' : Post h} (hs : Settled n₀ came s)
    {a : Outbound.Action Bytes} (h : s.step (.outbound a) = some s') : Settled n₀ came s' := by
  unfold step Queues.step at h
  simp only [Option.map_map, Option.map_eq_some_iff, Function.comp_apply] at h
  obtain ⟨o, -, rfl⟩ := h
  exact ⟨hs.order, hs.every, hs.received, hs.accounts⟩

theorem Settled.step {n₀ : Node h} {came : List (String × Bytes)} {s s' : Post h} (hs : Settled n₀ came s)
    {a : Action} (h : s.step a = some s') : Settled n₀ (came ++ a.brings) s' := by
  cases a with
  | outbound a => exact (List.append_nil came).symm ▸ hs.outbound h
  | receive peerKey payload => exact hs.receive h
  | pass moment => exact (List.append_nil came).symm ▸ hs.pass h

theorem Settled.run {n₀ : Node h} {as : List Action} : ∀ {came : List (String × Bytes)} {s s' : Post h},
    Settled n₀ came s → s.run as = some s' → Settled n₀ (came ++ arrived as) s' := by
  induction as with
  | nil =>
    intro came s s' hs h
    obtain rfl := Option.some.inj h
    exact (List.append_nil came).symm ▸ hs
  | cons a as ih =>
    intro came s s' hs h
    obtain ⟨s₁, hstep, hrest⟩ := Option.bind_eq_some_iff.mp h
    rw [arrived_cons, ← List.append_assoc]
    exact ih (hs.step hstep) hrest

/-- **Every frame received is accounted for**: over every run of the readers, the writers and the pump, it is handled
once and in order, waits, or was dropped for want of room and counted; the node is the first one after the receptions
of the events that the frames handled decode to, and nothing else; each frame handled is counted once in the reports,
and the counters of the node have moved with them. -/
theorem inbound_accounted (capacity : Nat) (n₀ : Node h) (as : List Action) (s : Post h)
    (hr : (start capacity n₀).run as = some s) :
    (wire s.handled ++ s.queues.inbound).Sublist (arrived as) ∧
      s.handled.length + s.queues.inbound.length + s.queues.framesDroppedInboundFull = (arrived as).length ∧
      s.queues.framesReceived = (arrived as).length ∧
      s.node = afterReceptions n₀ (receptions s.handled) ∧
      s.report.framesReceived = s.handled.length ∧ s.report.handled = s.handled.length ∧
      s.report.decodeErrors + (receptions s.handled).length = s.handled.length ∧
      s.node.metrics.messagesIngested = n₀.metrics.messagesIngested + s.report.eventsIngested ∧
      s.node.metrics.messagesRejected = n₀.metrics.messagesRejected + s.report.eventsRejected := by
  have hs : Settled n₀ ([] ++ arrived as) s := (settled_start capacity n₀).run hr
  rw [List.nil_append] at hs
  obtain ⟨horder, hevery, hreceived, hnode, hreport, hhandled, hdecoded, hingested, hrejected⟩ := hs
  exact ⟨horder, hevery, hreceived, hnode, hreport, hhandled, hdecoded, hingested, hrejected⟩

/-- An event the author signed is in wire form, whatever the hops left. -/
theorem wireForm_ttl (kind : OndeMessageType) (ttl : UInt8) : WireForm { knownEvent kind with ttl := ttl } := by
  have hnew := newSigned_wireForm knownHost.toPrimitives (.ofByte 1) kind 1700000000 (by decide : TagsForm [])
    (by decide : Prefixable "OK")
  exact ⟨hnew.id, hnew.pubkey, hnew.tags, hnew.content, hnew.sig⟩

/-- Of three frames in a queue of two the first is dropped; the pump receives the alert that the next one decodes to,
and counts the last, which decodes to nothing. -/
theorem inbound_accounted_full : ∃ w s, fromWireBytes w = .ok (knownEvent .alert) ∧
    (start 2 trustingNode).run [.receive "peer" [], .receive "peer" w, .receive "peer" [0],
      .pass fun _ => ⟨.still 1700000000, 1700000000⟩] = some s ∧
    wire s.handled = [("peer", w), ("peer", [0])] ∧ s.queues.framesDroppedInboundFull = 1 ∧
    s.node = (trustingNode.receivePeerEvent (.still 1700000000) 1700000000 (knownEvent .alert)).node ∧
    s.report.decodeErrors = 1 := by
  have hform : WireForm (knownEvent .alert) := wireForm_ttl .alert 5
  have hvisible : knownEvent .alert ≠ blankEvent := fun h =>
    absurd (congrArg MeshEvent.ttl h) (by decide : (5 : UInt8) ≠ 0)
  obtain ⟨w, hdec⟩ : ∃ w, fromWireBytes w = .ok (knownEvent .alert) :=
    ⟨_, (decodes_iff (toWireBytes_wireForm hform)).mpr ⟨hform, hvisible⟩⟩
  obtain ⟨err, hzero⟩ : ∃ err, fromWireBytes [0] = .error err := ⟨_, rfl⟩
  obtain ⟨s, hr⟩ : ∃ s, (start 2 trustingNode).run [.receive "peer" [], .receive "peer" w, .receive "peer" [0],
      .pass fun _ => ⟨.still 1700000000, 1700000000⟩] = some s := ⟨_, rfl⟩
  obtain ⟨-, hevery, -, hnode, -, -, hdecoded, -⟩ := inbound_accounted 2 trustingNode _ s hr
  have hstate := Option.some.inj hr
  have hhandled : [⟨"peer", w, .still 1700000000, 1700000000⟩, ⟨"peer", [0], .still 1700000000, 1700000000⟩] =
      s.handled := congrArg Post.handled hstate
  have hwaiting : [] = s.queues.inbound := congrArg (fun s => s.queues.inbound) hstate
  have hreceptions : receptions s.handled = [⟨.still 1700000000, 1700000000, knownEvent .alert⟩] := by
    simp [receptions, ← hhandled, hdec, hzero, Except.toOption]
  rw [hreceptions, ← hhandled] at hdecoded
  rw [← hhandled, ← hwaiting] at hevery
  rw [hreceptions] at hnode
  exact ⟨w, s, hdec, hr, by rw [← hhandled]; rfl, Nat.add_left_cancel hevery, hnode, Nat.add_right_cancel hdecoded⟩

end Post

end Onde.Network
