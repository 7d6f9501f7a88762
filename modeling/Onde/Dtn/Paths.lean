import Mathlib.Data.List.InsertIdx
import Onde.Dtn.Router

/-!
# The paths of the copies

A run of the router with a trace: each stored copy has a number and the nodes that held or received it, and each
handover is written down. Nodes store messages of their own, which nobody was served, or copies handed to them.

* `Traced`: the entries are the router's buffers, and the peers marked in a message cover its path (`Traced.pass`,
  `Traced.put`, `Traced.tick`);
* `handover_sound`: in every run no broadcast goes back to a node of its path, no entry is handed twice to one peer, no
  peer is marked twice, and the hop counter of what is handed is below the time to live.
-/

namespace Onde.Dtn

open Onde.Lib

/-! ## Entries and handovers -/

/-- A stored copy: its number, and the nodes that held or received it, the holder last. -/
structure Entry where
  msg : DtnMessage
  number : Nat
  path : List String

/-- A copy handed from one node to another: the entry it was taken from, as it was before. -/
structure Handover where
  entry : Entry
  fromNode : String
  toNode : String

namespace Handover

/-- The copy the receiver gets. -/
def copy (h : Handover) : DtnMessage := h.entry.msg.deliverable h.fromNode h.toNode

/-- The nodes that held or received the copy. -/
def copyPath (h : Handover) : List String := h.entry.path ++ [h.toNode]

/-- The handover is not a loop, has a hop left and marks its whole path once. -/
structure Sound (h : Handover) : Prop where
  noLoop : h.entry.msg.destination = none → h.toNode ∉ h.entry.path
  hop : h.entry.msg.hopCount < h.entry.msg.ttl
  served : h.copy.deliveredTo.Nodup
  marked : ∀ p ∈ h.copyPath, p ∈ h.copy.deliveredTo

/-- The hop counter of the copy does not wrap. -/
theorem Sound.hopCount {h : Handover} (hs : h.Sound) : h.copy.hopCount.toNat = h.entry.msg.hopCount.toNat + 1 := by
  have hlt := UInt8.lt_iff_toNat_lt.mp hs.hop
  have hmax := h.entry.msg.ttl.toNat_lt
  show (h.entry.msg.hopCount + 1).toNat = _
  rw [UInt8.toNat_add]
  simp only [UInt8.toNat_one]
  omega

end Handover

/-! ## The trace -/

/-- The stored copies of each node, the next number, and the handovers so far. -/
structure Trace where
  entries : String → List Entry
  next : Nat
  log : List Handover

namespace Trace

def start : Trace := ⟨fun _ => [], 0, []⟩

/-- What a pass hands over. -/
def handovers (es : List Entry) (fromNode toNode : String) : List Handover :=
  (es.filter fun e => e.msg.handed toNode).map fun e => ⟨e, fromNode, toNode⟩

/-- What a pass leaves. -/
def passEntries (es : List Entry) (fromNode toNode : String) : List Entry :=
  (es.filter fun e => !e.msg.leaves toNode).map fun e => { e with msg := e.msg.passed fromNode toNode }

def pass (t : Trace) (fromNode toNode : String) : Trace where
  entries := Function.update t.entries fromNode (passEntries (t.entries fromNode) fromNode toNode)
  next := t.next
  log := t.log ++ handovers (t.entries fromNode) fromNode toNode

theorem entries_pass (t : Trace) (fromNode toNode : String) : (t.pass fromNode toNode).entries =
    Function.update t.entries fromNode (passEntries (t.entries fromNode) fromNode toNode) := rfl

/-- A new entry after the ones that stay. -/
def put (t : Trace) (node : String) (kept : List Entry) (msg : DtnMessage) (path : List String) : Trace where
  entries := Function.update t.entries node (kept ++ [⟨msg, t.next, path⟩])
  next := t.next + 1
  log := t.log

/-- The entries beside `DtnRouter.store`. -/
def store (r : DtnRouter) (t : Trace) (node : String) (msg : DtnMessage) (path : List String) : Trace :=
  match (place r.maxBuffer (r.buffer node) msg).1 with
  | .stored => t.put node (t.entries node) msg path
  | .replaced => t.put node ((t.entries node).eraseIdx ((worstIndex (r.buffer node)).getD 0)) msg path
  | .rejected => t

/-- What a tick leaves. -/
def tickEntries (es : List Entry) : List Entry :=
  (es.filter fun e => !DtnRouter.expires e.msg).map fun e => { e with msg := DtnRouter.aged e.msg }

def tick (t : Trace) (node : String) : Trace where
  entries := Function.update t.entries node (tickEntries (t.entries node))
  next := t.next
  log := t.log

end Trace

/-- The runs in which nodes store messages nobody was served, or copies that were handed to them. -/
inductive TracedRun (maxBuffer : Nat) : DtnRouter → Trace → Prop
  | start : TracedRun maxBuffer (.new maxBuffer) .start
  | original {r : DtnRouter} {t : Trace} (hr : TracedRun maxBuffer r t) (node : String) (msg : DtnMessage)
    (hnew : msg.deliveredTo = []) : TracedRun maxBuffer (r.store node msg).2 (t.store r node msg [node])
  | copy {r : DtnRouter} {t : Trace} (hr : TracedRun maxBuffer r t) (h : Handover) (hmem : h ∈ t.log) :
    TracedRun maxBuffer (r.store h.toNode h.copy).2 (t.store r h.toNode h.copy h.copyPath)
  | encounter {r : DtnRouter} {t : Trace} (hr : TracedRun maxBuffer r t) (nodeA nodeB : String) (hne : nodeA ≠ nodeB) :
    TracedRun maxBuffer (r.encounter nodeA nodeB).2 ((t.pass nodeB nodeA).pass nodeA nodeB)
  | tick {r : DtnRouter} {t : Trace} (hr : TracedRun maxBuffer r t) (node : String) :
    TracedRun maxBuffer (r.tick node).2 (t.tick node)

/-! ## The invariant -/

/-- The peers marked in an entry are distinct and, with its holder, cover its path. -/
structure Entry.Held (e : Entry) (node : String) : Prop where
  served : e.msg.deliveredTo.Nodup
  path : ∀ p ∈ e.path, p = node ∨ p ∈ e.msg.deliveredTo

/-- What every run keeps. -/
structure Traced (buffers : Buffers) (t : Trace) : Prop where
  aligned : ∀ node, (t.entries node).map Entry.msg = buffers.getD node []
  numbered : ∀ node, ((t.entries node).map Entry.number).Nodup
  apart : ∀ {n m : String} {e f : Entry}, e ∈ t.entries n → f ∈ t.entries m → e.number = f.number → n = m
  fresh : ∀ {node : String} {e : Entry}, e ∈ t.entries node → e.number < t.next
  past : ∀ h ∈ t.log, h.entry.number < t.next
  held : ∀ {node : String} {e : Entry}, e ∈ t.entries node → e.Held node
  recorded : ∀ {node : String} {e : Entry} {h : Handover}, e ∈ t.entries node → h ∈ t.log →
    h.entry.number = e.number → e.msg.destination = none ∧ h.toNode ∈ e.msg.deliveredTo
  sound : ∀ h ∈ t.log, h.Sound
  once : (t.log.map fun h => (h.entry.number, h.toNode)).Nodup

namespace Traced

variable {buffers : Buffers} {t : Trace} {fromNode toNode node : String} {e e' f : Entry} {h : Handover}

/-- Two entries of one number are the same. -/
theorem eq_of_number (ht : Traced buffers t) {m : String} (he : e ∈ t.entries node) (hf : f ∈ t.entries m)
    (hn : e.number = f.number) : e = f := by
  obtain rfl := ht.apart he hf hn
  exact List.inj_on_of_nodup_map (ht.numbered node) he hf hn

/-- An entry of an updated node is new there, any other was there before. -/
theorem mem_update {es : List Entry} {at_ : String} (he : e ∈ Function.update t.entries at_ es node) :
    (node = at_ ∧ e ∈ es) ∨ (node ≠ at_ ∧ e ∈ t.entries node) := by
  by_cases hn : node = at_
  · subst hn
    rw [Function.update_self] at he
    exact Or.inl ⟨rfl, he⟩
  · rw [Function.update_of_ne hn] at he
    exact Or.inr ⟨hn, he⟩

/-! ## A pass -/

theorem mem_handovers {es : List Entry} (hh : h ∈ Trace.handovers es fromNode toNode) :
    h.entry ∈ es ∧ h.entry.msg.handed toNode = true ∧ h.fromNode = fromNode ∧ h.toNode = toNode := by
  obtain ⟨e, he, rfl⟩ := List.mem_map.mp hh
  exact ⟨(List.mem_filter.mp he).1, (List.mem_filter.mp he).2, rfl, rfl⟩

/-- The entries after a pass come from those before, unchanged or marked. -/
theorem mem_pass (he : e' ∈ (t.pass fromNode toNode).entries node) :
    ∃ e ∈ t.entries node, e'.number = e.number ∧ e'.path = e.path ∧ e'.msg.destination = e.msg.destination ∧
      (e'.msg.deliveredTo = e.msg.deliveredTo ∨
        e'.msg.deliveredTo = markServed e.msg.deliveredTo fromNode toNode) ∧
      (node = fromNode → e.msg.handed toNode = true →
        e.msg.destination = none ∧ e'.msg.deliveredTo = markServed e.msg.deliveredTo fromNode toNode) := by
  rcases mem_update he with ⟨rfl, hpassed⟩ | ⟨hne, hold⟩
  · obtain ⟨e, hstay, rfl⟩ := List.mem_map.mp hpassed
    obtain ⟨hmem, hstays⟩ := List.mem_filter.mp hstay
    refine ⟨e, hmem, rfl, rfl, ?_, ?_, fun _ hhanded => ?_⟩
    · simp only [DtnMessage.passed]
      split <;> rfl
    · simp only [DtnMessage.passed]
      split
      · exact Or.inr rfl
      · exact Or.inl rfl
    · have hdest : e.msg.destination = none := by
        simp only [DtnMessage.leaves, DtnMessage.handed, Bool.not_or, Bool.and_eq_true,
          Bool.not_eq_true'] at hstays hhanded
        cases hd : e.msg.destination with
        | none => rfl
        | some dest => simp [hhanded.2, hd] at hstays
      refine ⟨hdest, ?_⟩
      rw [DtnMessage.passed, hhanded, hdest]
      rfl
  · exact ⟨e', hold, rfl, rfl, rfl, Or.inl rfl, fun hn => absurd hn hne⟩

/-- What a pass hands over is sound. -/
theorem sound_handovers (ht : Traced buffers t) (hne : fromNode ≠ toNode)
    (hh : h ∈ Trace.handovers (t.entries fromNode) fromNode toNode) : h.Sound := by
  obtain ⟨hmem, hhanded, rfl, rfl⟩ := mem_handovers hh
  have hheld := ht.held hmem
  rw [DtnMessage.handed, Bool.and_eq_true, Bool.not_eq_true'] at hhanded
  obtain ⟨hlimit, hdeliver⟩ := hhanded
  refine ⟨fun hdest hpath => ?_, ?_, nodup_markServed hheld.served _ _, fun p hp => mem_markServed.mpr ?_⟩
  · rcases hheld.path _ hpath with he | hserved
    · exact hne he.symm
    · exact (DtnMessage.shouldDeliver_broadcast hdest).mp hdeliver hserved
  · rw [DtnMessage.atHopLimit, decide_eq_false_iff_not, UInt8.le_iff_toNat_le] at hlimit
    exact UInt8.lt_iff_toNat_lt.mpr (Nat.lt_of_not_le hlimit)
  · rcases List.mem_append.mp hp with hp | hp
    · exact (hheld.path p hp).elim (fun he => Or.inr (Or.inr he)) Or.inl
    · exact Or.inr (Or.inl (List.mem_singleton.mp hp))

/-- What a pass hands over was not handed to this peer before. -/
theorem once_pass (ht : Traced buffers t) (fromNode toNode : String) :
    ((t.pass fromNode toNode).log.map fun h => (h.entry.number, h.toNode)).Nodup := by
  have hnew : ((Trace.handovers (t.entries fromNode) fromNode toNode).map fun h =>
      (h.entry.number, h.toNode)).Nodup := by
    refine List.Nodup.of_map Prod.fst ?_
    rw [Trace.handovers, List.map_map, List.map_map]
    exact (ht.numbered fromNode).sublist (List.filter_sublist.map _)
  show ((t.log ++ Trace.handovers (t.entries fromNode) fromNode toNode).map _).Nodup
  rw [List.map_append]
  refine List.nodup_append.mpr ⟨ht.once, hnew, ?_⟩
  rintro _ hold _ hadded rfl
  obtain ⟨g, hg, hgn⟩ := List.mem_map.mp hold
  obtain ⟨h, hh, hhn⟩ := List.mem_map.mp hadded
  obtain ⟨hmem, hhanded, -, rfl⟩ := mem_handovers hh
  rw [← hhn] at hgn
  -- the entry is marked for the peer, so the pass does not hand it over
  obtain ⟨hnone, hpeer⟩ := ht.recorded hmem hg (congrArg Prod.fst hgn)
  rw [show g.toNode = h.toNode from congrArg Prod.snd hgn] at hpeer
  rw [DtnMessage.handed, Bool.and_eq_true] at hhanded
  exact (DtnMessage.shouldDeliver_broadcast hnone).mp hhanded.2 hpeer

theorem pass (ht : Traced buffers t) (hne : fromNode ≠ toNode) :
    Traced (collectForwarded buffers fromNode toNode).2 (t.pass fromNode toNode) where
  aligned node := by
    rw [getD_collectForwarded, ← ht.aligned, ← ht.aligned]
    by_cases hn : node = fromNode
    · subst hn
      rw [if_pos rfl, Trace.entries_pass, Function.update_self, Trace.passEntries, List.filter_map, List.map_map,
        List.map_map]
      rfl
    · rw [if_neg hn, Trace.entries_pass, Function.update_of_ne hn]
  numbered node := by
    by_cases hn : node = fromNode
    · subst hn
      rw [Trace.entries_pass, Function.update_self, Trace.passEntries, List.map_map]
      exact (ht.numbered node).sublist (List.filter_sublist.map _)
    · rw [Trace.entries_pass, Function.update_of_ne hn]
      exact ht.numbered node
  apart he hf hn := by
    obtain ⟨e, he, hen, -⟩ := mem_pass he
    obtain ⟨f, hf, hfn, -⟩ := mem_pass hf
    exact ht.apart he hf (by rw [← hen, ← hfn, hn])
  fresh he := by
    obtain ⟨e, he, hen, -⟩ := mem_pass he
    rw [hen]
    exact ht.fresh he
  past h hh := by
    rcases List.mem_append.mp hh with hold | hnew
    · exact ht.past h hold
    · exact ht.fresh (mem_handovers hnew).1
  held he := by
    obtain ⟨e, he, -, hpath, -, hserved, -⟩ := mem_pass he
    have hheld := ht.held he
    rcases hserved with hs | hs
    · exact ⟨hs ▸ hheld.served, fun p hp => hs ▸ hheld.path p (hpath ▸ hp)⟩
    · exact ⟨hs ▸ nodup_markServed hheld.served _ _, fun p hp =>
        (hheld.path p (hpath ▸ hp)).imp_right fun hm => hs ▸ mem_markServed.mpr (Or.inl hm)⟩
  recorded he hh hn := by
    obtain ⟨e, he, hen, -, hdest, hserved, hmarked⟩ := mem_pass he
    rw [hen] at hn
    rcases List.mem_append.mp hh with hold | hnew
    · obtain ⟨hnone, hpeer⟩ := ht.recorded he hold hn
      refine ⟨hdest.trans hnone, ?_⟩
      rcases hserved with hs | hs
      · rwa [hs]
      · rw [hs]
        exact mem_markServed.mpr (Or.inl hpeer)
    · obtain ⟨hmem, hhanded, -, hto⟩ := mem_handovers hnew
      have hnode := ht.apart he hmem hn.symm
      obtain rfl := ht.eq_of_number hmem he hn
      obtain ⟨hnone, hs⟩ := hmarked hnode hhanded
      refine ⟨hdest.trans hnone, ?_⟩
      rw [hs, hto]
      exact mem_markServed.mpr (Or.inr (Or.inl rfl))
  sound h hh := (List.mem_append.mp hh).elim (ht.sound h) (ht.sound_handovers hne)
  once := ht.once_pass fromNode toNode

/-- The log has the copies the pass returns. -/
theorem forwarded_pass (ht : Traced buffers t) (fromNode toNode : String) :
    (collectForwarded buffers fromNode toNode).1.forwarded =
      (Trace.handovers (t.entries fromNode) fromNode toNode).map Handover.copy := by
  rw [forwarded_collectForwarded, ← ht.aligned, Trace.handovers, List.filter_map, List.map_map, List.map_map]
  rfl

/-! ## A store and a tick -/

/-- A new entry after some of the old ones. -/
theorem put (ht : Traced buffers t) {kept : List Entry} {buf : List DtnMessage} {msg : DtnMessage} {path : List String}
    (hkept : kept.Sublist (t.entries node)) (hbuf : (kept.map Entry.msg) ++ [msg] = buf)
    (hheld : Entry.Held ⟨msg, t.next, path⟩ node) :
    Traced (buffers.insert node buf) (t.put node kept msg path) := by
  -- each entry is the new one, or was there
  have hcases {n : String} {e : Entry} (he : e ∈ (t.put node kept msg path).entries n) :
      e ∈ t.entries n ∨ (n = node ∧ e = ⟨msg, t.next, path⟩) := by
    rcases mem_update he with ⟨rfl, hmem⟩ | ⟨-, hold⟩
    · rcases List.mem_append.mp hmem with hk | hnew
      · exact Or.inl (hkept.subset hk)
      · exact Or.inr ⟨rfl, List.mem_singleton.mp hnew⟩
    · exact Or.inl hold
  refine ⟨fun n => ?_, fun n => ?_, fun he hf hn => ?_, fun he => ?_, fun h hh => ?_, fun he => ?_,
    fun he hh hn => ?_, ht.sound, ht.once⟩
  · show (Function.update t.entries node _ n).map Entry.msg = _
    by_cases hn : n = node
    · subst hn
      rw [Function.update_self, List.map_append, StrMap.getD_insert_self, ← hbuf]
      rfl
    · rw [Function.update_of_ne hn, StrMap.getD_insert_ne hn]
      exact ht.aligned n
  · show ((Function.update t.entries node _ n).map Entry.number).Nodup
    by_cases hn : n = node
    · subst hn
      rw [Function.update_self, List.map_append]
      refine List.nodup_append.mpr ⟨(ht.numbered n).sublist (hkept.map _), List.nodup_singleton _, ?_⟩
      rintro _ hold b hb rfl
      obtain ⟨e, he, rfl⟩ := List.mem_map.mp hold
      exact absurd (List.mem_singleton.mp hb) (Nat.ne_of_lt (ht.fresh (hkept.subset he)))
    · rw [Function.update_of_ne hn]
      exact ht.numbered n
  · rcases hcases he with hold | ⟨rfl, rfl⟩
    · rcases hcases hf with hold' | ⟨rfl, rfl⟩
      · exact ht.apart hold hold' hn
      · exact absurd hn (Nat.ne_of_lt (ht.fresh hold))
    · rcases hcases hf with hold' | ⟨rfl, rfl⟩
      · exact absurd hn.symm (Nat.ne_of_lt (ht.fresh hold'))
      · rfl
  · rcases hcases he with he | ⟨rfl, rfl⟩
    · exact Nat.lt_succ_of_lt (ht.fresh he)
    · exact Nat.lt_succ_self _
  · exact Nat.lt_succ_of_lt (ht.past h hh)
  · rcases hcases he with he | ⟨rfl, rfl⟩
    · exact ht.held he
    · exact hheld
  · rcases hcases he with he | ⟨rfl, rfl⟩
    · exact ht.recorded he hh hn
    · exact absurd hn (Nat.ne_of_lt (ht.past _ hh))

theorem store {r : DtnRouter} (ht : Traced r.buffers t) (msg : DtnMessage) (path : List String)
    (hheld : Entry.Held ⟨msg, t.next, path⟩ node) : Traced (r.store node msg).2.buffers (t.store r node msg path) := by
  have haligned : (t.entries node).map Entry.msg = r.buffer node := ht.aligned node
  unfold Trace.store DtnRouter.store
  rcases place_spec r.maxBuffer (r.buffer node) msg with ⟨ha, -⟩ | ⟨idx, worst, ha, -, hidx, -, -⟩ | ⟨ha, -⟩
  · rw [ha]
    exact ht.put (List.Sublist.refl _) (by rw [haligned]) hheld
  · rw [ha, hidx, Option.getD_some]
    exact ht.put (List.eraseIdx_sublist _ _) (by rw [← List.eraseIdx_map, haligned]) hheld
  · rw [ha]
    refine { ht with aligned := fun n => ?_ }
    rw [ht.aligned]
    by_cases hn : n = node
    · subst hn
      rw [StrMap.getD_insert_self]
      rfl
    · rw [StrMap.getD_insert_ne hn]

/-- The entries after a tick come from those before. -/
theorem mem_tick (he : e' ∈ (t.tick fromNode).entries node) : ∃ e ∈ t.entries node, e'.number = e.number ∧
    e'.path = e.path ∧ e'.msg.destination = e.msg.destination ∧ e'.msg.deliveredTo = e.msg.deliveredTo := by
  rcases mem_update he with ⟨rfl, hticked⟩ | ⟨-, hold⟩
  · obtain ⟨e, hstay, rfl⟩ := List.mem_map.mp hticked
    exact ⟨e, (List.mem_filter.mp hstay).1, rfl, rfl, rfl, rfl⟩
  · exact ⟨e', hold, rfl, rfl, rfl, rfl⟩

theorem tick {r : DtnRouter} (ht : Traced r.buffers t) (node : String) :
    Traced (r.tick node).2.buffers (t.tick node) := by
  have haligned := ht.aligned node
  have hentries : (t.tick node).entries = Function.update t.entries node (Trace.tickEntries (t.entries node)) := rfl
  refine ⟨fun n => ?_, fun n => ?_, fun he hf hn => ?_, fun he => ?_, ht.past, fun he => ?_,
    fun he hh hn => ?_, ht.sound, ht.once⟩
  · rw [DtnRouter.getD_tick, hentries]
    by_cases hn : n = node
    · subst hn
      rw [if_pos rfl, Function.update_self, Trace.tickEntries, ← haligned, List.filter_map, List.map_map, List.map_map]
      rfl
    · rw [if_neg hn, Function.update_of_ne hn]
      exact ht.aligned n
  · rw [hentries]
    by_cases hn : n = node
    · subst hn
      rw [Function.update_self, Trace.tickEntries, List.map_map]
      exact (ht.numbered n).sublist (List.filter_sublist.map _)
    · rw [Function.update_of_ne hn]
      exact ht.numbered n
  · obtain ⟨e, he, hen, -⟩ := mem_tick he
    obtain ⟨f, hf, hfn, -⟩ := mem_tick hf
    exact ht.apart he hf (by rw [← hen, ← hfn, hn])
  · obtain ⟨e, he, hen, -⟩ := mem_tick he
    rw [hen]
    exact ht.fresh he
  · obtain ⟨e, he, -, hpath, -, hserved⟩ := mem_tick he
    have hheld := ht.held he
    exact ⟨hserved ▸ hheld.served, fun p hp => hserved ▸ hheld.path p (hpath ▸ hp)⟩
  · obtain ⟨e, he, hen, -, hdest, hserved⟩ := mem_tick he
    rw [hdest, hserved]
    exact ht.recorded he hh (hn.trans hen)

end Traced

/-! ## Runs -/

theorem traced_run {maxBuffer : Nat} {r : DtnRouter} {t : Trace} (hr : TracedRun maxBuffer r t) :
    Traced r.buffers t := by
  induction hr with
  | start =>
    refine ⟨fun _ => rfl, fun _ => List.nodup_nil, fun he => ?_, fun he => ?_, fun h hh => ?_, fun he => ?_,
      fun he => ?_, fun h hh => ?_, List.nodup_nil⟩
    all_goals cases ‹_ ∈ _›
  | original hr node msg hnew ih =>
    exact ih.store msg [node] ⟨hnew ▸ List.nodup_nil, fun p hp => Or.inl (List.mem_singleton.mp hp)⟩
  | copy hr h hmem ih =>
    have hs := ih.sound h hmem
    exact ih.store h.copy h.copyPath ⟨hs.served, fun p hp => Or.inr (hs.marked p hp)⟩
  | encounter hr nodeA nodeB hne ih => exact (ih.pass hne.symm).pass hne
  | tick hr node ih => exact ih.tick node

/-- **Routing makes no loop and serves each peer once per copy.** In every run: no broadcast is handed to a node of
the path of the copy; no entry is handed twice to the same peer; no peer is marked twice, in the buffers or in what is
handed over; and the hop counter of what is handed over is below its time to live, so that it does not wrap. The
entries are the buffers of the router, and the next encounter returns the copies that its handovers record. -/
theorem handover_sound {maxBuffer : Nat} {r : DtnRouter} {t : Trace} (hr : TracedRun maxBuffer r t) :
    (∀ h ∈ t.log, h.entry.msg.destination = none → h.toNode ∉ h.entry.path) ∧
    (t.log.map fun h => (h.entry.number, h.toNode)).Nodup ∧
    (∀ node, ∀ msg ∈ r.buffer node, msg.deliveredTo.Nodup) ∧ (∀ h ∈ t.log, h.copy.deliveredTo.Nodup) ∧
    (∀ h ∈ t.log, h.entry.msg.hopCount < h.entry.msg.ttl ∧
      h.copy.hopCount.toNat = h.entry.msg.hopCount.toNat + 1) ∧
    (∀ node, (t.entries node).map Entry.msg = r.buffer node) ∧
    ∀ nodeA nodeB, nodeA ≠ nodeB → (r.encounter nodeA nodeB).1 =
      ((Trace.handovers (t.entries nodeB) nodeB nodeA).map Handover.copy,
        (Trace.handovers ((t.pass nodeB nodeA).entries nodeA) nodeA nodeB).map Handover.copy) := by
  have ht := traced_run hr
  refine ⟨fun h hh => (ht.sound h hh).noLoop, ht.once, fun node msg hmsg => ?_, fun h hh => (ht.sound h hh).served,
    fun h hh => ⟨(ht.sound h hh).hop, (ht.sound h hh).hopCount⟩, ht.aligned, fun nodeA nodeB hne => ?_⟩
  · rw [DtnRouter.buffer, ← ht.aligned] at hmsg
    obtain ⟨e, he, rfl⟩ := List.mem_map.mp hmsg
    exact (ht.held he).served
  · rw [← ht.forwarded_pass, ← (ht.pass hne.symm).forwarded_pass]
    rfl

/-! ## A broadcast over three nodes -/

def news : DtnMessage := ⟨"news", "A", none, [], .alert, 5, 0, 1700000000000, 0, []⟩

/-- A stores the broadcast and meets B. -/
def newsRouter : DtnRouter := (((DtnRouter.new 8).store "A" news).2.encounter "A" "B").2

def newsTrace : Trace := ((Trace.start.store (.new 8) "A" news ["A"]).pass "B" "A").pass "A" "B"

/-- The handover from A to B. -/
def newsHandover : Handover := ⟨⟨news, 0, ["A"]⟩, "A", "B"⟩

theorem newsHandover_mem : newsHandover ∈ newsTrace.log := by
  have hlog : newsTrace.log = [newsHandover] := rfl
  rw [hlog]
  exact List.mem_cons_self

/-- B stores its copy and meets A and C: only C gets it. -/
theorem handover_sound_news :
    ∃ r t, TracedRun 8 r t ∧ (t.log.map fun h => (h.fromNode, h.toNode)) = [("A", "B"), ("B", "C")] ∧
      ∀ h ∈ t.log, h.entry.msg.destination = none → h.toNode ∉ h.entry.path := by
  have hrun : TracedRun 8 newsRouter newsTrace := (TracedRun.start.original "A" news rfl).encounter "A" "B" (by decide)
  have hcopy := hrun.copy newsHandover newsHandover_mem
  have hmeet := (hcopy.encounter "B" "A" (by decide)).encounter "B" "C" (by decide)
  exact ⟨_, _, hmeet, by decide +kernel, (handover_sound hmeet).1⟩

end Onde.Dtn
