import Mathlib.Data.Finset.Card
import Onde.Dtn.Urgency
import Onde.Lib.Contacts

/-!
# Where a broadcast gets

Nodes meet and store what is handed to them, they tick, and store messages of their own.

* `DtnRouter.meet`: a meeting; `meet_buffer`: what it leaves in the buffers, if there is room;
* `CopyOf`: what every copy of a broadcast is like, by the nodes that have it and the ticks so far;
* `Spreads.meets`, `Spreads.ages`, `Spreads.stores`: what a step does to the copies;
* `broadcast_spreads`: the nodes that have the broadcast are those a walk in time along the meetings leads to from its
  source.
-/

namespace Onde.Dtn

open Onde.Lib

/-! ## Meetings -/

/-- What a pass hands over from a buffer, -/
def given (fromNode toNode : String) (buf : List DtnMessage) : List DtnMessage :=
  (buf.filter (DtnMessage.handed toNode)).map (·.deliverable fromNode toNode)

/-- and what it leaves there. -/
def kept (fromNode toNode : String) (buf : List DtnMessage) : List DtnMessage :=
  (buf.filter fun msg => !msg.leaves toNode).map (DtnMessage.passed fromNode toNode)

namespace DtnRouter

/-- Two nodes meet, and each stores what the other one hands over. -/
def meet (r : DtnRouter) (nodeA nodeB : String) : DtnRouter :=
  let ((toA, toB), r) := r.encounter nodeA nodeB
  (r.storeAll nodeA toA).storeAll nodeB toB

variable {r : DtnRouter} {nodeA nodeB node : String}

theorem encounter_given (hne : nodeA ≠ nodeB) : (r.encounter nodeA nodeB).1 =
    (given nodeB nodeA (r.buffer nodeB), given nodeA nodeB (r.buffer nodeA)) := by
  have hbetween : (collectForwarded r.buffers nodeB nodeA).2.getD nodeA [] = r.buffer nodeA := by
    rw [getD_collectForwarded, if_neg hne]
    rfl
  refine Prod.ext (forwarded_collectForwarded _ _ _) ?_
  show (collectForwarded (collectForwarded r.buffers nodeB nodeA).2 nodeA nodeB).1.forwarded = _
  rw [forwarded_collectForwarded, hbetween]
  rfl

theorem encounter_buffer (hne : nodeA ≠ nodeB) : (r.encounter nodeA nodeB).2.buffer node =
    if node = nodeA then kept nodeA nodeB (r.buffer nodeA)
    else if node = nodeB then kept nodeB nodeA (r.buffer nodeB) else r.buffer node := by
  show (collectForwarded (collectForwarded r.buffers nodeB nodeA).2 nodeA nodeB).2.getD node [] = _
  rw [getD_collectForwarded nodeA nodeB, getD_collectForwarded nodeB nodeA, getD_collectForwarded nodeB nodeA,
    if_neg hne]
  rfl

/-- A buffer that is not full afterwards had room for everything. -/
theorem storeAll_room (msgs : List DtnMessage) (hroom : ((r.storeAll node msgs).buffer node).length < r.maxBuffer) :
    (r.storeAll node msgs).buffer node = r.buffer node ++ msgs := by
  induction msgs using List.reverseRecOn with
  | nil => exact (List.append_nil _).symm
  | append_singleton msgs msg ih =>
    rw [storeAll_snoc, buffer_store, if_pos rfl, maxBuffer_storeAll] at hroom ⊢
    rcases place_spec r.maxBuffer ((r.storeAll node msgs).buffer node) msg with
      ⟨hp, -⟩ | ⟨idx, worst, hp, hfull, -, hget, -⟩ | ⟨hp, hfull, -⟩
    · rw [hp, List.length_append] at hroom
      rw [hp, ih (by omega), List.append_assoc]
    · obtain ⟨hidx, -⟩ := List.getElem?_eq_some_iff.mp hget
      rw [hp, List.length_append, List.length_singleton, List.length_eraseIdx_of_lt hidx] at hroom
      omega
    · rw [hp] at hroom
      exact absurd hroom (Nat.not_lt.mpr hfull)

theorem storeAll_other (hne : node ≠ nodeA) (msgs : List DtnMessage) :
    (r.storeAll nodeA msgs).buffer node = r.buffer node := by
  induction msgs using List.reverseRecOn with
  | nil => rfl
  | append_singleton msgs msg ih => rw [storeAll_snoc, buffer_store, if_neg hne, ih]

/-- **What a meeting leaves in the buffers**, if none is full afterwards. -/
theorem meet_buffer (hne : nodeA ≠ nodeB)
    (hroom : ∀ node, ((r.meet nodeA nodeB).buffer node).length < r.maxBuffer) (node : String) :
    (r.meet nodeA nodeB).buffer node =
      if node = nodeA then kept nodeA nodeB (r.buffer nodeA) ++ given nodeB nodeA (r.buffer nodeB)
      else if node = nodeB then kept nodeB nodeA (r.buffer nodeB) ++ given nodeA nodeB (r.buffer nodeA)
      else r.buffer node := by
  have hmeet : r.meet nodeA nodeB = ((r.encounter nodeA nodeB).2.storeAll nodeA
      (given nodeB nodeA (r.buffer nodeB))).storeAll nodeB (given nodeA nodeB (r.buffer nodeA)) := by
    show ((r.encounter nodeA nodeB).2.storeAll nodeA (r.encounter nodeA nodeB).1.1).storeAll nodeB
      (r.encounter nodeA nodeB).1.2 = _
    rw [encounter_given hne]
  have hroomA := hroom nodeA
  have hroomB := hroom nodeB
  rw [hmeet, storeAll_other hne] at hroomA
  rw [hmeet] at hroomB
  have hB := storeAll_room (given nodeA nodeB (r.buffer nodeA))
    (r := (r.encounter nodeA nodeB).2.storeAll nodeA (given nodeB nodeA (r.buffer nodeB)))
    (by rwa [maxBuffer_storeAll])
  rw [hmeet]
  by_cases hA : node = nodeA
  · rw [hA, if_pos rfl, storeAll_other hne, storeAll_room _ hroomA, encounter_buffer hne, if_pos rfl]
  · by_cases hB' : node = nodeB
    · rw [hB', hB, storeAll_other hne.symm, encounter_buffer hne, if_neg hne.symm, if_pos rfl, if_neg hne.symm,
        if_pos rfl]
    · rw [if_neg hA, if_neg hB', storeAll_other hB', storeAll_other hA, encounter_buffer hne, if_neg hA, if_neg hB']

end DtnRouter

/-! ## The copies of a broadcast -/

variable {m c : DtnMessage} {holders : Set String} {ticks : Nat}

/-- What a copy of a message is like: its content is the one sent, it marks nodes that have the message, it has made
fewer hops than it marks nodes, and it has not aged more than the ticks so far. -/
structure CopyOf (m : DtnMessage) (holders : Set String) (ticks : Nat) (c : DtnMessage) : Prop where
  content : c = { m with ttl := c.ttl, hopCount := c.hopCount, deliveredTo := c.deliveredTo }
  distinct : c.deliveredTo.Nodup
  marked : ∀ p ∈ c.deliveredTo, p ∈ holders
  hops : c.hopCount = 0 ∨ c.hopCount.toNat < c.deliveredTo.length
  life : m.ttl.toNat ≤ c.ttl.toNat + ticks

namespace CopyOf

theorem broadcast (hc : CopyOf m holders ticks c) (hm : m.destination = none) : c.destination = none := by
  rw [hc.content]
  exact hm

theorem mono {holders' : Set String} (hc : CopyOf m holders ticks c) (hsub : holders ⊆ holders') :
    CopyOf m holders' ticks c :=
  ⟨hc.content, hc.distinct, fun p hp => hsub (hc.marked p hp), hc.hops, hc.life⟩

/-- **A copy has a hop left**, if the time to live covers the nodes there are and the ticks so far. -/
theorem hop_left (hc : CopyOf m holders ticks c) {nodes : Finset String} (hsub : holders ⊆ nodes)
    (hnodes : nodes.Nonempty) (httl : nodes.card + ticks ≤ m.ttl.toNat) : c.hopCount.toNat < c.ttl.toNat := by
  have hlen : c.deliveredTo.length ≤ nodes.card := by
    rw [← List.toFinset_card_of_nodup hc.distinct]
    exact Finset.card_le_card fun p hp => hsub (hc.marked p (List.mem_toFinset.mp hp))
  have hpos := hnodes.card_pos
  have hlife := hc.life
  rcases hc.hops with h0 | hlt
  · have hzero : c.hopCount.toNat = 0 := by rw [h0]; rfl
    omega
  · omega

/-- The holder's copy after a pass. -/
theorem passed (hc : CopyOf m holders ticks c) {fromNode toNode : String} (hfrom : fromNode ∈ holders)
    {holders' : Set String} (hsub : holders ⊆ holders') (hto : toNode ∈ holders') :
    CopyOf m holders' ticks (c.passed fromNode toNode) := by
  unfold DtnMessage.passed
  split
  · refine ⟨?_, nodup_markServed hc.distinct _ _, fun p hp => ?_, ?_, hc.life⟩
    · conv_lhs => rw [hc.content]
      rfl
    · rcases mem_markServed.mp hp with hold | rfl | rfl
      · exact hsub (hc.marked p hold)
      · exact hto
      · exact hsub hfrom
    · have hlen : c.deliveredTo.length ≤ (markServed c.deliveredTo fromNode toNode).length := by
        have hsubset : c.deliveredTo ⊆ markServed c.deliveredTo fromNode toNode :=
          fun p hp => mem_markServed.mpr (.inl hp)
        exact (hc.distinct.subperm hsubset).length_le
      exact hc.hops.imp_right fun h => h.trans_le hlen
  · exact hc.mono hsub

/-- The copy that is handed over. -/
theorem deliverable (hc : CopyOf m holders ticks c) {fromNode toNode : String} (hne : fromNode ≠ toNode)
    (hfrom : fromNode ∈ holders) {holders' : Set String} (hsub : holders ⊆ holders') (hto : toNode ∈ holders')
    (hnew : toNode ∉ c.deliveredTo) (hleft : c.hopCount.toNat < c.ttl.toNat) :
    CopyOf m holders' ticks (c.deliverable fromNode toNode) := by
  have hmarked : (markServed c.deliveredTo fromNode toNode).Nodup := nodup_markServed hc.distinct _ _
  refine ⟨?_, hmarked, fun p hp => ?_, .inr ?_, hc.life⟩
  · conv_lhs => rw [hc.content]
    rfl
  · rcases mem_markServed.mp hp with hold | rfl | rfl
    · exact hsub (hc.marked p hold)
    · exact hto
    · exact hsub hfrom
  · have hhops : (c.hopCount + 1).toNat = c.hopCount.toNat + 1 := by
      have hmax := c.ttl.toNat_lt
      rw [UInt8.toNat_add]
      simp only [UInt8.toNat_one]
      omega
    show (c.hopCount + 1).toNat < (markServed c.deliveredTo fromNode toNode).length
    rw [hhops]
    rcases hc.hops with h0 | hlt
    · have hzero : c.hopCount.toNat = 0 := by rw [h0]; rfl
      have hpair : [toNode, fromNode].Nodup := by simp [hne.symm]
      have hsubset : [toNode, fromNode] ⊆ markServed c.deliveredTo fromNode toNode := by
        intro p hp
        rcases List.mem_pair.mp hp with rfl | rfl
        · exact mem_markServed.mpr (.inr (.inl rfl))
        · exact mem_markServed.mpr (.inr (.inr rfl))
      have hle := (hpair.subperm hsubset).length_le
      simp only [List.length_cons, List.length_nil] at hle
      omega
    · have hmore : (toNode :: c.deliveredTo).Nodup := List.nodup_cons.mpr ⟨hnew, hc.distinct⟩
      have hsubset : toNode :: c.deliveredTo ⊆ markServed c.deliveredTo fromNode toNode := by
        intro p hp
        rcases List.mem_cons.mp hp with rfl | hold
        · exact mem_markServed.mpr (.inr (.inl rfl))
        · exact mem_markServed.mpr (.inl hold)
      have hle := (hmore.subperm hsubset).length_le
      rw [List.length_cons] at hle
      omega

/-- A copy after a tick. -/
theorem aged (hc : CopyOf m holders ticks c) : CopyOf m holders (ticks + 1) (DtnRouter.aged c) := by
  refine ⟨?_, hc.distinct, hc.marked, hc.hops, ?_⟩
  · conv_lhs => rw [hc.content]
    rfl
  · have hlife := hc.life
    show m.ttl.toNat ≤ (if c.ttl = 0 then 0 else c.ttl - 1).toNat + (ticks + 1)
    split
    · next h0 =>
      have hzero : c.ttl.toNat = 0 := by rw [h0]; rfl
      omega
    · next h0 =>
      have hpos : 0 < c.ttl.toNat := Nat.pos_of_ne_zero fun h => h0 (UInt8.toNat_inj.mp h)
      have hone : (c.ttl - 1).toNat = c.ttl.toNat - 1 := by
        have hle : 1 ≤ c.ttl := UInt8.le_iff_toNat_le.mpr (Nat.succ_le_of_lt hpos)
        rw [UInt8.toNat_sub_of_le _ _ hle]
        rfl
      omega

end CopyOf

/-- The nodes that have a message, and what their copies are like. -/
structure Spreads (m : DtnMessage) (holders : Set String) (ticks : Nat) (r : DtnRouter) : Prop where
  copies : ∀ node, ∀ c ∈ r.buffer node, c.id = m.id → node ∈ holders ∧ CopyOf m holders ticks c
  held : ∀ node ∈ holders, ∃ c ∈ r.buffer node, c.id = m.id

theorem mem_given {fromNode toNode : String} {buf : List DtnMessage} : c ∈ given fromNode toNode buf ↔
    ∃ c₀ ∈ buf, c₀.handed toNode = true ∧ c₀.deliverable fromNode toNode = c := by
  rw [given, List.mem_map]
  simp only [List.mem_filter, and_assoc]

theorem mem_kept {fromNode toNode : String} {buf : List DtnMessage} : c ∈ kept fromNode toNode buf ↔
    ∃ c₀ ∈ buf, c₀.leaves toNode = false ∧ c₀.passed fromNode toNode = c := by
  rw [kept, List.mem_map]
  simp only [List.mem_filter, Bool.not_eq_true', and_assoc]

@[simp] theorem DtnMessage.passed_id (fromNode toNode : String) (c : DtnMessage) :
    (c.passed fromNode toNode).id = c.id := by
  unfold passed
  split <;> rfl

/-- A broadcast with a hop left is handed to a node it does not mark, -/
theorem handed_iff (hc : c.destination = none) {toNode : String} (hleft : c.hopCount.toNat < c.ttl.toNat) :
    c.handed toNode = true ↔ toNode ∉ c.deliveredTo := by
  have hlimit : c.atHopLimit = false := by
    rw [DtnMessage.atHopLimit, decide_eq_false_iff_not, UInt8.le_iff_toNat_le]
    omega
  rw [DtnMessage.handed, hlimit, Bool.not_false, Bool.true_and, DtnMessage.shouldDeliver_broadcast hc]

/-- and stays. -/
theorem not_leaves (hc : c.destination = none) (toNode : String) (hleft : c.hopCount.toNat < c.ttl.toNat) :
    c.leaves toNode = false := by
  have hlimit : c.atHopLimit = false := by
    rw [DtnMessage.atHopLimit, decide_eq_false_iff_not, UInt8.le_iff_toNat_le]
    omega
  rw [DtnMessage.leaves, hlimit, hc, Option.isSome_none, Bool.and_false, Bool.or_false]

namespace Spreads

variable {r : DtnRouter} {nodes : Finset String}

/-- The copies on one side of a meeting: its own, and those it is handed. -/
theorem side (hs : Spreads m holders ticks r) (hm : m.destination = none) (hsub : holders ⊆ nodes)
    (hnodes : nodes.Nonempty) (httl : nodes.card + ticks ≤ m.ttl.toNat) {holders' : Set String}
    (hmore : holders ⊆ holders') {me other : String} (hne : me ≠ other) (hme : other ∈ holders → me ∈ holders')
    (hother : me ∈ holders → other ∈ holders')
    (hc : c ∈ kept me other (r.buffer me) ++ given other me (r.buffer other)) (hid : c.id = m.id) :
    me ∈ holders' ∧ CopyOf m holders' ticks c := by
  rcases List.mem_append.mp hc with hkept | hgiven
  · obtain ⟨c₀, hmem, -, rfl⟩ := mem_kept.mp hkept
    rw [DtnMessage.passed_id] at hid
    obtain ⟨hin, hcopy⟩ := hs.copies me c₀ hmem hid
    exact ⟨hmore hin, hcopy.passed hin hmore (hother hin)⟩
  · obtain ⟨c₀, hmem, hhanded, rfl⟩ := mem_given.mp hgiven
    obtain ⟨hin, hcopy⟩ := hs.copies other c₀ hmem hid
    have hleft := hcopy.hop_left hsub hnodes httl
    exact ⟨hme hin, hcopy.deliverable hne.symm hin hmore (hme hin)
      ((handed_iff (hcopy.broadcast hm) hleft).mp hhanded) hleft⟩

/-- Who had the message keeps it, and who meets a node that has it gets it. -/
theorem gets (hs : Spreads m holders ticks r) (hm : m.destination = none) (hsub : holders ⊆ nodes)
    (hnodes : nodes.Nonempty) (httl : nodes.card + ticks ≤ m.ttl.toNat) {me other : String}
    (h : me ∈ holders ∨ other ∈ holders) :
    ∃ c ∈ kept me other (r.buffer me) ++ given other me (r.buffer other), c.id = m.id := by
  have hown : me ∈ holders → ∃ c ∈ kept me other (r.buffer me) ++ given other me (r.buffer other), c.id = m.id := by
    intro hme
    obtain ⟨c, hmem, hid⟩ := hs.held me hme
    obtain ⟨-, hcopy⟩ := hs.copies me c hmem hid
    have hstays := not_leaves (hcopy.broadcast hm) other (hcopy.hop_left hsub hnodes httl)
    exact ⟨_, List.mem_append_left _ (mem_kept.mpr ⟨c, hmem, hstays, rfl⟩), by rw [DtnMessage.passed_id, hid]⟩
  rcases h with hme | hother
  · exact hown hme
  · obtain ⟨c, hmem, hid⟩ := hs.held other hother
    obtain ⟨-, hcopy⟩ := hs.copies other c hmem hid
    by_cases hmarked : me ∈ c.deliveredTo
    · exact hown (hcopy.marked me hmarked)
    · have hhanded := (handed_iff (hcopy.broadcast hm) (hcopy.hop_left hsub hnodes httl)).mpr hmarked
      exact ⟨_, List.mem_append_right _ (mem_given.mpr ⟨c, hmem, hhanded, rfl⟩), hid⟩

/-- **A meeting spreads the message like a contact.** -/
theorem meets (hs : Spreads m holders ticks r) (hm : m.destination = none) (hsub : holders ⊆ nodes)
    (hnodes : nodes.Nonempty) (httl : nodes.card + ticks ≤ m.ttl.toNat) {nodeA nodeB : String} (hne : nodeA ≠ nodeB)
    (hroom : ∀ node, ((r.meet nodeA nodeB).buffer node).length < r.maxBuffer) :
    Spreads m (contact holders (nodeA, nodeB)) ticks (r.meet nodeA nodeB) := by
  have hmore : holders ⊆ contact holders (nodeA, nodeB) := contact_subset _
  have hA : nodeB ∈ holders → nodeA ∈ contact holders (nodeA, nodeB) := fun h => .inr (.inr ⟨rfl, h⟩)
  have hB : nodeA ∈ holders → nodeB ∈ contact holders (nodeA, nodeB) := fun h => .inr (.inl ⟨rfl, h⟩)
  refine ⟨fun node c hc hid => ?_, fun node hnode => ?_⟩
  · rw [DtnRouter.meet_buffer hne hroom] at hc
    by_cases hnA : node = nodeA
    · subst hnA
      rw [if_pos rfl] at hc
      exact hs.side hm hsub hnodes httl hmore hne hA hB hc hid
    · by_cases hnB : node = nodeB
      · subst hnB
        rw [if_neg hnA, if_pos rfl] at hc
        exact hs.side hm hsub hnodes httl hmore hne.symm hB hA hc hid
      · rw [if_neg hnA, if_neg hnB] at hc
        obtain ⟨hin, hcopy⟩ := hs.copies node c hc hid
        exact ⟨hmore hin, hcopy.mono hmore⟩
  · rw [DtnRouter.meet_buffer hne hroom]
    by_cases hnA : node = nodeA
    · subst hnA
      rw [if_pos rfl]
      refine hs.gets hm hsub hnodes httl ?_
      rcases hnode with h | ⟨h, -⟩ | ⟨-, h⟩
      · exact .inl h
      · exact absurd h hne
      · exact .inr h
    · rw [if_neg hnA]
      by_cases hnB : node = nodeB
      · subst hnB
        rw [if_pos rfl]
        refine hs.gets hm hsub hnodes httl ?_
        rcases hnode with h | ⟨-, h⟩ | ⟨h, -⟩
        · exact .inl h
        · exact .inr h
        · exact absurd h hnA
      · rw [if_neg hnB]
        rcases hnode with h | ⟨h, -⟩ | ⟨h, -⟩
        · exact hs.held node h
        · exact absurd h hnB
        · exact absurd h hnA

/-- **A tick ages the copies and leaves them where they are.** -/
theorem ages (hs : Spreads m holders ticks r) (hsub : holders ⊆ nodes) (hnodes : nodes.Nonempty)
    (httl : nodes.card + (ticks + 1) ≤ m.ttl.toNat) (at_ : String) :
    Spreads m holders (ticks + 1) (r.tick at_).2 := by
  have hbuffer : ∀ node, (r.tick at_).2.buffer node = if node = at_ then
      ((r.buffer at_).filter fun msg => !DtnRouter.expires msg).map DtnRouter.aged else r.buffer node :=
    fun node => DtnRouter.getD_tick r at_ node
  have hlater : ∀ {c : DtnMessage}, CopyOf m holders ticks c → CopyOf m holders (ticks + 1) c := fun hc =>
    ⟨hc.content, hc.distinct, hc.marked, hc.hops, hc.life.trans (by omega)⟩
  refine ⟨fun node c hc hid => ?_, fun node hnode => ?_⟩
  · rw [hbuffer] at hc
    by_cases hn : node = at_
    · subst hn
      rw [if_pos rfl] at hc
      obtain ⟨c₀, hmem, rfl⟩ := List.mem_map.mp hc
      obtain ⟨hin, hcopy⟩ := hs.copies node c₀ (List.mem_filter.mp hmem).1 hid
      exact ⟨hin, hcopy.aged⟩
    · rw [if_neg hn] at hc
      obtain ⟨hin, hcopy⟩ := hs.copies node c hc hid
      exact ⟨hin, hlater hcopy⟩
  · obtain ⟨c, hmem, hid⟩ := hs.held node hnode
    obtain ⟨-, hcopy⟩ := hs.copies node c hmem hid
    rw [hbuffer]
    by_cases hn : node = at_
    · subst hn
      rw [if_pos rfl]
      have hleft := hcopy.aged.hop_left hsub hnodes httl
      have halive : DtnRouter.expires c = false := by
        rw [DtnRouter.expires, decide_eq_false_iff_not]
        intro h0
        rw [h0] at hleft
        exact absurd hleft (Nat.not_lt_zero _)
      exact ⟨_, List.mem_map_of_mem (List.mem_filter.mpr ⟨hmem, by rw [halive]; rfl⟩), hid⟩
    · rw [if_neg hn]
      exact ⟨c, hmem, hid⟩

/-- **Other messages that are stored do not matter.** -/
theorem stores (hs : Spreads m holders ticks r) {at_ : String} {msg : DtnMessage} (hother : msg.id ≠ m.id)
    (hroom : ∀ node, (((r.store at_ msg).2).buffer node).length < r.maxBuffer) :
    Spreads m holders ticks (r.store at_ msg).2 := by
  have hbuffer : ∀ node, (r.store at_ msg).2.buffer node =
      if node = at_ then r.buffer at_ ++ [msg] else r.buffer node := by
    intro node
    by_cases hn : node = at_
    · rw [if_pos hn, hn]
      exact DtnRouter.storeAll_room [msg] (hroom at_)
    · rw [if_neg hn, DtnRouter.buffer_store, if_neg hn]
  refine ⟨fun node c hc hid => ?_, fun node hnode => ?_⟩
  · rw [hbuffer] at hc
    split at hc
    · next hn =>
      rcases List.mem_append.mp hc with hold | hnew
      · exact hs.copies node c (hn ▸ hold) hid
      · rw [List.mem_singleton.mp hnew] at hid
        exact absurd hid hother
    · exact hs.copies node c hc hid
  · obtain ⟨c, hmem, hid⟩ := hs.held node hnode
    refine ⟨c, ?_, hid⟩
    rw [hbuffer]
    split
    · next hn => exact List.mem_append_left _ (hn ▸ hmem)
    · exact hmem

end Spreads

/-! ## Runs -/

/-- What happens in a network of nodes that pass messages on. -/
inductive Occurrence where
  | meets (nodeA nodeB : String)
  | ticks (node : String)
  | stores (node : String) (msg : DtnMessage)

namespace Occurrence

def apply (r : DtnRouter) : Occurrence → DtnRouter
  | .meets nodeA nodeB => r.meet nodeA nodeB
  | .ticks node => (r.tick node).2
  | .stores node msg => (r.store node msg).2

/-- The nodes that meet. -/
def contact? : Occurrence → Option (String × String)
  | .meets nodeA nodeB => some (nodeA, nodeB)
  | _ => none

def isTick : Occurrence → Bool
  | .ticks _ => true
  | _ => false

end Occurrence

/-- The router after some occurrences. -/
def DtnRouter.goesOn (r : DtnRouter) (os : List Occurrence) : DtnRouter := os.foldl Occurrence.apply r

/-- The meetings among them, in their order. -/
def contacts (os : List Occurrence) : List (String × String) := os.filterMap Occurrence.contact?

/-- The message is not disturbed on its way among some nodes: no other message has its id, there is room in the buffers,
and its time to live covers the nodes and the ticks. -/
structure Undisturbed (m : DtnMessage) (nodes : Finset String) (r : DtnRouter) (os : List Occurrence) : Prop where
  meets : ∀ nodeA nodeB, .meets nodeA nodeB ∈ os → nodeA ≠ nodeB ∧ nodeA ∈ nodes ∧ nodeB ∈ nodes
  others : ∀ node msg, .stores node msg ∈ os → msg.id ≠ m.id
  room : ∀ past, past <+: os → ∀ node, ((r.goesOn past).buffer node).length < r.maxBuffer
  life : nodes.card + os.countP Occurrence.isTick ≤ m.ttl.toNat

section Runs

variable {r : DtnRouter} {nodes : Finset String} {os : List Occurrence} {o : Occurrence}

theorem Undisturbed.init (hu : Undisturbed m nodes r (os ++ [o])) : Undisturbed m nodes r os := by
  refine ⟨fun a b h => hu.meets a b (List.mem_append_left _ h),
    fun n msg h => hu.others n msg (List.mem_append_left _ h),
    fun past hpast => hu.room past (hpast.trans (List.prefix_append _ _)), ?_⟩
  have hlife := hu.life
  rw [List.countP_append] at hlife
  omega

theorem goesOn_snoc : r.goesOn (os ++ [o]) = o.apply (r.goesOn os) := by
  rw [DtnRouter.goesOn, List.foldl_append]
  rfl

@[simp] theorem maxBuffer_goesOn : (r.goesOn os).maxBuffer = r.maxBuffer := by
  induction os using List.reverseRecOn with
  | nil => rfl
  | append_singleton os o ih =>
    rw [goesOn_snoc, ← ih]
    cases o with
    | meets nodeA nodeB => exact (DtnRouter.maxBuffer_storeAll _).trans (DtnRouter.maxBuffer_storeAll _)
    | ticks node =>
      show ((r.goesOn os).tick node).2.maxBuffer = _
      unfold DtnRouter.tick
      split <;> rfl
    | stores node msg => rfl

/-- **The run lemma**: the message spreads along the meetings. -/
theorem spreads_goesOn {source : String} (hm : m.destination = none) (hsource : source ∈ nodes)
    (h₀ : Spreads m {source} 0 r) (hu : Undisturbed m nodes r os) :
    Spreads m (spread {source} (contacts os)) (os.countP Occurrence.isTick) (r.goesOn os) := by
  induction os using List.reverseRecOn with
  | nil => exact h₀
  | append_singleton os o ih =>
    have hs := ih hu.init
    have hroom := hu.room _ (List.prefix_refl _)
    have hlife := hu.life
    have hmax : (r.goesOn os).maxBuffer = r.maxBuffer := maxBuffer_goesOn
    rw [← hmax] at hroom
    rw [goesOn_snoc] at hroom ⊢
    rw [List.countP_append] at hlife ⊢
    have hsub : spread {source} (contacts os) ⊆ (nodes : Set String) := by
      refine spread_subset (Set.singleton_subset_iff.mpr hsource) fun c hc => ?_
      obtain ⟨o', ho', hcontact⟩ := List.mem_filterMap.mp hc
      cases o' with
      | meets nodeA nodeB =>
        cases hcontact
        exact (hu.init.meets nodeA nodeB ho').2
      | ticks => cases hcontact
      | stores => cases hcontact
    have hcontacts : contacts (os ++ [o]) = contacts os ++ o.contact?.toList := by
      rw [contacts, List.filterMap_append]
      cases o <;> rfl
    rw [hcontacts]
    cases o with
    | meets nodeA nodeB =>
      have hne := (hu.meets nodeA nodeB (by simp)).1
      show Spreads m (spread {source} (contacts os ++ [(nodeA, nodeB)])) _ _
      rw [spread_snoc]
      exact hs.meets hm hsub ⟨source, hsource⟩ (by simpa [Occurrence.isTick] using hlife) hne hroom
    | ticks node =>
      show Spreads m (spread {source} (contacts os ++ [])) _ _
      rw [List.append_nil]
      exact hs.ages hsub ⟨source, hsource⟩ hlife node
    | stores node msg =>
      show Spreads m (spread {source} (contacts os ++ [])) _ _
      rw [List.append_nil]
      exact hs.stores (hu.others node msg (by simp)) hroom

end Runs

/-- **A broadcast reaches exactly the nodes a walk in time leads to.** A node stores a new broadcast, and then nodes
meet and store what they are handed, tick, and store other messages, in any order. If no buffer fills up and the time to
live covers the nodes and the ticks, then a node has the broadcast if and only if a walk leads to it from the source
along some of the meetings in their order, and every copy has the content that was sent. -/
theorem broadcast_spreads (m : DtnMessage) (hm : m.destination = none) (hserved : m.deliveredTo = [])
    (hhops : m.hopCount = 0) (r : DtnRouter) (hnew : ∀ node, ∀ c ∈ r.buffer node, c.id ≠ m.id) (source : String)
    (nodes : Finset String) (hsource : source ∈ nodes) (os : List Occurrence)
    (hu : Undisturbed m nodes (r.store source m).2 os) (node : String) :
    ((∃ c ∈ ((r.store source m).2.goesOn os).buffer node, c.id = m.id) ↔
      ∃ js, js.Sublist (contacts os) ∧ Walk source js node) ∧
    ∀ c ∈ ((r.store source m).2.goesOn os).buffer node, c.id = m.id →
      c = { m with ttl := c.ttl, hopCount := c.hopCount, deliveredTo := c.deliveredTo } := by
  have hbuffer : (r.store source m).2.buffer source = r.buffer source ++ [m] :=
    DtnRouter.storeAll_room [m] (hu.room [] List.nil_prefix source)
  have h₀ : Spreads m {source} 0 (r.store source m).2 := by
    have hcopy : CopyOf m {source} 0 m := by
      refine ⟨rfl, ?_, fun p hp => ?_, .inl hhops, Nat.le_refl _⟩
      · rw [hserved]
        exact List.nodup_nil
      · rw [hserved] at hp
        cases hp
    refine ⟨fun n c hc hid => ?_, fun n hn => ?_⟩
    · by_cases h : n = source
      · rw [h, hbuffer] at hc
        rcases List.mem_append.mp hc with hold | hmine
        · exact absurd hid (hnew source c hold)
        · obtain rfl := List.mem_singleton.mp hmine
          exact ⟨h, hcopy⟩
      · rw [DtnRouter.buffer_store, if_neg h] at hc
        exact absurd hid (hnew n c hc)
    · rw [Set.mem_singleton_iff.mp hn, hbuffer]
      exact ⟨m, by simp, rfl⟩
  have hs := spreads_goesOn hm hsource h₀ hu
  refine ⟨⟨fun ⟨c, hc, hid⟩ => ?_, fun hwalk => ?_⟩, fun c hc hid => (hs.copies node c hc hid).2.content⟩
  · obtain ⟨x, hx, js, hjs, hw⟩ := mem_spread_iff.mp (hs.copies node c hc hid).1
    rw [Set.mem_singleton_iff.mp hx] at hw
    exact ⟨js, hjs, hw⟩
  · obtain ⟨js, hjs, hw⟩ := hwalk
    exact hs.held node (mem_spread_iff.mpr ⟨source, rfl, js, hjs, hw⟩)

/-! ## A broadcast over two meetings -/

def flare : DtnMessage := ⟨"flare", "A", none, [], .alert, 5, 0, 1700000000000, 0, []⟩

/-- A meets B, and later B meets C. -/
def relayed : List Occurrence := [.meets "A" "B", .ticks "B", .meets "C" "B"]

/-- Buffers are short if those there are are. -/
theorem length_buffer {r : DtnRouter} {n : Nat} (hall : ∀ e ∈ r.buffers.entries, e.2.length < n) (hn : 0 < n)
    (node : String) : (r.buffer node).length < n := by
  unfold DtnRouter.buffer StrMap.getD
  cases hb : r.buffers.lookup node with
  | none => exact hn
  | some buf => exact hall ⟨node, buf⟩ (AList.mem_lookup_iff.mp hb)

theorem undisturbed_relayed : Undisturbed flare {"A", "B", "C"} ((DtnRouter.new 8).store "A" flare).2 relayed := by
  refine ⟨fun a b h => ?_, fun n msg h => ?_, fun past hpast => length_buffer ?_ (by decide), by decide⟩
  · simp only [relayed, List.mem_cons, Occurrence.meets.injEq, reduceCtorEq, List.not_mem_nil, false_or,
      or_false] at h
    rcases h with ⟨rfl, rfl⟩ | ⟨rfl, rfl⟩ <;> decide
  · simp [relayed] at h
  · rw [List.prefix_iff_eq_take.mp hpast]
    have hle : past.length ≤ 3 := hpast.length_le
    generalize past.length = k at hle
    obtain rfl | rfl | rfl | rfl : k = 0 ∨ k = 1 ∨ k = 2 ∨ k = 3 := by omega
    all_goals decide +kernel

/-- C never meets A, and gets the broadcast from B. -/
theorem broadcast_spreads_flare :
    ∃ c ∈ (((DtnRouter.new 8).store "A" flare).2.goesOn relayed).buffer "C", c.id = "flare" := by
  have hfirst : Walk "A" ([] ++ [("A", "B")]) "B" := .forth .stay
  have hwalk : Walk "A" ([("A", "B")] ++ [("C", "B")]) "C" := .back hfirst
  exact (broadcast_spreads flare rfl rfl rfl (.new 8) (fun _ _ hc => nomatch hc) "A" {"A", "B", "C"} (by decide) relayed
    undisturbed_relayed "C").1.mpr ⟨contacts relayed, List.Sublist.refl _, hwalk⟩

end Onde.Dtn
