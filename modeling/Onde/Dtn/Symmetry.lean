import Onde.Dtn.Router

/-!
# Encounters from both sides

* `collectForwarded_local`: a pass reads and changes one buffer;
* `encounter_met`: what an encounter does, in terms of the two buffers before it;
* `encounter_symmetric_local`: it does not matter which of the two nodes is named first, and encounters of other nodes
  do not interfere.
-/

namespace Onde.Dtn

open Onde.Lib

/-! ## A pass is local -/

/-- What a pass collects from the buffer it finds. -/
def gathered (fromNode toNode : String) : Option (List DtnMessage) → Collected
  | none => .start
  | some buf => (collectBuffer fromNode toNode buf).2

/-- What it leaves of that buffer. -/
def remaining (fromNode toNode : String) (found : Option (List DtnMessage)) : Option (List DtnMessage) :=
  found.map fun buf => (collectBuffer fromNode toNode buf).1

/-- **A pass depends on the buffer of its first node, and changes no other.** -/
theorem collectForwarded_local (buffers : Buffers) (fromNode toNode : String) :
    (collectForwarded buffers fromNode toNode).1 = gathered fromNode toNode (buffers.lookup fromNode) ∧
    ∀ node, (collectForwarded buffers fromNode toNode).2.lookup node =
      if node = fromNode then remaining fromNode toNode (buffers.lookup fromNode) else buffers.lookup node := by
  unfold collectForwarded
  cases hb : buffers.lookup fromNode with
  | none =>
    refine ⟨rfl, fun node => ?_⟩
    by_cases hn : node = fromNode
    · subst hn
      rw [if_pos rfl]
      exact hb
    · rw [if_neg hn]
  | some buf =>
    refine ⟨rfl, fun node => ?_⟩
    by_cases hn : node = fromNode
    · subst hn
      rw [if_pos rfl]
      exact AList.lookup_insert _
    · rw [if_neg hn]
      exact AList.lookup_insert_ne hn

/-! ## The counters -/

/-- The counters after two passes. -/
def RouterStats.count (s : RouterStats) (x y : Collected) : RouterStats := { s with
  totalForwarded := s.totalForwarded + (x.forwardedCount + y.forwardedCount)
  totalDelivered := s.totalDelivered + (x.deliveredCount + y.deliveredCount)
  totalExpired := s.totalExpired + (x.expiredCount + y.expiredCount) }

theorem RouterStats.count_comm (s : RouterStats) (x y : Collected) : s.count x y = s.count y x := by
  rw [count, UInt64.add_comm x.forwardedCount, UInt64.add_comm x.deliveredCount, UInt64.add_comm x.expiredCount, count]

theorem RouterStats.count_right_comm (s : RouterStats) (x y u v : Collected) :
    (s.count x y).count u v = (s.count u v).count x y := by
  have hswap : ∀ n p q : UInt64, n + p + q = n + q + p := fun n p q => by
    rw [UInt64.add_assoc, UInt64.add_comm p, ← UInt64.add_assoc]
  rw [count, count, hswap s.totalForwarded, hswap s.totalDelivered, hswap s.totalExpired, count, count]

/-! ## Encounters -/

/-- The same buffers and the same counters. -/
structure SameRouter (r r' : DtnRouter) : Prop where
  buffers : ∀ node, r.buffers.lookup node = r'.buffers.lookup node
  maxBuffer : r.maxBuffer = r'.maxBuffer
  stats : r.stats = r'.stats

/-- What an encounter of two nodes does, in terms of their buffers before it. -/
structure Met (r : DtnRouter) (nodeA nodeB : String) (result : (List DtnMessage × List DtnMessage) × DtnRouter) :
    Prop where
  toA : result.1.1 = (gathered nodeB nodeA (r.buffers.lookup nodeB)).forwarded
  toB : result.1.2 = (gathered nodeA nodeB (r.buffers.lookup nodeA)).forwarded
  buffers : ∀ node, result.2.buffers.lookup node =
    if node = nodeA then remaining nodeA nodeB (r.buffers.lookup nodeA)
    else if node = nodeB then remaining nodeB nodeA (r.buffers.lookup nodeB) else r.buffers.lookup node
  maxBuffer : result.2.maxBuffer = r.maxBuffer
  stats : result.2.stats = r.stats.count (gathered nodeB nodeA (r.buffers.lookup nodeB))
    (gathered nodeA nodeB (r.buffers.lookup nodeA))

theorem encounter_met (r : DtnRouter) {nodeA nodeB : String} (hne : nodeA ≠ nodeB) :
    Met r nodeA nodeB (r.encounter nodeA nodeB) := by
  obtain ⟨hfirst, hafter⟩ := collectForwarded_local r.buffers nodeB nodeA
  let between := (collectForwarded r.buffers nodeB nodeA).2
  obtain ⟨hsecond, hlast⟩ := collectForwarded_local between nodeA nodeB
  have hkept : between.lookup nodeA = r.buffers.lookup nodeA := (hafter nodeA).trans (if_neg hne)
  rw [hkept] at hsecond hlast
  refine ⟨congrArg Collected.forwarded hfirst, congrArg Collected.forwarded hsecond, fun node => ?_, rfl, ?_⟩
  · refine (hlast node).trans ?_
    split
    · rfl
    · exact hafter node
  · show r.stats.count (collectForwarded r.buffers nodeB nodeA).1 (collectForwarded between nodeA nodeB).1 = _
    rw [hfirst, hsecond]

namespace Met

variable {r : DtnRouter} {a b c d : String} {ab ba cd : (List DtnMessage × List DtnMessage) × DtnRouter}

/-- **Named the other way round, the encounter is the same.** -/
theorem symmetric (hne : a ≠ b) (hab : Met r a b ab) (hba : Met r b a ba) :
    ba.1 = ab.1.swap ∧ SameRouter ab.2 ba.2 := by
  refine ⟨Prod.ext (hba.toA.trans hab.toB.symm) (hba.toB.trans hab.toA.symm), fun node => ?_, ?_, ?_⟩
  · rw [hab.buffers, hba.buffers]
    by_cases ha : node = a
    · rw [if_pos ha, if_neg (ha ▸ hne), if_pos ha]
    · rw [if_neg ha, if_neg ha]
  · rw [hab.maxBuffer, hba.maxBuffer]
  · rw [hab.stats, hba.stats, RouterStats.count_comm]

/-- An encounter leaves the buffers of other nodes alone. -/
theorem other (hab : Met r a b ab) (ha : c ≠ a) (hb : c ≠ b) : ab.2.buffers.lookup c = r.buffers.lookup c := by
  rw [hab.buffers, if_neg ha, if_neg hb]

/-- **An encounter of two others comes to the same before and after.** -/
theorem later (hab : Met r a b ab) (hca : c ≠ a) (hcb : c ≠ b) (hda : d ≠ a) (hdb : d ≠ b) (hcd : Met r c d cd)
    {cd' : (List DtnMessage × List DtnMessage) × DtnRouter} (hcd' : Met ab.2 c d cd') : cd'.1 = cd.1 := by
  have hc := hab.other hca hcb
  have hd := hab.other hda hdb
  refine Prod.ext ?_ ?_
  · rw [hcd'.toA, hcd.toA, hd]
  · rw [hcd'.toB, hcd.toB, hc]

theorem commute (hca : c ≠ a) (hcb : c ≠ b) (hda : d ≠ a) (hdb : d ≠ b) (hab : Met r a b ab) (hcd : Met r c d cd)
    {ab' cd' : (List DtnMessage × List DtnMessage) × DtnRouter} (hcd' : Met ab.2 c d cd') (hab' : Met cd.2 a b ab') :
    SameRouter cd'.2 ab'.2 := by
  have hc := hab.other hca hcb
  have hd := hab.other hda hdb
  have ha := hcd.other hca.symm hda.symm
  have hb := hcd.other hcb.symm hdb.symm
  refine ⟨fun node => ?_, ?_, ?_⟩
  · rw [hcd'.buffers, hab'.buffers, hc, hd, ha, hb]
    by_cases hnc : node = c
    · subst hnc
      rw [if_pos rfl, if_neg hca, if_neg hcb, hcd.buffers, if_pos rfl]
    rw [if_neg hnc]
    by_cases hnd : node = d
    · subst hnd
      rw [if_pos rfl, if_neg hda, if_neg hdb, hcd.buffers, if_neg hnc, if_pos rfl]
    rw [if_neg hnd, hab.buffers, hcd.other hnc hnd]
  · rw [hcd'.maxBuffer, hab'.maxBuffer, hab.maxBuffer, hcd.maxBuffer]
  · rw [hcd'.stats, hab'.stats, hc, hd, ha, hb, hab.stats, hcd.stats, RouterStats.count_right_comm]

end Met

/-- **Encounters are symmetric and local.** For two nodes it does not matter which is named first: the lists are
swapped, buffers and counters are the same. Encounters of four distinct nodes, two and two, hand over the same lists
and end in the same router in either order. -/
theorem encounter_symmetric_local (r : DtnRouter) :
    (∀ a b, a ≠ b → (r.encounter b a).1 = (r.encounter a b).1.swap ∧
      SameRouter (r.encounter a b).2 (r.encounter b a).2) ∧
    ∀ a b c d, [a, b, c, d].Nodup →
      ((r.encounter a b).2.encounter c d).1 = (r.encounter c d).1 ∧
      ((r.encounter c d).2.encounter a b).1 = (r.encounter a b).1 ∧
      SameRouter ((r.encounter a b).2.encounter c d).2 ((r.encounter c d).2.encounter a b).2 := by
  refine ⟨fun a b hne => (encounter_met r hne).symmetric hne (encounter_met r hne.symm), fun a b c d hdistinct => ?_⟩
  obtain ⟨⟨hab, hac, had⟩, ⟨hbc, hbd⟩, hcd⟩ : (a ≠ b ∧ a ≠ c ∧ a ≠ d) ∧ (b ≠ c ∧ b ≠ d) ∧ c ≠ d := by
    simpa [and_assoc] using hdistinct
  have h₁ := encounter_met r hab
  have h₂ := encounter_met r hcd
  have h₁' := encounter_met (r.encounter c d).2 hab
  have h₂' := encounter_met (r.encounter a b).2 hcd
  exact ⟨h₁.later hac.symm hbc.symm had.symm hbd.symm h₂ h₂', h₂.later hac had hbc hbd h₁ h₁',
    h₁.commute hac.symm hbc.symm had.symm hbd.symm h₂ h₂' h₁'⟩

end Onde.Dtn
