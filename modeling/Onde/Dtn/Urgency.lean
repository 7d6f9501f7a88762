import Onde.Dtn.Router
import Onde.Lib.Smallest

/-!
# What a full buffer keeps

* `AsBad`: the order in which the search compares messages, by priority and then by age;
* `worstIndex_leastUrgent`: the search finds one of the oldest of the least urgent messages;
* `place_cases`: what a buffer does with an offer, by the cases of the policy;
* `keeps_most_urgent`: after any offers to an empty buffer it holds the smallest priority numbers among them.
-/

namespace Onde.Dtn

open Onde.Lib

/-! ## The search -/

/-- Of no greater urgency, and of two of the same urgency no younger: priority and time of a message against
another's. -/
def AsBad (w x : UInt8 × UInt64) : Prop := x.1 ≤ w.1 ∧ (x.1 = w.1 → w.2 ≤ x.2)

theorem AsBad.refl (w : UInt8 × UInt64) : AsBad w w := ⟨UInt8.le_refl _, fun _ => UInt64.le_refl _⟩

theorem AsBad.trans {w v x : UInt8 × UInt64} (h₁ : AsBad w v) (h₂ : AsBad v x) : AsBad w x := by
  refine ⟨UInt8.le_trans h₂.1 h₁.1, fun heq => ?_⟩
  have hv : v.1 = w.1 := UInt8.le_antisymm h₁.1 (heq ▸ h₂.1)
  exact UInt64.le_trans (h₁.2 hv) (h₂.2 (heq.trans hv.symm))

/-- One turn of the search is as bad as the message it looks at, and as the worst one before. -/
theorem worse_asBad {worst : Option (Nat × UInt8 × UInt64)} {i : Nat} {msg : DtnMessage} {w : Nat × UInt8 × UInt64}
    (h : worse worst i msg = some w) :
    AsBad w.2 (msg.priority, msg.timestampMs) ∧ ∀ v, worst = some v → AsBad w.2 v.2 := by
  cases worst with
  | none =>
    cases h
    exact ⟨AsBad.refl _, fun v hv => nomatch hv⟩
  | some v =>
    by_cases hworse : (decide (v.2.1 < msg.priority) || (msg.priority = v.2.1 && msg.timestampMs < v.2.2)) = true
    · obtain rfl : w = (i, msg.priority, msg.timestampMs) := Option.some.inj (h.symm.trans (if_pos hworse))
      refine ⟨AsBad.refl _, fun u hu => ?_⟩
      obtain rfl := Option.some.inj hu
      simp only [Bool.or_eq_true, Bool.and_eq_true, decide_eq_true_eq] at hworse
      rcases hworse with hlt | ⟨heq, hold⟩
      · exact ⟨UInt8.le_of_lt hlt, fun he => absurd hlt (he ▸ UInt8.lt_irrefl _)⟩
      · exact ⟨heq ▸ UInt8.le_refl _, fun _ => UInt64.le_of_lt hold⟩
    · obtain rfl : w = v := Option.some.inj (h.symm.trans (if_neg hworse))
      refine ⟨?_, fun u hu => Option.some.inj hu ▸ AsBad.refl _⟩
      simp only [Bool.or_eq_true, Bool.and_eq_true, decide_eq_true_eq, not_or, not_and] at hworse
      exact ⟨UInt8.not_lt.mp hworse.1, fun heq => UInt64.not_lt.mp (hworse.2 heq)⟩

theorem foldl_worse_asBad : ∀ {l : List (DtnMessage × Nat)} {worst : Option (Nat × UInt8 × UInt64)}
    {w : Nat × UInt8 × UInt64}, l.foldl (fun worst m => worse worst m.2 m.1) worst = some w →
    (∀ m ∈ l, AsBad w.2 (m.1.priority, m.1.timestampMs)) ∧ ∀ v, worst = some v → AsBad w.2 v.2
  | [], worst, w, h => ⟨fun _ hm => absurd hm List.not_mem_nil, fun v hv => by
      obtain rfl : v = w := Option.some.inj (hv.symm.trans h)
      exact AsBad.refl _⟩
  | m :: l, worst, w, h => by
    rw [List.foldl_cons] at h
    obtain ⟨hrest, hfirst⟩ := foldl_worse_asBad h
    -- the first turn never ends empty
    obtain ⟨u, hu⟩ : ∃ u, worse worst m.2 m.1 = some u := by
      rcases worse_some worst m.2 m.1 with hnew | ⟨hold, hne⟩
      · exact ⟨_, hnew⟩
      · rw [hold]
        exact Option.ne_none_iff_exists'.mp hne
    obtain ⟨hmsg, hbefore⟩ := worse_asBad hu
    have hwu := hfirst u hu
    refine ⟨fun x hx => ?_, fun v hv => hwu.trans (hbefore v hv)⟩
    rcases List.mem_cons.mp hx with rfl | hx
    · exact hwu.trans hmsg
    · exact hrest x hx

/-- A message of the buffer with the largest priority number, and no younger than any other with that number. -/
structure LeastUrgent (buf : List DtnMessage) (worst : DtnMessage) : Prop where
  mem : worst ∈ buf
  priority : ∀ m ∈ buf, m.priority ≤ worst.priority
  oldest : ∀ m ∈ buf, m.priority = worst.priority → worst.timestampMs ≤ m.timestampMs

/-- **The search finds a least urgent message.** -/
theorem worstIndex_leastUrgent {buf : List DtnMessage} {idx : Nat} {worst : DtnMessage}
    (hidx : worstIndex buf = some idx) (hworst : buf[idx]? = some worst) : LeastUrgent buf worst := by
  obtain ⟨w, hw, rfl⟩ := Option.map_eq_some_iff.mp hidx
  have hne : buf.zipIdx ≠ [] := by
    intro hnil
    rw [hnil] at hw
    cases hw
  obtain ⟨w', m, hw', hm, hkey⟩ := foldl_worse buf buf.zipIdx none
    (fun x hx => List.mem_zipIdx_iff_getElem?.mp hx) (fun _ h => nomatch h) (Or.inr hne)
  obtain rfl : w = w' := Option.some.inj (hw.symm.trans hw')
  obtain rfl : m = worst := Option.some.inj (hm.symm.trans hworst)
  have hall : ∀ x ∈ buf, AsBad (m.priority, m.timestampMs) (x.priority, x.timestampMs) := by
    intro x hx
    obtain ⟨i, hi⟩ := List.mem_iff_getElem?.mp hx
    exact hkey ▸ (foldl_worse_asBad hw).1 (x, i) (List.mem_zipIdx_iff_getElem?.mpr hi)
  exact ⟨List.mem_of_getElem? hm, fun x hx => (hall x hx).1, fun x hx => (hall x hx).2⟩

/-! ## One offer -/

/-- **What a buffer with room for one message at least does with an offer**: it takes it while it has room; when it is
full it puts the offer in the place of a least urgent message that is less urgent than it, or stays as it is. -/
theorem place_cases {maxBuffer : Nat} (hmax : 1 ≤ maxBuffer) (buf : List DtnMessage) (msg : DtnMessage) :
    (buf.length < maxBuffer ∧ place maxBuffer buf msg = (.stored, buf ++ [msg])) ∨
    (maxBuffer ≤ buf.length ∧ ∃ idx worst, buf[idx]? = some worst ∧ LeastUrgent buf worst ∧
      ((msg.priority < worst.priority ∧ place maxBuffer buf msg = (.replaced, buf.eraseIdx idx ++ [msg])) ∨
        (worst.priority ≤ msg.priority ∧ place maxBuffer buf msg = (.rejected, buf)))) := by
  rcases place_spec maxBuffer buf msg with ⟨hp, hroom⟩ | ⟨idx, worst, hp, hfull, hidx, hworst, hlt⟩ |
    ⟨hp, hfull, idx, worst, hidx, hworst, hnot⟩
  · refine .inl ⟨?_, hp⟩
    rcases hroom with hlt | rfl
    · exact hlt
    · exact hmax
  · exact .inr ⟨hfull, idx, worst, hworst, worstIndex_leastUrgent hidx hworst, .inl ⟨hlt, hp⟩⟩
  · exact .inr ⟨hfull, idx, worst, hworst, worstIndex_leastUrgent hidx hworst, .inr ⟨UInt8.not_lt.mp hnot, hp⟩⟩

/-- The priority numbers of messages. -/
def priorities (msgs : List DtnMessage) : Multiset Nat := msgs.map fun m => m.priority.toNat

theorem priorities_snoc (msgs : List DtnMessage) (msg : DtnMessage) :
    priorities (msgs ++ [msg]) = msg.priority.toNat ::ₘ priorities msgs := by
  rw [priorities, List.map_append, ← Multiset.coe_add, List.map_singleton, Multiset.coe_singleton, add_comm,
    Multiset.singleton_add, priorities]

theorem card_priorities (msgs : List DtnMessage) : (priorities msgs).card = msgs.length := by
  rw [priorities, Multiset.coe_card, List.length_map]

theorem mem_priorities {msgs : List DtnMessage} {p : Nat} :
    p ∈ priorities msgs ↔ ∃ m ∈ msgs, m.priority.toNat = p := by
  rw [priorities, Multiset.mem_coe, List.mem_map]

theorem priorities_eraseIdx {buf : List DtnMessage} {idx : Nat} {worst : DtnMessage} (h : buf[idx]? = some worst) :
    priorities (buf.eraseIdx idx) = (priorities buf).erase worst.priority.toNat := by
  obtain ⟨hlt, hget⟩ := List.getElem?_eq_some_iff.mp h
  have hperm := List.getElem_cons_eraseIdx_perm hlt
  rw [hget] at hperm
  have hcons : worst.priority.toNat ::ₘ priorities (buf.eraseIdx idx) = priorities buf :=
    Multiset.coe_eq_coe.mpr (hperm.map fun m : DtnMessage => m.priority.toNat)
  rw [← hcons, Multiset.erase_cons_head]

/-- **An offer keeps the smallest priority numbers offered.** -/
theorem place_isSmallest {maxBuffer : Nat} (hmax : 1 ≤ maxBuffer) {buf : List DtnMessage} {offered : Multiset Nat}
    (hs : IsSmallest maxBuffer offered (priorities buf)) (msg : DtnMessage) :
    IsSmallest maxBuffer (msg.priority.toNat ::ₘ offered) (priorities (place maxBuffer buf msg).2) := by
  rcases place_cases hmax buf msg with ⟨hroom, hp⟩ | ⟨hfull, idx, worst, hget, hworst, hcase⟩
  · rw [hp, priorities_snoc]
    exact hs.admit (by rwa [card_priorities])
  · have hcard : (priorities buf).card = maxBuffer := by
      obtain ⟨rest, -, -, hcard⟩ := hs
      rw [card_priorities] at hcard ⊢
      omega
    have hlargest : ∀ p ∈ priorities buf, p ≤ worst.priority.toNat := by
      intro p hp
      obtain ⟨m, hm, rfl⟩ := mem_priorities.mp hp
      exact UInt8.le_iff_toNat_le.mp (hworst.priority m hm)
    rcases hcase with ⟨hlt, hp⟩ | ⟨hge, hp⟩
    · rw [hp, priorities_snoc, priorities_eraseIdx hget]
      exact hs.displace hcard (mem_priorities.mpr ⟨worst, hworst.mem, rfl⟩) hlargest
        (UInt8.lt_iff_toNat_lt.mp hlt).le
    · rw [hp]
      exact hs.refuse hcard fun p hin => (hlargest p hin).trans (UInt8.le_iff_toNat_le.mp hge)

/-! ## A sequence of offers -/

namespace DtnRouter

/-- Offers to one node, one after the other. -/
def storeAll (r : DtnRouter) (node : String) (msgs : List DtnMessage) : DtnRouter :=
  msgs.foldl (fun r msg => (r.store node msg).2) r

variable {r : DtnRouter} {node : String}

theorem storeAll_snoc (msgs : List DtnMessage) (msg : DtnMessage) :
    r.storeAll node (msgs ++ [msg]) = ((r.storeAll node msgs).store node msg).2 := by
  rw [storeAll, List.foldl_append]
  rfl

theorem buffer_store (r : DtnRouter) (node : String) (msg : DtnMessage) (n : String) :
    (r.store node msg).2.buffer n = if n = node then (place r.maxBuffer (r.buffer node) msg).2 else r.buffer n := by
  by_cases hn : n = node
  · subst hn
    rw [if_pos rfl]
    exact StrMap.getD_insert_self
  · rw [if_neg hn]
    exact StrMap.getD_insert_ne hn

theorem store_stored (r : DtnRouter) (node : String) (msg : DtnMessage) :
    (r.store node msg).1 = !decide ((place r.maxBuffer (r.buffer node) msg).1 = .rejected) := rfl

theorem maxBuffer_storeAll (msgs : List DtnMessage) : (r.storeAll node msgs).maxBuffer = r.maxBuffer := by
  induction msgs using List.reverseRecOn with
  | nil => rfl
  | append_singleton msgs msg ih =>
    rw [storeAll_snoc]
    exact ih

/-- The run lemma: the buffer holds the smallest priority numbers offered. -/
theorem isSmallest_storeAll (hmax : 1 ≤ r.maxBuffer) (hempty : r.buffer node = []) (msgs : List DtnMessage) :
    IsSmallest r.maxBuffer (priorities msgs) (priorities ((r.storeAll node msgs).buffer node)) := by
  induction msgs using List.reverseRecOn with
  | nil =>
    show IsSmallest r.maxBuffer 0 (priorities (r.buffer node))
    rw [hempty]
    exact isSmallest_zero r.maxBuffer
  | append_singleton msgs msg ih =>
    rw [storeAll_snoc, buffer_store, if_pos rfl, maxBuffer_storeAll, priorities_snoc]
    exact place_isSmallest hmax ih msg

/-- **A buffer keeps the most urgent messages.** After any offers to a node whose buffer was empty, the buffer holds the
smallest priority numbers offered; one more offer, if it is rejected, leaves every buffer as it was, and if the buffer
is full and takes it, a least urgent message makes room. -/
theorem keeps_most_urgent (r : DtnRouter) (node : String) (hmax : 1 ≤ r.maxBuffer) (hempty : r.buffer node = [])
    (msgs : List DtnMessage) :
    priorities ((r.storeAll node msgs).buffer node) = smallest r.maxBuffer (priorities msgs) ∧
    ∀ msg, let before := r.storeAll node msgs
      let after := before.store node msg
      (after.1 = false → ∀ n, after.2.buffer n = before.buffer n) ∧
      (after.1 = true → before.maxBuffer ≤ (before.buffer node).length →
        ∃ idx worst, (before.buffer node)[idx]? = some worst ∧ LeastUrgent (before.buffer node) worst ∧
          msg.priority < worst.priority ∧
          after.2.buffer node = (before.buffer node).eraseIdx idx ++ [msg]) := by
  refine ⟨(isSmallest_storeAll hmax hempty msgs).eq_smallest, fun msg => ?_⟩
  intro before after
  have hmax' : 1 ≤ before.maxBuffer := by rwa [maxBuffer_storeAll]
  have hstored : after.1 = !decide ((place before.maxBuffer (before.buffer node) msg).1 = .rejected) :=
    store_stored before node msg
  have hbuffer : ∀ n, after.2.buffer n =
      if n = node then (place before.maxBuffer (before.buffer node) msg).2 else before.buffer n :=
    buffer_store before node msg
  rcases place_cases hmax' (before.buffer node) msg with
    ⟨hroom, hp⟩ | ⟨hfull, idx, worst, hget, hworst, ⟨hlt, hp⟩ | ⟨hge, hp⟩⟩
  · rw [hp] at hstored
    refine ⟨fun hrejected => ?_, fun _ hfull => absurd hroom (Nat.not_lt.mpr hfull)⟩
    rw [hstored] at hrejected
    cases hrejected
  · rw [hp] at hstored
    refine ⟨fun hrejected => ?_, fun _ _ => ⟨idx, worst, hget, hworst, hlt, ?_⟩⟩
    · rw [hstored] at hrejected
      cases hrejected
    · rw [hbuffer, if_pos rfl, hp]
  · rw [hp] at hstored
    refine ⟨fun _ n => ?_, fun hkept => ?_⟩
    · rw [hbuffer, hp]
      split
      · next hn => rw [hn]
      · rfl
    · rw [hstored] at hkept
      cases hkept

/-- A message of a given priority and time. -/
def urgentAt (priority : UInt8) (timestampMs : UInt64) : DtnMessage :=
  ⟨"m", "alice", none, [], .alert, 5, 0, timestampMs, priority, []⟩

/-- Of three offers of falling priority numbers, the last two stay in a buffer for two. -/
theorem keeps_last_two :
    priorities (((new 2).storeAll "bob" [urgentAt 2 7, urgentAt 1 8, urgentAt 0 9]).buffer "bob") =
        smallest 2 (priorities [urgentAt 2 7, urgentAt 1 8, urgentAt 0 9]) ∧
      ((new 2).storeAll "bob" [urgentAt 2 7, urgentAt 1 8, urgentAt 0 9]).buffer "bob" = [urgentAt 1 8, urgentAt 0 9] :=
  ⟨(keeps_most_urgent (new 2) "bob" (by decide) rfl [urgentAt 2 7, urgentAt 1 8, urgentAt 0 9]).1, by decide⟩

end DtnRouter

end Onde.Dtn
