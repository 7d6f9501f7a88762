import Mathlib.Algebra.BigOperators.Group.Finset.Basic
import Mathlib.Algebra.Group.Int.Defs
import Mathlib.Data.Finmap
import Mathlib.Data.Finset.Sort
import Mathlib.Data.Prod.Lex
import Mathlib.Order.Interval.Finset.Nat

/-!
# Tables

A table is a finite map from its primary keys to its rows. What a statement does to it is read off by `lookup`:
`lookup_put`, `lookup_remove`, `lookup_filter`, `lookup_putNew`. A query with an order and a limit sees the rows of the
lowest or the highest rank (`mem_oldest`, `lookup_keepNewest`).
-/

namespace Onde.Lib

/-- A table with a primary key. -/
abbrev Table (κ V : Type) := Finmap fun _ : κ => V

/-! ## Sorted lists -/

/-- In a strictly sorted list, the first `n` elements are those with fewer than `n` before them. -/
theorem mem_take_iff {α : Type} {r : α → α → Prop} [DecidableRel r] [IsStrictOrder α r] {l : List α}
    (hl : l.Pairwise r) {n : Nat} {x : α} : x ∈ l.take n ↔ x ∈ l ∧ l.countP (fun y => r y x) < n := by
  induction l generalizing n with
  | nil => simp
  | cons y ys ih =>
    obtain ⟨hy, hys⟩ := List.pairwise_cons.mp hl
    cases n with
    | zero => simp
    | succ n =>
      rw [List.take_succ_cons, List.mem_cons, ih hys, List.mem_cons, List.countP_cons]
      constructor
      · rintro (rfl | ⟨hx, hlt⟩)
        · have hnone : ys.countP (fun z => r z x) = 0 :=
            List.countP_eq_zero.mpr fun z hz => by simpa using asymm_of r (hy z hz)
          simp [hnone, irrefl_of r x]
        · exact ⟨.inr hx, by split <;> omega⟩
      · rintro ⟨rfl | hx, hlt⟩
        · exact .inl rfl
        · rw [if_pos (by simpa using hy x hx)] at hlt
          exact .inr ⟨hx, by omega⟩

/-- And the others have `n` or more. -/
theorem mem_drop_iff {α : Type} {r : α → α → Prop} [DecidableRel r] [IsStrictOrder α r] {l : List α}
    (hl : l.Pairwise r) {n : Nat} {x : α} : x ∈ l.drop n ↔ x ∈ l ∧ n ≤ l.countP (fun y => r y x) := by
  have hnodup : (l.take n ++ l.drop n).Nodup := by
    rw [List.take_append_drop]
    exact hl.imp fun h => fun he => irrefl_of r _ (he ▸ h)
  have hsplit : x ∈ l ↔ x ∈ l.take n ∨ x ∈ l.drop n := by rw [← List.mem_append, List.take_append_drop]
  have hdisj := (List.nodup_append'.mp hnodup).2.2
  rw [hsplit]
  constructor
  · intro hx
    refine ⟨.inr hx, ?_⟩
    have hnot : x ∉ l.take n := fun ht => hdisj ht hx
    rw [mem_take_iff hl] at hnot
    exact Nat.le_of_not_lt fun hlt => hnot ⟨List.mem_of_mem_drop hx, hlt⟩
  · rintro ⟨ht | hx, hle⟩
    · exact absurd ((mem_take_iff hl).mp ht).2 (Nat.not_lt.mpr hle)
    · exact hx

namespace Table

variable {κ V : Type} [DecidableEq κ] {t : Table κ V} {k l : κ} {v : V}

/-! ## Statements on one row -/

/-- Write a row in place of the one with its key. -/
def put (t : Table κ V) (k : κ) (v : V) : Table κ V := Finmap.insert k v t

/-- Remove the row with a key. -/
def remove (t : Table κ V) (k : κ) : Table κ V := Finmap.erase k t

/-- Write a row unless there is one with its key. -/
def putNew (t : Table κ V) (k : κ) (v : V) : Table κ V := if k ∈ t then t else t.put k v

/-- Change the row with a key, if there is one. -/
def update (t : Table κ V) (k : κ) (f : V → V) : Table κ V :=
  match t.lookup k with
  | none => t
  | some v => t.put k (f v)

@[simp] theorem lookup_put (t : Table κ V) (k : κ) (v : V) (l : κ) :
    (t.put k v).lookup l = if l = k then some v else t.lookup l := by
  by_cases h : l = k
  · rw [h, if_pos rfl]
    exact Finmap.lookup_insert t
  · rw [if_neg h]
    exact Finmap.lookup_insert_of_ne t h

@[simp] theorem lookup_remove (t : Table κ V) (k l : κ) :
    (t.remove k).lookup l = if l = k then none else t.lookup l := by
  by_cases h : l = k
  · rw [h, if_pos rfl]
    exact Finmap.lookup_erase k t
  · rw [if_neg h]
    exact Finmap.lookup_erase_ne h

theorem lookup_putNew (t : Table κ V) (k : κ) (v : V) (l : κ) :
    (t.putNew k v).lookup l = if l = k then some ((t.lookup k).getD v) else t.lookup l := by
  unfold putNew
  by_cases hk : k ∈ t
  · obtain ⟨w, hw⟩ := Finmap.mem_iff.mp hk
    rw [if_pos hk]
    by_cases h : l = k
    · rw [if_pos h, h, hw, Option.getD_some]
    · rw [if_neg h]
  · rw [if_neg hk, lookup_put, Finmap.lookup_eq_none.mpr hk, Option.getD_none]

theorem lookup_update (t : Table κ V) (k : κ) (f : V → V) (l : κ) :
    (t.update k f).lookup l = if l = k then (t.lookup k).map f else t.lookup l := by
  unfold update
  cases hk : t.lookup k with
  | none =>
    by_cases h : l = k
    · rw [if_pos h, h, Option.map_none]
      exact hk
    · rw [if_neg h]
  | some v => rw [lookup_put, Option.map_some]

theorem mem_update {f : V → V} : l ∈ t.update k f ↔ l ∈ t := by
  rw [← Finmap.lookup_isSome, lookup_update, ← Finmap.lookup_isSome]
  by_cases hl : l = k
  · rw [if_pos hl, hl, Option.isSome_map]
  · rw [if_neg hl]

theorem update_eq_self {f : V → V} (h : ∀ v, f v = v) : t.update k f = t :=
  Finmap.ext_lookup fun l => by
    rw [lookup_update]
    by_cases hl : l = k
    · rw [if_pos hl, hl, show f = id from funext h, Option.map_id, id]
    · rw [if_neg hl]

@[simp] theorem mem_put : l ∈ t.put k v ↔ l = k ∨ l ∈ t := Finmap.mem_insert

@[simp] theorem mem_remove : l ∈ t.remove k ↔ l ≠ k ∧ l ∈ t := Finmap.mem_erase

@[simp] theorem keys_remove : (t.remove k).keys = t.keys.erase k := Finmap.keys_erase k t

theorem keys_put : (t.put k v).keys = insert k t.keys := by
  ext j
  rw [Finmap.mem_keys, mem_put, Finset.mem_insert, Finmap.mem_keys]

theorem mem_putNew : l ∈ t.putNew k v ↔ l = k ∨ l ∈ t := by
  unfold putNew
  split
  case isTrue hk => exact ⟨.inr, fun h => h.elim (fun he => he ▸ hk) id⟩
  case isFalse => exact mem_put

theorem mem_of_lookup (h : t.lookup k = some v) : k ∈ t := Finmap.mem_of_lookup_eq_some h

theorem putNew_of_mem (h : k ∈ t) : t.putNew k v = t := if_pos h

theorem remove_of_notMem (h : k ∉ t) : t.remove k = t :=
  Finmap.ext_lookup fun l => by
    rw [lookup_remove]
    by_cases hl : l = k
    · rw [if_pos hl, hl, Finmap.lookup_eq_none.mpr h]
    · rw [if_neg hl]

theorem put_of_lookup (h : t.lookup k = some v) : t.put k v = t :=
  Finmap.ext_lookup fun l => by
    rw [lookup_put]
    by_cases hl : l = k
    · rw [if_pos hl, hl, h]
    · rw [if_neg hl]

theorem put_eq_self_iff : t.put k v = t ↔ t.lookup k = some v := by
  refine ⟨fun h => ?_, put_of_lookup⟩
  rw [← h, lookup_put, if_pos rfl]

theorem putNew_eq_self_iff : t.putNew k v = t ↔ k ∈ t := by
  refine ⟨fun h => ?_, putNew_of_mem⟩
  rw [← h]
  exact mem_putNew.mpr (.inl rfl)

theorem remove_eq_self_iff : t.remove k = t ↔ k ∉ t := by
  refine ⟨fun h hk => ?_, remove_of_notMem⟩
  rw [← h] at hk
  exact (mem_remove.mp hk).1 rfl

/-! ## Statements on many rows -/

/-- The rows that satisfy a condition. -/
def filter (p : κ → V → Bool) (t : Table κ V) : Table κ V :=
  Finmap.keysLookupEquiv.symm ⟨(t.keys.filter fun k => ((t.lookup k).filter (p k)).isSome,
    fun k => (t.lookup k).filter (p k)), fun k => by
      rw [Finset.mem_filter, Finmap.mem_keys, ← Finmap.lookup_isSome]
      cases h : t.lookup k <;> simp [h]⟩

@[simp] theorem lookup_filter (p : κ → V → Bool) (t : Table κ V) (k : κ) :
    (t.filter p).lookup k = (t.lookup k).filter (p k) :=
  Finmap.keysLookupEquiv_symm_apply_lookup _ _

theorem lookup_filter_some {p : κ → V → Bool} :
    (t.filter p).lookup k = some v ↔ t.lookup k = some v ∧ p k v = true := by
  rw [lookup_filter, Option.filter_eq_some_iff]

theorem mem_of_filter {p : κ → V → Bool} (h : k ∈ t.filter p) : k ∈ t := by
  obtain ⟨v, hv⟩ := Finmap.mem_iff.mp h
  exact mem_of_lookup (lookup_filter_some.mp hv).1

theorem filter_eq_self {p : κ → V → Bool} (h : ∀ k v, t.lookup k = some v → p k v = true) : t.filter p = t :=
  Finmap.ext_lookup fun k => by
    rw [lookup_filter]
    cases hk : t.lookup k with
    | none => rfl
    | some v => rw [Option.filter_some, if_pos (h k v hk)]

/-! ## Sums over a column -/

/-- The sum of a number of each row. -/
def total (f : κ → V → Int) (t : Table κ V) : Int := ∑ k ∈ t.keys, (t.lookup k).elim 0 (f k)

/-- **A row in place of another.** -/
theorem total_put (f : κ → V → Int) (t : Table κ V) (k : κ) (v : V) :
    (t.put k v).total f = t.total f - (t.lookup k).elim 0 (f k) + f k v := by
  have hkeys : (t.put k v).keys = insert k (t.keys.erase k) := by
    ext j
    rw [Finmap.mem_keys, mem_put, Finset.mem_insert, Finset.mem_erase, Finmap.mem_keys]
    by_cases hj : j = k <;> simp [hj]
  have hrest : ∑ j ∈ t.keys.erase k, ((t.put k v).lookup j).elim 0 (f j) =
      ∑ j ∈ t.keys.erase k, (t.lookup j).elim 0 (f j) :=
    Finset.sum_congr rfl fun j hj => by rw [lookup_put, if_neg (Finset.ne_of_mem_erase hj)]
  have hold : t.total f = (t.lookup k).elim 0 (f k) + ∑ j ∈ t.keys.erase k, (t.lookup j).elim 0 (f j) := by
    by_cases hk : k ∈ t.keys
    · exact (Finset.add_sum_erase _ _ hk).symm
    · rw [Finset.erase_eq_of_notMem hk, Finmap.lookup_eq_none.mpr fun hm => hk (Finmap.mem_keys.mpr hm)]
      exact (zero_add _).symm
  rw [total, hkeys, Finset.sum_insert (Finset.notMem_erase k _), hrest, lookup_put, if_pos rfl, hold]
  simp only [Option.elim_some]
  omega

/-! ## Rows in order -/

/-- The place of a row in the order of a time column, then of the keys. -/
def age (stamp : V → Int) (t : Table κ V) (k : κ) : Int ×ₗ κ := toLex ((t.lookup k).elim 0 stamp, k)

theorem age_injective (stamp : V → Int) (t : Table κ V) : Function.Injective (t.age stamp) :=
  fun _ _ h => congrArg (fun x => (ofLex x).2) h

variable {stamp : V → Int} {n : Nat}

/-- The keys of a table in an order, by their ages. -/
theorem mem_sort_age {r : Int ×ₗ κ → Int ×ₗ κ → Prop} [DecidableRel r] [IsTrans _ r] [Std.Antisymm r] [Std.Total r] :
    t.age stamp k ∈ (t.keys.image (t.age stamp)).sort r ↔ k ∈ t := by
  rw [Finset.mem_sort, (age_injective stamp t).mem_finset_image, Finmap.mem_keys]

theorem countP_sort_age {r : Int ×ₗ κ → Int ×ₗ κ → Prop} [DecidableRel r] [IsTrans _ r] [Std.Antisymm r]
    [Std.Total r] (p : Int ×ₗ κ → Prop) [DecidablePred p] :
    ((t.keys.image (t.age stamp)).sort r).countP p = (t.keys.filter fun j => p (t.age stamp j)).card := by
  rw [← List.Nodup.card_eq_countP (Finset.sort_nodup _ _), Finset.sort_toFinset, Finset.filter_image,
    Finset.card_image_of_injective _ (age_injective stamp t)]

variable [LinearOrder κ]

/-- How many of some rows are before a row. -/
def rank (stamp : V → Int) (t : Table κ V) (s : Finset κ) (k : κ) : Nat :=
  (s.filter fun j => t.age stamp j < t.age stamp k).card

/-- How many are after it. -/
def rankDesc (stamp : V → Int) (t : Table κ V) (s : Finset κ) (k : κ) : Nat :=
  (s.filter fun j => t.age stamp k < t.age stamp j).card

/-- The keys of the first `n` rows. -/
def oldest (stamp : V → Int) (n : Nat) (t : Table κ V) : List κ :=
  (((t.keys.image (t.age stamp)).sort (· ≤ ·)).take n).map fun a => (ofLex a).2

/-- The table without the rows after the last `n` of them. -/
def keepNewest (stamp : V → Int) (n : Nat) (t : Table κ V) : Table κ V :=
  t.filter fun k _ => t.age stamp k ∉ ((t.keys.image (t.age stamp)).sort (· ≥ ·)).drop n

/-- **A scan with a limit sees the rows with fewer than that many before them.** -/
theorem mem_oldest : k ∈ t.oldest stamp n ↔ k ∈ t ∧ t.rank stamp t.keys k < n := by
  have hmem : k ∈ t.oldest stamp n ↔ t.age stamp k ∈ ((t.keys.image (t.age stamp)).sort (· ≤ ·)).take n := by
    unfold oldest
    rw [List.mem_map]
    constructor
    · rintro ⟨a, ha, rfl⟩
      obtain ⟨j, -, rfl⟩ := Finset.mem_image.mp ((Finset.mem_sort _).mp (List.mem_of_mem_take ha))
      exact ha
    · exact fun ha => ⟨_, ha, rfl⟩
  rw [hmem, mem_take_iff (Finset.sortedLT_sort _).pairwise, mem_sort_age, countP_sort_age, rank]

/-- **A cap keeps the rows with fewer than that many after them**, unchanged. -/
theorem lookup_keepNewest : (t.keepNewest stamp n).lookup k =
    if t.rankDesc stamp t.keys k < n then t.lookup k else none := by
  have hcut : t.age stamp k ∈ ((t.keys.image (t.age stamp)).sort (· ≥ ·)).drop n ↔
      k ∈ t ∧ n ≤ t.rankDesc stamp t.keys k := by
    rw [mem_drop_iff (Finset.sortedGT_sort _).pairwise, mem_sort_age, countP_sort_age, rankDesc]
  rw [keepNewest, lookup_filter]
  cases hk : t.lookup k with
  | none => simp
  | some v =>
    have hmem : k ∈ t := mem_of_lookup hk
    by_cases h : t.rankDesc stamp t.keys k < n
    · simp [hcut, h]
    · simp [hcut, hmem, h, Nat.le_of_not_lt h]

/-- What a cap keeps are at most that many rows. -/
theorem card_keepNewest_le : (t.keepNewest stamp n).keys.card ≤ n := by
  let newest := ((t.keys.image (t.age stamp)).sort (· ≥ ·)).take n
  have hsub : (t.keepNewest stamp n).keys.image (t.age stamp) ⊆ newest.toFinset := by
    intro a ha
    obtain ⟨k, hk, rfl⟩ := Finset.mem_image.mp ha
    obtain ⟨v, hv⟩ := Finmap.mem_iff.mp (Finmap.mem_keys.mp hk)
    obtain ⟨hold, hkept⟩ := lookup_filter_some.mp hv
    have hall : t.age stamp k ∈ newest ++ ((t.keys.image (t.age stamp)).sort (· ≥ ·)).drop n := by
      rw [List.take_append_drop]
      exact mem_sort_age.mpr (mem_of_lookup hold)
    rw [List.mem_toFinset]
    exact (List.mem_append.mp hall).resolve_right (of_decide_eq_true hkept)
  calc (t.keepNewest stamp n).keys.card
      = ((t.keepNewest stamp n).keys.image (t.age stamp)).card :=
        (Finset.card_image_of_injective _ (age_injective stamp t)).symm
    _ ≤ newest.toFinset.card := Finset.card_le_card hsub
    _ ≤ newest.length := List.toFinset_card_le _
    _ ≤ n := List.length_take_le _ _

/-- A table within the cap is kept. -/
theorem keepNewest_eq_self (h : t.keys.card ≤ n) : t.keepNewest stamp n = t := by
  refine filter_eq_self fun k v _ => decide_eq_true ?_
  have hall : ((t.keys.image (t.age stamp)).sort (· ≥ ·)).drop n = [] := by
    rw [List.drop_eq_nil_iff, Finset.length_sort]
    exact Finset.card_image_le.trans h
  rw [hall]
  exact List.not_mem_nil

/-- A new row that changes nothing under a cap finds the table full of rows that come after it. -/
theorem full_of_keepNewest_put (hk : k ∉ t) (heq : (t.put k v).keepNewest stamp n = t) :
    t.keys.card = n ∧ ∀ j ∈ t, (t.put k v).age stamp k < (t.put k v).age stamp j := by
  have hcap : t.keys.card ≤ n := heq ▸ card_keepNewest_le
  have hcut : n ≤ (t.put k v).rankDesc stamp (t.put k v).keys k := by
    by_contra hlt
    have hrow : ((t.put k v).keepNewest stamp n).lookup k = (t.put k v).lookup k := by
      rw [lookup_keepNewest, if_pos (Nat.lt_of_not_le hlt)]
    rw [heq, Finmap.lookup_eq_none.mpr hk, lookup_put, if_pos rfl] at hrow
    cases hrow
  have hsub : ((t.put k v).keys.filter fun j => (t.put k v).age stamp k < (t.put k v).age stamp j) ⊆ t.keys := by
    intro j hj
    obtain ⟨hj, hlt⟩ := Finset.mem_filter.mp hj
    rw [keys_put] at hj
    exact (Finset.mem_insert.mp hj).resolve_left fun he => absurd hlt (he ▸ lt_irrefl _)
  have hall := Finset.eq_of_subset_of_card_le hsub (hcap.trans hcut)
  refine ⟨Nat.le_antisymm hcap (hcut.trans (Finset.card_le_card hsub)), fun j hj => ?_⟩
  rw [← Finmap.mem_keys, ← hall] at hj
  exact (Finset.mem_filter.mp hj).2

/-- The cap drops a new row again if the table is full of rows that come after it. -/
theorem keepNewest_put_of_full (hk : k ∉ t) (hfull : t.keys.card = n)
    (hlater : ∀ j ∈ t, (t.put k v).age stamp k < (t.put k v).age stamp j) : (t.put k v).keepNewest stamp n = t := by
  refine Finmap.ext_lookup fun j => ?_
  rw [lookup_keepNewest]
  by_cases hjk : j = k
  · have hcut : n ≤ (t.put k v).rankDesc stamp (t.put k v).keys j := by
      rw [hjk, ← hfull]
      refine Finset.card_le_card fun i hi => Finset.mem_filter.mpr ⟨?_, hlater i (Finmap.mem_keys.mp hi)⟩
      rw [keys_put]
      exact Finset.mem_insert_of_mem hi
    rw [if_neg (Nat.not_lt.mpr hcut), hjk, Finmap.lookup_eq_none.mpr hk]
  rw [lookup_put, if_neg hjk]
  by_cases hj : j ∈ t
  swap
  · rw [Finmap.lookup_eq_none.mpr hj, ite_self]
  -- the rows after an old one are other old ones
  refine if_pos ?_
  have hsub : ((t.put k v).keys.filter fun i => (t.put k v).age stamp j < (t.put k v).age stamp i) ⊆
      t.keys.erase j := by
    intro i hi
    obtain ⟨hi, hlt⟩ := Finset.mem_filter.mp hi
    rw [keys_put] at hi
    refine Finset.mem_erase.mpr ⟨fun he => absurd hlt (he ▸ lt_irrefl _), ?_⟩
    exact (Finset.mem_insert.mp hi).resolve_left fun he => absurd hlt (he ▸ (hlater j hj).asymm)
  have hj' : j ∈ t.keys := Finmap.mem_keys.mpr hj
  calc (t.put k v).rankDesc stamp (t.put k v).keys j ≤ (t.keys.erase j).card := Finset.card_le_card hsub
    _ < t.keys.card := Finset.card_erase_lt_of_mem hj'
    _ = n := hfull

/-- **A row written under a cap changes nothing** exactly if it is there already, or the table is full and all its rows
come after it. -/
theorem keepNewest_put_eq_iff : (t.put k v).keepNewest stamp n = t ↔
    (t.lookup k = some v ∧ t.keys.card ≤ n) ∨
      (k ∉ t ∧ t.keys.card = n ∧ ∀ j ∈ t, (t.put k v).age stamp k < (t.put k v).age stamp j) := by
  constructor
  · intro heq
    by_cases hk : k ∈ t
    swap
    · exact .inr ⟨hk, full_of_keepNewest_put hk heq⟩
    obtain ⟨w, hw⟩ := Finmap.mem_iff.mp hk
    have hrow : ((t.put k v).keepNewest stamp n).lookup k = _ := lookup_keepNewest
    rw [heq, hw, lookup_put, if_pos rfl] at hrow
    split at hrow
    · exact .inl ⟨hw.trans hrow, heq ▸ card_keepNewest_le⟩
    · cases hrow
  · rintro (⟨hrow, hcap⟩ | ⟨hk, hfull, hlater⟩)
    · rw [put_of_lookup hrow]
      exact keepNewest_eq_self hcap
    · exact keepNewest_put_of_full hk hfull hlater

end Table

end Onde.Lib
