import Mathlib.Algebra.Ring.Nat
import Mathlib.Data.Finset.Sort
import Mathlib.Data.List.AList
import Mathlib.Data.String.Basic

/-!
# Hash maps and the order of their iteration

A map from texts is an association list without duplicate keys. Iterating over a hash map or set visits every key
once, in an order nobody promises: `HashOrder` is such an order, and results about it hold for every one. A sum over the
values follows the updates (`total_insert`).
-/

namespace Onde.Lib

/-- A map from texts. -/
abbrev StrMap (V : Type) := AList fun _ : String => V

/-- An iteration order: each key once. -/
structure HashOrder where
  order : Finset String → List String
  nodup : ∀ s, (order s).Nodup
  mem : ∀ s k, k ∈ order s ↔ k ∈ s

/-- Iteration in increasing order is one of them. -/
def HashOrder.sorted : HashOrder where
  order s := s.sort (· ≤ ·)
  nodup s := s.sort_nodup (· ≤ ·)
  mem s _ := s.mem_sort (· ≤ ·)

namespace StrMap

variable {V : Type} {m : StrMap V} {k l : String} {v : V}

/-- The value of a key, or a default. -/
def getD (m : StrMap V) (k : String) (dflt : V) : V := (m.lookup k).getD dflt

/-- The keys, in an iteration order. -/
def keysIn (ord : HashOrder) (m : StrMap V) : List String := ord.order m.keys.toFinset

theorem mem_keysIn {ord : HashOrder} : k ∈ keysIn ord m ↔ k ∈ m := by
  rw [keysIn, ord.mem, List.mem_toFinset, ← AList.mem_keys]

theorem getD_of_lookup {dflt : V} (h : m.lookup k = some v) : m.getD k dflt = v := by rw [getD, h, Option.getD_some]

theorem getD_of_none {dflt : V} (h : m.lookup k = none) : m.getD k dflt = dflt := by rw [getD, h, Option.getD_none]

@[simp] theorem getD_empty {dflt : V} : (∅ : StrMap V).getD k dflt = dflt := rfl

@[simp] theorem getD_insert_self {dflt : V} : getD (m.insert k v) k dflt = v := by
  rw [getD, AList.lookup_insert, Option.getD_some]

@[simp] theorem getD_erase_self {dflt : V} : getD (m.erase k) k dflt = dflt := by
  rw [getD, AList.lookup_erase, Option.getD_none]

theorem getD_erase_ne {dflt : V} (h : l ≠ k) : getD (m.erase k) l dflt = m.getD l dflt := by
  rw [getD, AList.lookup_erase_ne h, getD]

theorem getD_insert_ne {dflt : V} (h : l ≠ k) : getD (m.insert k v) l dflt = m.getD l dflt := by
  rw [getD, AList.lookup_insert_ne h, getD]

/-! ## Sums over the values -/

/-- The sum of a number of each value. -/
def total (f : V → Nat) (m : StrMap V) : Nat := (m.entries.map fun e => f e.2).sum

@[simp] theorem total_empty (f : V → Nat) : total f (∅ : StrMap V) = 0 := rfl

theorem sum_kerase (f : V → Nat) (k : String) : ∀ l : List (Sigma fun _ : String => V),
    ((l.kerase k).map fun e => f e.2).sum + ((l.dlookup k).map f).getD 0 = (l.map fun e => f e.2).sum
  | [] => rfl
  | e :: l => by
    by_cases h : k = e.1
    · subst h
      obtain ⟨k, v⟩ := e
      simp [Nat.add_comm]
    · have ih := sum_kerase f k l
      rw [List.kerase_cons_ne h, List.dlookup_cons_ne l e h, List.map_cons, List.sum_cons, List.map_cons,
        List.sum_cons]
      omega

/-- **A value in place of another.** -/
theorem total_insert (f : V → Nat) (m : StrMap V) (k : String) (v : V) :
    total f (m.insert k v) + ((m.lookup k).map f).getD 0 = total f m + f v := by
  have h := sum_kerase f k m.entries
  have hinsert : total f (m.insert k v) = f v + ((m.entries.kerase k).map fun e => f e.2).sum := by
    rw [total, AList.entries_insert, List.map_cons, List.sum_cons]
  rw [hinsert, total, AList.lookup]
  omega

end StrMap

end Onde.Lib
