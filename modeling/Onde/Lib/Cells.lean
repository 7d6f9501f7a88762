import Mathlib.Algebra.Order.Field.Basic
import Mathlib.Data.List.Basic

/-!
# Nested cells

A cell is divided into parts, one for each letter, and a point of the cell lies in one of them (`Cells`). Then a point
has an address of each length (`address`), and it lies in the cell of its addresses and of no other word
(`mem_descend`), so two points share a cell exactly when they share its address (`share_iff`).

* `Span.cells`: an interval of an ordered field halved, half-open but closed at the top of the whole range;
* `interleave`: two kinds of cells divided in turn;
* `blocks`: several divisions as one.
-/

namespace Onde.Lib

/-- Cells that are divided into parts named by letters. -/
structure Cells (σ α β : Type) where
  part : σ → β → σ
  Mem : σ → α → Prop
  letter : σ → α → β
  mem_part : ∀ s b x, Mem (part s b) x ↔ Mem s x ∧ b = letter s x

namespace Cells

variable {σ τ α γ β δ : Type} (C : Cells σ α β)

/-- The cell that a word names inside of another. -/
def descend (s : σ) (bs : List β) : σ := bs.foldl C.part s

/-- The word of a length that names the cell of a point. -/
def address (s : σ) (x : α) : Nat → List β
  | 0 => []
  | n + 1 => C.letter s x :: address (C.part s (C.letter s x)) x n

variable {C} {s : σ} {x y : α} {n : Nat}

@[simp] theorem length_address (s : σ) (x : α) : ∀ n, (C.address s x n).length = n
  | 0 => rfl
  | n + 1 => congrArg (· + 1) (length_address _ x n)

theorem descend_append (s : σ) (bs cs : List β) : C.descend s (bs ++ cs) = C.descend (C.descend s bs) cs :=
  List.foldl_append

/-- **A point lies in the cell of a word exactly when the word is its address.** -/
theorem mem_descend : ∀ {s : σ} {bs : List β}, C.Mem (C.descend s bs) x ↔ C.Mem s x ∧ bs = C.address s x bs.length
  | s, [] => (and_iff_left rfl).symm
  | s, b :: bs => by
    have hstep : C.descend s (b :: bs) = C.descend (C.part s b) bs := rfl
    rw [hstep, mem_descend, C.mem_part, and_assoc, List.length_cons, address]
    refine and_congr_right fun _ => ⟨?_, ?_⟩
    · rintro ⟨rfl, hbs⟩
      exact congrArg (C.letter s x :: ·) hbs
    · intro h
      obtain ⟨rfl, hbs⟩ := List.cons.inj h
      exact ⟨rfl, hbs⟩

theorem mem_address (h : C.Mem s x) (n : Nat) : C.Mem (C.descend s (C.address s x n)) x :=
  mem_descend.mpr ⟨h, by rw [length_address]⟩

/-- **A longer address goes on from the cell of a shorter one.** -/
theorem address_add (x : α) (n : Nat) : ∀ (m : Nat) (s : σ),
    C.address s x (m + n) = C.address s x m ++ C.address (C.descend s (C.address s x m)) x n
  | 0, s => by
    rw [Nat.zero_add]
    rfl
  | m + 1, s => by
    have hsum : m + 1 + n = m + n + 1 := by omega
    rw [hsum, address, address_add x n m]
    rfl

theorem take_address (s : σ) (x : α) {m n : Nat} (h : m ≤ n) : (C.address s x n).take m = C.address s x m := by
  obtain ⟨k, rfl⟩ := Nat.exists_eq_add_of_le h
  rw [address_add, List.take_left' (length_address s x m)]

/-- **Two points share a cell exactly when they share its address.** -/
theorem share_iff (hx : C.Mem s x) (hy : C.Mem s y) :
    (∃ bs : List β, bs.length = n ∧ C.Mem (C.descend s bs) x ∧ C.Mem (C.descend s bs) y) ↔
      C.address s x n = C.address s y n := by
  constructor
  · rintro ⟨bs, rfl, hbx, hby⟩
    exact (mem_descend.mp hbx).2.symm.trans (mem_descend.mp hby).2
  · intro h
    exact ⟨C.address s x n, length_address s x n, mem_address hx n, h ▸ mem_address hy n⟩

/-! ## Several divisions as one -/

/-- Words of one length as letters. -/
def blocks (C : Cells σ α β) (n : Nat) (spell : δ → List β) (read : List β → δ)
    (hlen : ∀ d, (spell d).length = n) (hread : ∀ d, read (spell d) = d)
    (hspell : ∀ bs : List β, bs.length = n → spell (read bs) = bs) : Cells σ α δ where
  part s d := C.descend s (spell d)
  Mem := C.Mem
  letter s x := read (C.address s x n)
  mem_part s d x := by
    rw [mem_descend, hlen]
    refine and_congr_right fun _ => ⟨?_, ?_⟩
    · intro h
      rw [← h, hread]
    · rintro rfl
      exact hspell _ (length_address s x n)

/-! ## Divisions in turn -/

/-- Two kinds of cells, divided in turn: the second kind where the flag is set. -/
def interleave (C : Cells σ α β) (D : Cells τ γ β) : Cells (Bool × σ × τ) (α × γ) β where
  part s b := if s.1 then (!s.1, s.2.1, D.part s.2.2 b) else (!s.1, C.part s.2.1 b, s.2.2)
  Mem s x := C.Mem s.2.1 x.1 ∧ D.Mem s.2.2 x.2
  letter s x := if s.1 then D.letter s.2.2 x.2 else C.letter s.2.1 x.1
  mem_part s b x := by
    cases s.1 with
    | false =>
      rw [if_neg Bool.false_ne_true, if_neg Bool.false_ne_true, C.mem_part]
      exact and_right_comm
    | true =>
      rw [if_pos rfl, if_pos rfl, D.mem_part]
      exact and_assoc.symm

end Cells

/-! ## Halves of an interval -/

/-- An interval that is not empty and does not go beyond the top. -/
structure Span {K : Type} [LinearOrder K] (top : K) where
  lo : K
  hi : K
  lo_lt : lo < hi
  hi_le : hi ≤ top

namespace Span

variable {K : Type} [Field K] [LinearOrder K] [IsStrictOrderedRing K] {top : K}

def mid (s : Span top) : K := (s.lo + s.hi) / 2

theorem lo_lt_mid (s : Span top) : s.lo < s.mid := left_lt_add_div_two.mpr s.lo_lt

theorem mid_lt_hi (s : Span top) : s.mid < s.hi := add_div_two_lt_right.mpr s.lo_lt

/-- The upper half, or the lower one. -/
def half (s : Span top) : Bool → Span top
  | true => ⟨s.mid, s.hi, s.mid_lt_hi, s.hi_le⟩
  | false => ⟨s.lo, s.mid, s.lo_lt_mid, s.mid_lt_hi.le.trans s.hi_le⟩

/-- In the interval: its end is in it at the top only. -/
def Mem (s : Span top) (x : K) : Prop := s.lo ≤ x ∧ (x < s.hi ∨ x = s.hi ∧ s.hi = top)

/-- The halves of an interval, the half of a point told by one comparison with the middle. -/
def cells (top : K) : Cells (Span top) K Bool where
  part := half
  Mem := Mem
  letter s x := decide (s.mid ≤ x)
  mem_part s b x := by
    have hlo := s.lo_lt_mid
    have hhi := s.mid_lt_hi
    have htop := s.hi_le
    cases b with
    | false =>
      rw [eq_comm, decide_eq_false_iff_not, not_le]
      constructor
      · rintro ⟨hx, hlt | ⟨-, heq⟩⟩
        · exact ⟨⟨hx, .inl (hlt.trans hhi)⟩, hlt⟩
        · exact absurd heq (hhi.trans_le htop).ne
      · rintro ⟨⟨hx, -⟩, hlt⟩
        exact ⟨hx, .inl hlt⟩
    | true =>
      rw [eq_comm, decide_eq_true_iff]
      constructor
      · rintro ⟨hx, hend⟩
        exact ⟨⟨hlo.le.trans hx, hend⟩, hx⟩
      · rintro ⟨⟨-, hend⟩, hx⟩
        exact ⟨hx, hend⟩

end Span

end Onde.Lib
