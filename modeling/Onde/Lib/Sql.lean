import Mathlib.Algebra.Order.Field.Rat
import Mathlib.Data.List.Lex
import Mathlib.Data.List.MinMax
import Mathlib.Data.Prod.Lex
import Mathlib.Order.WithBot
import Onde.Lib.Bytes

/-!
# Values of a database

* `SqlValue`: what a column may hold, ordered by its kind first (`SqlValue.rank`);
* `sqlMin`, `sqlMax`: the aggregates, which leave null out (`sqlMin_le_sqlMax`, `sqlMin_le_integer`);
* `getText`, `getOptText`, `getOptInteger`, `getBlob`: a value read as one of a type.
-/

namespace Onde.Lib

/-- The value of a column; a real number may be infinite. -/
inductive SqlValue where
  | null
  | integer (n : Int)
  | real (x : WithBot (WithTop ℚ))
  | text (bytes : Bytes)
  | blob (bytes : Bytes)
  deriving DecidableEq

inductive SqlType where
  | null | integer | real | text | blob
  deriving DecidableEq

inductive SqliteError where
  | invalidColumnType (index : Nat) (name : String) (found : SqlType)
  | fromSqlConversionFailure (index : Nat) (found : SqlType)
  | failure (msg : String)
  deriving DecidableEq

namespace SqlValue

def dataType : SqlValue → SqlType
  | null => .null
  | integer _ => .integer
  | real _ => .real
  | text _ => .text
  | blob _ => .blob

/-- The order of values: numbers, then texts, then blobs. -/
def rank : SqlValue → Nat ×ₗ WithBot (WithTop ℚ) ×ₗ List Nat
  | null => toLex (0, toLex (⊥, []))
  | integer n => toLex (1, toLex (((n : ℚ) : WithTop ℚ), []))
  | real x => toLex (1, toLex (x, []))
  | text bytes => toLex (2, toLex (⊥, bytes.map UInt8.toNat))
  | blob bytes => toLex (3, toLex (⊥, bytes.map UInt8.toNat))

theorem rank_integer_le {m n : Int} : (integer m).rank ≤ (integer n).rank ↔ m ≤ n := by
  simp only [rank, Prod.Lex.toLex_le_toLex, lt_self_iff_false, true_and, false_or]
  rw [and_iff_left le_rfl, ← le_iff_lt_or_eq, WithBot.coe_le_coe, WithTop.coe_le_coe, Rat.intCast_le_intCast]

/-- Is the value of a column of numbers equal to an integer? -/
def eqInteger (n : Int) : SqlValue → Bool
  | integer m => m = n
  | real x => x = ((n : ℚ) : WithTop ℚ)
  | _ => false

theorem rank_of_eqInteger {v : SqlValue} {n : Int} (h : v.eqInteger n = true) : v.rank = (integer n).rank := by
  cases v with
  | integer m => rw [of_decide_eq_true h]
  | real x => rw [rank, rank, of_decide_eq_true h]
  | null => cases h
  | text bytes => cases h
  | blob bytes => cases h

end SqlValue

/-! ## Aggregates -/

/-- The smallest value, null if there is none. -/
def sqlMin (vs : List SqlValue) : SqlValue := ((vs.filter (· ≠ SqlValue.null)).argmin SqlValue.rank).getD .null

/-- The largest value, null if there is none. -/
def sqlMax (vs : List SqlValue) : SqlValue := ((vs.filter (· ≠ SqlValue.null)).argmax SqlValue.rank).getD .null

variable {vs : List SqlValue} {m n : Int}

theorem mem_of_sqlMin {v : SqlValue} (h : sqlMin vs = v) (hv : v ≠ .null) :
    v ∈ (vs.filter (· ≠ SqlValue.null)).argmin SqlValue.rank := by
  unfold sqlMin at h
  cases hmin : (vs.filter (· ≠ SqlValue.null)).argmin SqlValue.rank with
  | none =>
    rw [hmin] at h
    exact absurd h.symm hv
  | some w =>
    rw [hmin] at h
    exact congrArg some h

theorem mem_of_sqlMax {v : SqlValue} (h : sqlMax vs = v) (hv : v ≠ .null) :
    v ∈ (vs.filter (· ≠ SqlValue.null)).argmax SqlValue.rank := by
  unfold sqlMax at h
  cases hmax : (vs.filter (· ≠ SqlValue.null)).argmax SqlValue.rank with
  | none =>
    rw [hmax] at h
    exact absurd h.symm hv
  | some w =>
    rw [hmax] at h
    exact congrArg some h

/-- **The smallest integer is not above the largest.** -/
theorem sqlMin_le_sqlMax (hmin : sqlMin vs = .integer m) (hmax : sqlMax vs = .integer n) : m ≤ n := by
  have hm := mem_of_sqlMin hmin nofun
  have hn := mem_of_sqlMax hmax nofun
  exact SqlValue.rank_integer_le.mp (List.le_of_mem_argmax (List.argmin_mem hm) hn)

theorem mem_notNull {w : SqlValue} (hw : w ∈ vs) (h : w.eqInteger n = true) :
    w ∈ vs.filter (· ≠ SqlValue.null) := by
  refine List.mem_filter.mpr ⟨hw, decide_eq_true ?_⟩
  rintro rfl
  cases h

/-- An integer of the column is between the two. -/
theorem sqlMin_le_integer {w : SqlValue} (hmin : sqlMin vs = .integer m) (hw : w ∈ vs) (h : w.eqInteger n = true) :
    m ≤ n := by
  have hle := List.le_of_mem_argmin (mem_notNull hw h) (mem_of_sqlMin hmin nofun)
  rw [SqlValue.rank_of_eqInteger h] at hle
  exact SqlValue.rank_integer_le.mp hle

theorem integer_le_sqlMax {w : SqlValue} (hmax : sqlMax vs = .integer m) (hw : w ∈ vs) (h : w.eqInteger n = true) :
    n ≤ m := by
  have hle := List.le_of_mem_argmax (mem_notNull hw h) (mem_of_sqlMax hmax nofun)
  rw [SqlValue.rank_of_eqInteger h] at hle
  exact SqlValue.rank_integer_le.mp hle

/-! ## Reading a column -/

variable (index : Nat) (name : String)

def getText : SqlValue → Except SqliteError String
  | .text bytes =>
    match fromUtf8 bytes with
    | some s => .ok s
    | none => .error (.fromSqlConversionFailure index .text)
  | v => .error (.invalidColumnType index name v.dataType)

def getOptText : SqlValue → Except SqliteError (Option String)
  | .null => .ok none
  | v => (getText index name v).map some

def getOptInteger : SqlValue → Except SqliteError (Option Int)
  | .null => .ok none
  | .integer n => .ok (some n)
  | v => .error (.invalidColumnType index name v.dataType)

def getBlob : SqlValue → Except SqliteError Bytes
  | .blob bytes => .ok bytes
  | v => .error (.invalidColumnType index name v.dataType)

variable {index name}

theorem getOptInteger_eq_ok {v : SqlValue} {o : Option Int} (h : getOptInteger index name v = .ok o) :
    ∀ n, o = some n ↔ v = .integer n := by
  intro n
  cases v with
  | null =>
    cases h
    exact ⟨nofun, nofun⟩
  | integer k =>
    cases h
    rw [Option.some.injEq, SqlValue.integer.injEq]
  | real x => cases h
  | text bytes => cases h
  | blob bytes => cases h

end Onde.Lib
