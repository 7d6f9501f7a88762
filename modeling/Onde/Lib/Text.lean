/-!
# Texts as lists of characters

* `trim`: without the white space at both ends;
* `parseUnsigned`: a decimal number up to a bound, with an optional plus sign; it reads back what is written
  (`parseUnsigned_repr`);
* `afterHead`: what follows a given beginning.
-/

namespace Onde.Lib

/-- The white space of Unicode. -/
def isWhiteSpace (c : Char) : Bool :=
  (9 ≤ c.toNat && c.toNat ≤ 13) || (0x2000 ≤ c.toNat && c.toNat ≤ 0x200a) ||
    c.toNat ∈ [0x20, 0x85, 0xa0, 0x1680, 0x2028, 0x2029, 0x202f, 0x205f, 0x3000]

def trim (cs : List Char) : List Char := ((cs.dropWhile isWhiteSpace).reverse.dropWhile isWhiteSpace).reverse

/-- The number whose decimal digits are the list. -/
def ofDigits (cs : List Char) : Option Nat :=
  cs.foldlM (fun acc c => if c.isDigit then some (10 * acc + (c.toNat - 48)) else none) 0

/-- A number up to `max`; a plus sign may stand before the digits. -/
def parseUnsigned (max : Nat) (cs : List Char) : Option Nat :=
  let digits := match cs with
    | '+' :: d :: ds => d :: ds
    | _ => cs
  if digits = [] then none else (ofDigits digits).filter (· ≤ max)

/-- Digits are read as the number they stand for. -/
theorem foldlM_digits {cs : List Char} (hcs : ∀ c ∈ cs, c.isDigit) (acc : Nat) :
    cs.foldlM (fun acc c => if c.isDigit then some (10 * acc + (c.toNat - 48)) else none) acc =
      some (Nat.ofDigitChars 10 cs acc) := by
  induction cs generalizing acc with
  | nil => simp
  | cons c cs ih =>
    rw [List.foldlM_cons, if_pos (hcs c List.mem_cons_self), Nat.ofDigitChars_cons]
    exact ih (fun d hd => hcs d (List.mem_cons_of_mem c hd)) _

/-- **A number up to the bound is read back from its decimal digits.** -/
theorem parseUnsigned_repr {max n : Nat} (hn : n ≤ max) : parseUnsigned max n.repr.toList = some n := by
  have hdigits : ∀ c ∈ Nat.toDigits 10 n, c.isDigit := fun c hc =>
    Nat.isDigit_of_mem_toDigits (by omega) (Nat.le_refl 10) hc
  have hread : ofDigits (Nat.toDigits 10 n) = some n := by
    rw [ofDigits, foldlM_digits hdigits, Nat.ofDigitChars_ten_toDigits]
  rw [Nat.toList_repr, parseUnsigned, if_neg Nat.toDigits_ne_nil, hread]
  · simp [hn]
  · intro d ds heq
    have hplus := hdigits '+' (heq ▸ List.mem_cons_self)
    exact absurd hplus (by decide)

/-- What follows a beginning. -/
def afterHead (head s : String) : Option String :=
  if head.toList.isPrefixOf s.toList then some (String.ofList (s.toList.drop head.toList.length)) else none

theorem afterHead_append (head s : String) : afterHead head (head ++ s) = some s := by
  have hpre : head.toList.isPrefixOf (head ++ s).toList = true := by
    rw [String.toList_append]
    exact List.isPrefixOf_iff_prefix.mpr (List.prefix_append _ _)
  rw [afterHead, if_pos hpre, String.toList_append, List.drop_left, String.ofList_toList]

/-- A text that begins otherwise has nothing after it. -/
theorem afterHead_of_ne {head s : String} {c d : Char} {cs ds : List Char} (hhead : head.toList = c :: cs)
    (hs : s.toList = d :: ds) (hne : c ≠ d) : afterHead head s = none := by
  rw [afterHead, if_neg]
  rw [hhead, hs, List.isPrefixOf_cons_cons]
  simp [hne]

example : parseUnsigned 65535 "+12".toList = some 12 ∧ parseUnsigned 65535 "65536".toList = none ∧
    parseUnsigned 65535 "+".toList = none := by decide

end Onde.Lib
