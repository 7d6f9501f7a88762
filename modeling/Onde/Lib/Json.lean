import Onde.Lib.Bytes

/-!
# JSON values and their compact text

`Json` is a parsed value with the accessors a program reads it by; `Json.render` is the compact serialisation: no
blanks, the two-character escapes where they exist, `\u00XX` for the other control characters, every other character
as it is.
-/

namespace Onde.Lib

/-- A number: an unsigned or a negative integer, or anything else, kept as its text. -/
inductive JsonNumber where
  | posInt (n : UInt64)
  | negInt (n : Int)
  | float (text : String)
  deriving DecidableEq

/-- The text of a number. -/
def JsonNumber.render : JsonNumber → List Char
  | .posInt n => n.toNat.repr.toList
  | .negInt n => (toString n).toList
  | .float text => text.toList

/-- A JSON value; an object lists its fields in their order. -/
inductive Json where
  | null
  | bool (b : Bool)
  | num (n : JsonNumber)
  | str (s : String)
  | arr (xs : List Json)
  | obj (fields : List (String × Json))

namespace Json

/-! ## Accessors -/

/-- The field of an object. -/
def get (v : Json) (key : String) : Option Json :=
  match v with
  | obj fields => (fields.find? fun f => f.1 = key).map Prod.snd
  | _ => none

/-- The text of a string. -/
def asStr : Json → Option String
  | str s => some s
  | _ => none

/-- An unsigned integer. -/
def asU64 : Json → Option UInt64
  | num (.posInt n) => some n
  | _ => none

/-- An integer between `-2^63` and `2^63 - 1`. -/
def asI64 : Json → Option Int
  | num (.posInt n) => if n.toNat < 2 ^ 63 then some n.toNat else none
  | num (.negInt n) => some n
  | _ => none

def asBool : Json → Option Bool
  | bool b => some b
  | _ => none

/-! ## Serialisation -/

/-- The characters of one character inside a string. -/
def escapeChar (c : Char) : List Char :=
  match c.toNat with
  | 0x22 => ['\\', '"']
  | 0x5c => ['\\', '\\']
  | 0x08 => ['\\', 'b']
  | 0x09 => ['\\', 't']
  | 0x0a => ['\\', 'n']
  | 0x0c => ['\\', 'f']
  | 0x0d => ['\\', 'r']
  | n => if n < 0x20 then ['\\', 'u', '0', '0', hexDigit (n / 16), hexDigit (n % 16)] else [c]

/-- A quoted string. -/
def quote (s : String) : List Char := '"' :: s.toList.flatMap escapeChar ++ ['"']

mutual

/-- The compact text of a value. -/
def chars : Json → List Char
  | null => ['n', 'u', 'l', 'l']
  | bool true => ['t', 'r', 'u', 'e']
  | bool false => ['f', 'a', 'l', 's', 'e']
  | num n => n.render
  | str s => quote s
  | arr xs => '[' :: charsList xs ++ [']']
  | obj fields => '{' :: charsFields fields ++ ['}']

/-- The elements of an array, with commas between them. -/
def charsList : List Json → List Char
  | [] => []
  | [v] => chars v
  | v :: w :: vs => chars v ++ ',' :: charsList (w :: vs)

/-- The fields of an object, with commas between them. -/
def charsFields : List (String × Json) → List Char
  | [] => []
  | [(k, v)] => quote k ++ ':' :: chars v
  | (k, v) :: f :: fs => quote k ++ ':' :: chars v ++ ',' :: charsFields (f :: fs)

end

/-- The serialised value. -/
def render (v : Json) : String := String.ofList v.chars

theorem length_escapeChar_pos (c : Char) : 1 ≤ (escapeChar c).length := by
  unfold escapeChar
  repeat' split
  all_goals simp

theorem length_quote_ge (s : String) : s.toList.length ≤ (quote s).length := by
  have h : ∀ cs : List Char, cs.length ≤ (cs.flatMap escapeChar).length := fun cs => by
    induction cs with
    | nil => exact Nat.le_refl _
    | cons c cs ih =>
      have := length_escapeChar_pos c
      rw [List.flatMap_cons, List.length_append, List.length_cons]
      omega
  have := h s.toList
  simp only [quote, List.cons_append, List.length_cons, List.length_append]
  omega

theorem length_charsList_ge {v : Json} : ∀ {xs : List Json}, v ∈ xs → v.chars.length ≤ (charsList xs).length
  | [w], h => by rw [List.mem_singleton.mp h, charsList]
  | w :: x :: xs, h => by
    rw [charsList, List.length_append, List.length_cons]
    rcases List.mem_cons.mp h with rfl | h
    · omega
    · have := length_charsList_ge h
      omega

/-- A text inside an array is not shortened. -/
theorem utf8ByteSize_render_arr {s : String} {xs : List Json} (h : str s ∈ xs) :
    s.toList.length ≤ (render (arr xs)).utf8ByteSize := by
  have harr : (charsList xs).length ≤ (chars (arr xs)).length := by
    simp only [chars, List.cons_append, List.length_cons, List.length_append]
    omega
  calc s.toList.length ≤ (chars (str s)).length := by rw [chars]; exact length_quote_ge s
    _ ≤ (charsList xs).length := length_charsList_ge h
    _ ≤ (chars (arr xs)).length := harr
    _ ≤ (render (arr xs)).utf8ByteSize := (utf8ByteSize_bounds _).1

example : (arr [str "a", num (.posInt 5), arr []]).render = "[\"a\",5,[]]" := by decide

end Json

end Onde.Lib
