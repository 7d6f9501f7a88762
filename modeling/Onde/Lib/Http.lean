import Onde.Lib.Crlf
import Onde.Lib.Joined
import Onde.Lib.JsonText
import Onde.Lib.Text
import Onde.Lib.Utf8

/-!
# Responses on the wire

A response is a status line, fields, an empty line and a body, whose length a field tells.

* `readHead`: the lines up to the empty one; `readHead_lines`: it reads back what is written;
* `readResponse`: what a client reads, whatever follows;
* `readResponse_encode`: the status and the body that were sent.
-/

namespace Onde.Lib

/-- The bytes of a text one after the other. -/
theorem utf8Bytes_append (s t : String) : utf8Bytes (s ++ t) = utf8Bytes s ++ utf8Bytes t := by
  simp [utf8Bytes]

namespace Http

/-- The end of a line. -/
def crlf : Bytes := [0x0d, 0x0a]

/-- A text that can be a line. -/
structure IsLine (s : String) : Prop where
  nonempty : s ≠ ""
  noCr : ∀ b ∈ utf8Bytes s, b ≠ 0x0d

/-- The same as a check of the bytes. -/
def isLine (s : String) : Bool := s ≠ "" && (utf8Bytes s).all (· ≠ 0x0d)

theorem isLine_iff {s : String} : isLine s = true ↔ IsLine s := by
  simp only [isLine, Bool.and_eq_true, List.all_eq_true, decide_eq_true_eq]
  exact ⟨fun h => ⟨h.1, h.2⟩, fun h => ⟨h.nonempty, h.noCr⟩⟩

/-- Lines, and an empty one. -/
def head (lines : List String) : Bytes := (lines.flatMap fun l => utf8Bytes l ++ crlf) ++ crlf

/-- A response. -/
def encode (status : String) (fields : List (String × String)) (body : Bytes) : Bytes :=
  head (("HTTP/1.1 " ++ status) :: fields.map fun f => f.1 ++ ": " ++ f.2) ++ body

/-- The lines up to an empty one, and what follows. -/
def readHead : Nat → Bytes → Option (List String × Bytes)
  | 0, _ => none
  | n + 1, bs =>
    match findCrlf bs with
    | none => none
    | some 0 => some ([], bs.drop 2)
    | some p => (readHead n (bs.drop (p + 2))).map fun r => (fromUtf8Lossy (bs.take p) :: r.1, r.2)

/-- The value of a field. -/
def fieldValue (name : String) (lines : List String) : Option String := lines.findSome? (afterHead (name ++ ": "))

/-- What a client reads: the status, and as many bytes as the length says. -/
def readResponse (max : Nat) (bs : Bytes) : Option (String × Bytes) := do
  let (lines, rest) ← readHead bs.length bs
  let status ← lines.head?.bind (afterHead "HTTP/1.1 ")
  let value ← fieldValue "Content-Length" lines.tail
  let n ← parseUnsigned max value.toList
  if rest.length < n then none else some (status, rest.take n)

/-- A decimal digit is one byte, and no CR. -/
theorem noCr_digit {c : Char} (hc : c.isDigit = true) : ∀ b ∈ String.utf8EncodeChar c, b ≠ 0x0d := by
  obtain ⟨hlow, hhigh⟩ : 48 ≤ c.val.toNat ∧ c.val.toNat ≤ 57 := by
    simpa [Char.isDigit, UInt32.le_iff_toNat_le] using hc
  have hone : c.utf8Size = 1 := by
    rw [Char.utf8Size, if_pos]
    exact UInt32.le_iff_toNat_le.mpr (hhigh.trans (by decide))
  intro b hb
  rw [String.utf8EncodeChar_eq_singleton hone, List.mem_singleton] at hb
  rintro rfl
  have hbyte := congrArg UInt8.toNat hb
  rw [UInt32.toNat_toUInt8] at hbyte
  have hcr : (0x0d : UInt8).toNat = 13 := rfl
  omega

theorem noCr_repr (n : Nat) : ∀ b ∈ utf8Bytes n.repr, b ≠ 0x0d := by
  intro b hb
  rw [← String.ofList_toList (s := n.repr), utf8Bytes_ofList] at hb
  obtain ⟨c, hc, hb⟩ := List.mem_flatMap.mp hb
  exact noCr_digit (Json.isDigit_repr n c hc) b hb

variable {lines : List String} {rest : Bytes} {n : Nat}

/-- **The lines are read back.** -/
theorem readHead_lines (hlines : ∀ l ∈ lines, IsLine l) (rest : Bytes) (hn : lines.length < n) :
    readHead n (head lines ++ rest) = some (lines, rest) := by
  induction lines generalizing n with
  | nil =>
    obtain ⟨n, rfl⟩ : ∃ m, n = m + 1 := ⟨n - 1, by omega⟩
    rfl
  | cons l lines ih =>
    obtain ⟨n, rfl⟩ : ∃ m, n = m + 1 := ⟨n - 1, by omega⟩
    have hl := hlines l List.mem_cons_self
    have htext : head (l :: lines) ++ rest = utf8Bytes l ++ 0x0d :: 0x0a :: (head lines ++ rest) := by
      simp [head, crlf]
    have hfind := findCrlf_text (head lines ++ rest) (utf8Bytes l) hl.noCr
    obtain ⟨p, hp⟩ : ∃ p, (utf8Bytes l).length = p + 1 := by
      refine ⟨(utf8Bytes l).length - 1, ?_⟩
      have hpos : (utf8Bytes l).length ≠ 0 := by
        rw [length_utf8Bytes]
        simpa using hl.nonempty
      omega
    have hdrop : (utf8Bytes l ++ 0x0d :: 0x0a :: (head lines ++ rest)).drop (p + 1 + 2) = head lines ++ rest := by
      rw [← hp, ← List.drop_drop, List.drop_left]
      rfl
    rw [hp] at hfind
    simp only [htext, readHead, hfind]
    rw [hdrop, ih (fun l' hl' => hlines l' (List.mem_cons_of_mem l hl')) (by simpa using hn), ← hp, List.take_left,
      fromUtf8Lossy_utf8Bytes]
    rfl

theorem length_head_ge (lines : List String) : lines.length < (head lines).length := by
  induction lines with
  | nil => exact Nat.zero_lt_two
  | cons l lines ih =>
    have hhead : head (l :: lines) = utf8Bytes l ++ crlf ++ head lines := by simp [head]
    rw [hhead, List.length_append, List.length_append, List.length_cons]
    have hcrlf : crlf.length = 2 := rfl
    omega

/-- A field is found under its name only. -/
theorem afterHead_field {name k : String} (v : String) (hname : ':' ∉ name.toList) (hk : ':' ∉ k.toList) :
    afterHead (name ++ ": ") (k ++ ": " ++ v) = if k = name then some v else none := by
  split
  · next h =>
    rw [h]
    exact afterHead_append _ _
  · next h =>
    rw [afterHead, if_neg]
    intro hpre
    obtain ⟨t, ht⟩ := List.isPrefixOf_iff_prefix.mp hpre
    have hsep : name.toList ++ ':' :: (' ' :: t) = k.toList ++ ':' :: (' ' :: v.toList) := by
      simpa [String.toList_append] using ht
    exact h (String.toList_inj.mp (sep_append_inj hname hk hsep).1).symm

theorem fieldValue_fields {name : String} (hname : ':' ∉ name.toList) {fields : List (String × String)}
    (hfields : ∀ f ∈ fields, ':' ∉ f.1.toList) :
    fieldValue name (fields.map fun f => f.1 ++ ": " ++ f.2) = fields.lookup name := by
  induction fields with
  | nil => rfl
  | cons f fields ih =>
    obtain ⟨k, v⟩ := f
    have hf := afterHead_field v hname (hfields (k, v) List.mem_cons_self)
    have hrest := ih fun g hg => hfields g (List.mem_cons_of_mem _ hg)
    rw [fieldValue] at hrest
    rw [fieldValue, List.map_cons, List.findSome?_cons, hf, hrest, List.lookup_cons]
    rcases eq_or_ne k name with rfl | hne
    · simp
    · simp [hne, beq_false_of_ne hne.symm]

/-- **A client reads the status and the body that were sent**, whatever follows them. -/
theorem readResponse_encode {status : String} {fields : List (String × String)} {body : Bytes} {max : Nat}
    (hlines : ∀ l ∈ ("HTTP/1.1 " ++ status) :: fields.map fun f => f.1 ++ ": " ++ f.2, IsLine l)
    (hfields : ∀ f ∈ fields, ':' ∉ f.1.toList) (hlen : fields.lookup "Content-Length" = some body.length.repr)
    (hmax : body.length ≤ max) (rest : Bytes) :
    readResponse max (encode status fields body ++ rest) = some (status, body) := by
  have hname : ':' ∉ "Content-Length".toList := by decide
  have hbytes : encode status fields body ++ rest =
      head (("HTTP/1.1 " ++ status) :: fields.map fun f => f.1 ++ ": " ++ f.2) ++ (body ++ rest) := by
    rw [encode, List.append_assoc]
  have hfuel := length_head_ge (("HTTP/1.1 " ++ status) :: fields.map fun f => f.1 ++ ": " ++ f.2)
  rw [readResponse, hbytes, readHead_lines hlines _ (by rw [List.length_append]; omega)]
  simp only [Option.bind_eq_bind, Option.bind_some, List.head?_cons, List.tail_cons, afterHead_append,
    fieldValue_fields hname hfields, hlen, parseUnsigned_repr hmax]
  rw [if_neg (by simp), List.take_left]

end Http

end Onde.Lib
