import Onde.Lib.Json
import Onde.Lib.Joined

/-!
# What a JSON text stands for

A value of texts, natural numbers and arrays of them (`Json.Plain`) is told by its serialisation, and where the
serialisation ends is told too unless a digit follows (`chars_inj`).

* `readChar`: one character of a quoted text is read back (`readChar_escapeChar`), so a quoted text is told
  (`quote_inj`);
* `digits_inj`: a number is told by its digits;
* `charsList_inj`: an array by its elements.
-/

namespace Onde.Lib.Json

/-! ## Quoted texts -/

/-- The character that stands behind a backslash. -/
def readEscape : List Char → Option (Char × List Char)
  | '"' :: cs => some ('"', cs)
  | '\\' :: cs => some ('\\', cs)
  | 'b' :: cs => some (Char.ofNat 0x08, cs)
  | 't' :: cs => some (Char.ofNat 0x09, cs)
  | 'n' :: cs => some (Char.ofNat 0x0a, cs)
  | 'f' :: cs => some (Char.ofNat 0x0c, cs)
  | 'r' :: cs => some (Char.ofNat 0x0d, cs)
  | 'u' :: '0' :: '0' :: hi :: lo :: cs => do
    let hi ← hexVal hi
    let lo ← hexVal lo
    some (Char.ofNat (16 * hi + lo), cs)
  | _ => none

/-- The first character of a quoted text; none where the quote ends. -/
def readChar : List Char → Option (Char × List Char)
  | [] => none
  | c :: cs => if c = '\\' then readEscape cs else if c = '"' then none else some (c, cs)

theorem readChar_quote (cs : List Char) : readChar ('"' :: cs) = none := rfl

/-- **A character is read back.** -/
theorem readChar_escapeChar (c : Char) (cs : List Char) : readChar (escapeChar c ++ cs) = some (c, cs) := by
  have hof : ∀ {n : Nat}, c.toNat = n → Char.ofNat n = c := fun h => by rw [← h, Char.ofNat_toNat]
  unfold escapeChar
  split
  · next h => rw [← hof h]; rfl
  · next h => rw [← hof h]; rfl
  · next h => rw [← hof h]; rfl
  · next h => rw [← hof h]; rfl
  · next h => rw [← hof h]; rfl
  · next h => rw [← hof h]; rfl
  · next h => rw [← hof h]; rfl
  · next hquote hslash _ _ _ _ _ =>
    split
    · next hlow =>
      have hnum : 16 * (c.toNat / 16) + c.toNat % 16 = c.toNat := Nat.div_add_mod _ _
      show (do
        let hi ← hexVal (hexDigit (c.toNat / 16))
        let lo ← hexVal (hexDigit (c.toNat % 16))
        some (Char.ofNat (16 * hi + lo), cs)) = some (c, cs)
      rw [hexVal_hexDigit _ (by omega), hexVal_hexDigit _ (by omega)]
      show some (Char.ofNat (16 * (c.toNat / 16) + c.toNat % 16), cs) = some (c, cs)
      rw [hnum, Char.ofNat_toNat]
    · rw [List.singleton_append, readChar, if_neg, if_neg]
      · rintro rfl
        exact hquote rfl
      · rintro rfl
        exact hslash rfl

theorem escaped_inj : ∀ {cs ds s t : List Char},
    cs.flatMap escapeChar ++ '"' :: s = ds.flatMap escapeChar ++ '"' :: t → cs = ds ∧ s = t
  | [], [], _, _, h => ⟨rfl, (List.cons.inj h).2⟩
  | [], d :: ds, s, t, h => by
    have hread := congrArg readChar h
    rw [List.flatMap_cons, List.append_assoc, readChar_escapeChar] at hread
    cases hread
  | c :: cs, [], s, t, h => by
    have hread := congrArg readChar h
    rw [List.flatMap_cons, List.append_assoc, readChar_escapeChar] at hread
    cases hread
  | c :: cs, d :: ds, s, t, h => by
    have hread := congrArg readChar h
    rw [List.flatMap_cons, List.flatMap_cons, List.append_assoc, List.append_assoc, readChar_escapeChar,
      readChar_escapeChar] at hread
    obtain ⟨rfl, hrest⟩ := Prod.mk.inj (Option.some.inj hread)
    obtain ⟨rfl, hst⟩ := escaped_inj hrest
    exact ⟨rfl, hst⟩

/-- **A quoted text is told, and where it ends.** -/
theorem quote_inj {a b : String} {s t : List Char} (h : quote a ++ s = quote b ++ t) : a = b ∧ s = t := by
  simp only [quote, List.cons_append, List.append_assoc, List.cons.injEq, true_and] at h
  obtain ⟨hab, hst⟩ := escaped_inj h
  exact ⟨String.toList_inj.mp hab, hst⟩

/-! ## Numbers -/

/-- No digit follows. -/
def Closed (s : List Char) : Prop := ∀ c ∈ s.head?, c.isDigit = false

theorem closed_nil : Closed [] := fun _ hc => by cases hc

theorem closed_cons {c : Char} (h : c.isDigit = false) (s : List Char) : Closed (c :: s) := by
  intro d hd
  cases hd
  exact h

theorem digits_inj : ∀ {ds es s t : List Char}, (∀ d ∈ ds, d.isDigit = true) → (∀ e ∈ es, e.isDigit = true) →
    Closed s → Closed t → ds ++ s = es ++ t → ds = es ∧ s = t
  | [], [], _, _, _, _, _, _, h => ⟨rfl, h⟩
  | [], e :: es, _, _, _, he, hs, _, h => by
    rw [List.nil_append] at h
    subst h
    have hdigit := he e List.mem_cons_self
    rw [hs e rfl] at hdigit
    cases hdigit
  | d :: ds, [], _, _, hd, _, _, ht, h => by
    rw [List.nil_append] at h
    subst h
    have hdigit := hd d List.mem_cons_self
    rw [ht d rfl] at hdigit
    cases hdigit
  | d :: ds, e :: es, _, _, hd, he, hs, ht, h => by
    obtain ⟨rfl, hrest⟩ := List.cons.inj h
    obtain ⟨rfl, hst⟩ := digits_inj (fun x hx => hd x (List.mem_cons_of_mem _ hx))
      (fun x hx => he x (List.mem_cons_of_mem _ hx)) hs ht hrest
    exact ⟨rfl, hst⟩

theorem isDigit_repr (n : Nat) : ∀ d ∈ n.repr.toList, d.isDigit = true := by
  rw [Nat.toList_repr]
  exact fun d hd => Nat.isDigit_of_mem_toDigits (by decide) (by decide) hd

/-! ## Values -/

/-- A value of texts, natural numbers and arrays of them. -/
inductive Plain : Json → Prop
  | num (n : UInt64) : Plain (.num (.posInt n))
  | str (s : String) : Plain (.str s)
  | arr {xs : List Json} (h : ∀ x ∈ xs, Plain x) : Plain (.arr xs)

/-- A number begins with a digit. -/
theorem head_num (n : UInt64) (s : List Char) :
    ∃ d, d.isDigit = true ∧ ((Json.num (.posInt n)).chars ++ s).head? = some d := by
  obtain ⟨d, ds, hds⟩ := List.exists_cons_of_ne_nil (l := n.toNat.repr.toList) (by
    rw [Nat.toList_repr]
    exact Nat.toDigits_ne_nil)
  refine ⟨d, isDigit_repr n.toNat d (hds ▸ List.mem_cons_self), ?_⟩
  rw [chars, JsonNumber.render, hds]
  rfl

theorem head_str (a : String) (s : List Char) : ((Json.str a).chars ++ s).head? = some '"' := by
  rw [chars, quote]
  rfl

theorem head_arr (xs : List Json) (s : List Char) : ((Json.arr xs).chars ++ s).head? = some '[' := by
  rw [chars]
  rfl

/-- No value begins where an array ends. -/
theorem head_plain {v : Json} (hv : Plain v) (s : List Char) : (v.chars ++ s).head? ≠ some ']' := by
  cases hv with
  | num n =>
    obtain ⟨d, hdigit, hhead⟩ := head_num n s
    rw [hhead]
    intro heq
    cases heq
    cases hdigit
  | str a =>
    rw [head_str]
    decide
  | arr h =>
    rw [head_arr]
    decide

/-- The value is told by its serialisation, and where that ends. -/
def Told (v : Json) : Prop :=
  ∀ {w : Json}, Plain w → ∀ {s t : List Char}, Closed s → Closed t → v.chars ++ s = w.chars ++ t → v = w ∧ s = t

theorem told_num (n : UInt64) : Told (.num (.posInt n)) := by
  intro w hw s t hs ht h
  obtain ⟨d, hdigit, hhead⟩ := head_num n s
  rw [h] at hhead
  cases hw with
  | num m =>
    rw [chars, chars, JsonNumber.render, JsonNumber.render] at h
    obtain ⟨hrepr, hst⟩ := digits_inj (isDigit_repr _) (isDigit_repr _) hs ht h
    rw [UInt64.toNat_inj.mp (repr_injective (String.toList_inj.mp hrepr))]
    exact ⟨rfl, hst⟩
  | str a =>
    rw [head_str] at hhead
    cases hhead
    cases hdigit
  | arr _ =>
    rw [head_arr] at hhead
    cases hhead
    cases hdigit

theorem told_str (a : String) : Told (.str a) := by
  intro w hw s t _ _ h
  have hhead := head_str a s
  rw [h] at hhead
  cases hw with
  | num m =>
    obtain ⟨d, hdigit, hd⟩ := head_num m t
    rw [hd] at hhead
    cases hhead
    cases hdigit
  | str b =>
    rw [chars, chars] at h
    obtain ⟨rfl, hst⟩ := quote_inj h
    exact ⟨rfl, hst⟩
  | arr _ =>
    rw [head_arr] at hhead
    cases hhead

theorem charsList_cons (v : Json) (vs : List Json) (s : List Char) : charsList (v :: vs) ++ ']' :: s =
    v.chars ++ (match vs with | [] => ']' :: s | w :: ws => ',' :: (charsList (w :: ws) ++ ']' :: s)) := by
  cases vs with
  | nil => rw [charsList]
  | cons w ws => rw [charsList, List.append_assoc, List.cons_append]

/-- **The elements of an array are told, and where it ends.** -/
theorem charsList_inj : ∀ {vs ws : List Json} {s t : List Char}, (∀ v ∈ vs, Told v) → (∀ v ∈ vs, Plain v) →
    (∀ w ∈ ws, Plain w) → charsList vs ++ ']' :: s = charsList ws ++ ']' :: t → vs = ws ∧ s = t
  | [], [], _, _, _, _, _, h => ⟨rfl, (List.cons.inj h).2⟩
  | [], w :: ws, s, t, _, _, hw, h => by
    have hhead := congrArg List.head? h
    rw [charsList_cons] at hhead
    exact absurd hhead.symm (head_plain (hw w List.mem_cons_self) _)
  | v :: vs, [], s, t, _, hv, _, h => by
    have hhead := congrArg List.head? h
    rw [charsList_cons] at hhead
    exact absurd hhead (head_plain (hv v List.mem_cons_self) _)
  | v :: vs, w :: ws, s, t, htold, hv, hw, h => by
    have hclosed : ∀ (us : List Json) (r : List Char),
        Closed (match us with | [] => ']' :: r | u :: us => ',' :: (charsList (u :: us) ++ ']' :: r)) := by
      intro us r
      cases us with
      | nil => exact closed_cons rfl _
      | cons u us => exact closed_cons rfl _
    rw [charsList_cons, charsList_cons] at h
    obtain ⟨rfl, hrest⟩ := htold v List.mem_cons_self (hw w List.mem_cons_self) (hclosed vs s) (hclosed ws t) h
    cases vs with
    | nil =>
      cases ws with
      | nil => exact ⟨rfl, (List.cons.inj hrest).2⟩
      | cons => cases (List.cons.inj hrest).1
    | cons v₂ vs =>
      cases ws with
      | nil => cases (List.cons.inj hrest).1
      | cons w₂ ws =>
        obtain ⟨htail, hst⟩ := charsList_inj (fun x hx => htold x (List.mem_cons_of_mem _ hx))
          (fun x hx => hv x (List.mem_cons_of_mem _ hx)) (fun x hx => hw x (List.mem_cons_of_mem _ hx))
          (List.cons.inj hrest).2
        exact ⟨congrArg _ htail, hst⟩

/-- **A plain value is told by its serialisation, and where that ends.** -/
theorem chars_inj {v : Json} (hv : Plain v) : Told v := by
  induction hv with
  | num n => exact told_num n
  | str a => exact told_str a
  | @arr vs hvs ih =>
    intro w hw s t hs ht h
    have hhead := head_arr vs s
    rw [h] at hhead
    cases hw with
    | num m =>
      obtain ⟨d, hdigit, hd⟩ := head_num m t
      rw [hd] at hhead
      cases hhead
      cases hdigit
    | str b =>
      rw [head_str] at hhead
      cases hhead
    | arr hws =>
      rw [chars, chars] at h
      simp only [List.cons_append, List.append_assoc, List.cons.injEq, true_and] at h
      obtain ⟨rfl, hst⟩ := charsList_inj ih hvs hws h
      exact ⟨rfl, hst⟩

/-- **Plain values with the same text are the same.** -/
theorem render_inj {v w : Json} (hv : Plain v) (hw : Plain w) (h : v.render = w.render) : v = w := by
  have hchars : v.chars ++ [] = w.chars ++ [] := by
    rw [List.append_nil, List.append_nil]
    exact String.ofList_inj.mp h
  exact (chars_inj hv hw closed_nil closed_nil hchars).1

end Onde.Lib.Json
