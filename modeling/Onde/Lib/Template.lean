import Onde.Lib.Joined
import Onde.Lib.JsonText

/-!
# Numbers filled into a text

A fixed text with places for numbers tells the numbers apart, if no piece of the text begins with a digit
(`fill_inj`).
-/

namespace Onde.Lib

open Json

/-- The pieces of the text, each with the number after it, and the end. -/
def fill : List (List Char × Nat) → List Char → List Char
  | [], last => last
  | (piece, n) :: rest, last => piece ++ (n.repr.toList ++ fill rest last)

/-- The pieces are not empty and begin with no digit. -/
def Pieces (ps : List (List Char × Nat)) : Prop := ∀ p ∈ ps, p.1 ≠ [] ∧ Closed p.1

theorem closed_append {s : List Char} (hne : s ≠ []) (hs : Closed s) (t : List Char) : Closed (s ++ t) := by
  obtain ⟨c, cs, rfl⟩ := List.exists_cons_of_ne_nil hne
  exact closed_cons (hs c rfl) _

theorem closed_fill {ps : List (List Char × Nat)} {last : List Char} (hps : Pieces ps) (hlast : Closed last) :
    Closed (fill ps last) := by
  cases ps with
  | nil => exact hlast
  | cons p ps =>
    obtain ⟨hne, hp⟩ := hps p List.mem_cons_self
    exact closed_append hne hp _

/-- **The text tells the numbers.** -/
theorem fill_inj : ∀ {ps qs : List (List Char × Nat)} {last : List Char}, Pieces ps → Pieces qs → Closed last →
    ps.map Prod.fst = qs.map Prod.fst → fill ps last = fill qs last → ps = qs
  | [], [], _, _, _, _, _, _ => rfl
  | (piece, n) :: ps, (piece', m) :: qs, last, hps, hqs, hlast, hpieces, h => by
    obtain ⟨rfl, hrest⟩ := List.cons.inj hpieces
    have hps' : Pieces ps := fun p hp => hps p (List.mem_cons_of_mem _ hp)
    have hqs' : Pieces qs := fun q hq => hqs q (List.mem_cons_of_mem _ hq)
    obtain ⟨hn, htail⟩ := digits_inj (isDigit_repr n) (isDigit_repr m) (closed_fill hps' hlast)
      (closed_fill hqs' hlast) (List.append_cancel_left h)
    rw [repr_injective (String.toList_inj.mp hn), fill_inj hps' hqs' hlast hrest htail]

end Onde.Lib
