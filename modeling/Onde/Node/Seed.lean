import Onde.Crypto.Primitives
import Onde.Lib.Table

/-!
# The identity over restarts

A start takes the identity from its configuration, else from the file, else it makes a new one and writes it to the
file.

* `identityAtStart`: the identity of a start, and the file after it;
* `seedOf_fileAfter`: the seed in the file after some starts is the one of the last start that overwrote it;
* `identity_kept_iff`: the identity that a start left in the file is the one of a later start that reads the file,
  exactly if no start between them wrote without having read.
-/

namespace Onde

open Lib Crypto

/-- The pairs of the file. -/
abbrev MetaTable := Table String String

def identitySeedMetaKey : String := "identity_seed"

/-- What a start finds: the seed of its configuration, whether the file opens, can be read and written, and the key it
would generate. -/
structure Start where
  identitySeed : Option (ByteArr 32)
  opens : Bool
  reads : Bool
  writes : Bool
  generated : ByteArr 32

namespace Start

variable {st : Start} {file : MetaTable}

/-- The seed of the file, if it is one. -/
def seedOf (file : MetaTable) : Option (ByteArr 32) := (file.lookup identitySeedMetaKey).bind decodeHex32

/-- What the start can read of it. -/
def loadPersistedIdentitySeed (st : Start) (file : MetaTable) : Option (ByteArr 32) :=
  if st.opens && st.reads then seedOf file else none

/-- The identity of a start, and the file after it. -/
def identityAtStart (st : Start) (file : MetaTable) : Identity × MetaTable :=
  match st.identitySeed with
  | some seed => (⟨seed⟩, file)
  | none =>
    match st.loadPersistedIdentitySeed file with
    | some seed => (⟨seed⟩, file)
    | none =>
      (⟨st.generated⟩,
        if st.opens && st.writes then file.put identitySeedMetaKey (hexEncode st.generated.1) else file)

/-- The file after some starts. -/
def fileAfter (file : MetaTable) (starts : List Start) : MetaTable :=
  starts.foldl (fun file st => (st.identityAtStart file).2) file

/-- A start that writes a new seed whatever the file has: it opens the file, but cannot read it. -/
def Overwrites (st : Start) : Prop :=
  st.identitySeed = none ∧ st.opens = true ∧ st.reads = false ∧ st.writes = true

/-- A start takes its identity from a file that has one. -/
def Restores (st : Start) : Prop := st.identitySeed = none ∧ st.opens = true ∧ st.reads = true

/-- What is written is read back. -/
theorem seedOf_put (file : MetaTable) (seed : ByteArr 32) :
    seedOf (file.put identitySeedMetaKey (hexEncode seed.1)) = some seed := by
  rw [seedOf, Table.lookup_put, if_pos rfl, Option.bind_some]
  exact decodeHex_hexEncode seed

theorem restores_of_seed {seed : ByteArr 32} (hr : st.Restores) (hseed : seedOf file = some seed) :
    st.identityAtStart file = (⟨seed⟩, file) := by
  obtain ⟨hconfig, hopens, hreads⟩ := hr
  simp [identityAtStart, hconfig, loadPersistedIdentitySeed, hopens, hreads, hseed]

/-- A start that overwrites leaves its own seed, -/
theorem seedOf_overwrites (ho : st.Overwrites) (file : MetaTable) :
    seedOf (st.identityAtStart file).2 = some st.generated := by
  obtain ⟨hconfig, hopens, hreads, hwrites⟩ := ho
  simp only [identityAtStart, hconfig, loadPersistedIdentitySeed, hopens, hreads, hwrites, Bool.and_false,
    Bool.and_true, Bool.false_eq_true, if_false, if_true]
  exact seedOf_put file st.generated

/-- and any other leaves the seed that is there. -/
theorem file_of_not_overwrites {seed : ByteArr 32} (ho : ¬st.Overwrites) (hseed : seedOf file = some seed) :
    (st.identityAtStart file).2 = file := by
  unfold identityAtStart
  cases hconfig : st.identitySeed with
  | some own => rfl
  | none =>
    dsimp only
    cases hload : st.loadPersistedIdentitySeed file with
    | some own => rfl
    | none =>
      refine if_neg fun hw => ho ?_
      have hboth : st.opens = true ∧ st.writes = true := by simpa using hw
      have hreads : st.reads = false := by
        cases hr : st.reads with
        | false => rfl
        | true => simp [loadPersistedIdentitySeed, hboth.1, hr, hseed] at hload
      exact ⟨hconfig, hboth.1, hreads, hboth.2⟩

/-- The seed after some starts on a file that has one: that of the last start that overwrote it. -/
theorem seedOf_fileAfter {seed : ByteArr 32} (hseed : seedOf file = some seed) (starts : List Start) :
    (∀ m ∈ starts, ¬m.Overwrites) ∧ seedOf (fileAfter file starts) = some seed ∨
      ∃ m ∈ starts, m.Overwrites ∧ seedOf (fileAfter file starts) = some m.generated := by
  induction starts generalizing file seed with
  | nil => exact .inl ⟨fun _ h => (nomatch h), hseed⟩
  | cons st starts ih =>
    by_cases ho : st.Overwrites
    · right
      rcases ih (seedOf_overwrites ho file) with ⟨-, hlast⟩ | ⟨m, hm, hover, hlast⟩
      · exact ⟨st, List.mem_cons_self, ho, hlast⟩
      · exact ⟨m, List.mem_cons_of_mem st hm, hover, hlast⟩
    · have hsame : fileAfter file (st :: starts) = fileAfter file starts := by
        rw [fileAfter, List.foldl_cons, file_of_not_overwrites ho hseed]
        rfl
      rw [hsame]
      rcases ih hseed with ⟨hnone, hlast⟩ | ⟨m, hm, hover, hlast⟩
      · exact .inl ⟨List.forall_mem_cons.mpr ⟨ho, hnone⟩, hlast⟩
      · exact .inr ⟨m, List.mem_cons_of_mem st hm, hover, hlast⟩

/-- The start leaves its identity in the file: it finds it there, or writes it. -/
def Persists (st : Start) (file : MetaTable) : Prop :=
  st.Restores ∧ (seedOf file).isSome ∨ st.identitySeed = none ∧ st.opens = true ∧ st.writes = true

theorem Persists.seedOf (h : st.Persists file) :
    seedOf (st.identityAtStart file).2 = some (st.identityAtStart file).1.seed := by
  have hconfig : st.identitySeed = none := h.elim (fun hr => hr.1.1) fun hw => hw.1
  cases hload : st.loadPersistedIdentitySeed file with
  | some seed =>
    have hread : Start.seedOf file = some seed := by
      unfold loadPersistedIdentitySeed at hload
      split at hload
      · exact hload
      · cases hload
    simpa [identityAtStart, hconfig, hload] using hread
  | none =>
    have hwrites : st.opens = true ∧ st.writes = true := by
      refine (h.resolve_left fun ⟨⟨_, hopens, hreads⟩, hsome⟩ => ?_).2
      have hnone : Start.seedOf file = none := by simpa [loadPersistedIdentitySeed, hopens, hreads] using hload
      rw [hnone] at hsome
      cases hsome
    simp only [identityAtStart, hconfig, hload, hwrites.1, hwrites.2, Bool.and_true, if_true]
    exact seedOf_put file st.generated

/-- **The identity survives restarts exactly if no start writes without having read**: a start leaves its identity in
the file, others follow, each with a key of its own at hand, and then one that reads the file. -/
theorem identity_kept_iff (file : MetaTable) {first last : Start} {starts : List Start} (hfirst : first.Persists file)
    (hlast : last.Restores) (hfresh : ∀ m ∈ starts, m.generated ≠ (first.identityAtStart file).1.seed) :
    (last.identityAtStart (fileAfter file (first :: starts))).1 = (first.identityAtStart file).1 ↔
      ∀ m ∈ starts, ¬m.Overwrites := by
  have hafter : fileAfter file (first :: starts) = fileAfter (first.identityAtStart file).2 starts := rfl
  rw [hafter]
  rcases seedOf_fileAfter hfirst.seedOf starts with ⟨hnone, hend⟩ | ⟨m, hm, hover, hend⟩
  · rw [restores_of_seed hlast hend]
    exact iff_of_true rfl hnone
  · rw [restores_of_seed hlast hend]
    refine iff_of_false (fun heq => hfresh m hm ?_) fun hall => hall m hm hover
    exact congrArg Identity.seed heq

/-- A first start, one that can neither read nor write, and one that reads. -/
def threeStarts : Start × Start × Start :=
  (⟨none, true, true, true, (Identity.ofByte 1).seed⟩, ⟨none, true, false, false, (Identity.ofByte 2).seed⟩,
    ⟨none, true, true, true, (Identity.ofByte 3).seed⟩)

/-- The first start makes an identity, and the last one still has it. -/
theorem identity_kept_three :
    (threeStarts.2.2.identityAtStart (fileAfter ∅ [threeStarts.1, threeStarts.2.1])).1 = Identity.ofByte 1 := by
  have hfirst : (threeStarts.1.identityAtStart ∅).1 = Identity.ofByte 1 := rfl
  have hfresh : ∀ m ∈ [threeStarts.2.1], m.generated ≠ (threeStarts.1.identityAtStart ∅).1.seed := by
    intro m hm
    rw [List.mem_singleton.mp hm, hfirst]
    simp [threeStarts, Identity.ofByte]
  refine ((identity_kept_iff ∅ (.inr ⟨rfl, rfl, rfl⟩) ⟨rfl, rfl, rfl⟩ hfresh).mpr ?_).trans hfirst
  intro m hm hover
  obtain rfl := List.mem_singleton.mp hm
  simp [threeStarts, Overwrites] at hover

end Start

end Onde
