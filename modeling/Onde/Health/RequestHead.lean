import Onde.Lib.Crlf
import Onde.Lib.Utf8

/-!
# The request line of the health server

The server reads at most 512 bytes at a time, and after each read looks for the end of the line before it looks at the
size of what it has read.

* `scanHead_line`, `scanHead_more`: what one read finds, in the bytes without the leading empty lines;
* `Delivers`: the reads that bring a stream in time;
* `readFrom_line`, `readFrom_large`, `readFrom_endless`: a line that ends within the limit is read, one that ends more
  than a read beyond the limit is not, and a line without an end is told by its length, however the stream is read;
* `readFrom_reaching`: one that ends in between is read by a read that starts at the limit;
* `splitFree_iff`: so the reads do not matter exactly when no line ends in between.
-/

namespace Onde.Health

open Onde.Lib

/-- What the request head is. -/
inductive RequestHead where
  | line (line : String)
  | tooLarge
  | dead
deriving DecidableEq, Repr

/-- The largest request, in bytes. -/
def maxRequestBytes : Nat := 8 * 1024

/-- The length of the array that is read into. -/
def chunkLen : Nat := 512

/-- One turn of the read loop: the clock, and what the read returns (`none` for an error, no bytes at the end of the
stream). -/
structure Attempt where
  now : Nat
  result : Option Bytes

/-- What is found in the bytes read so far: a line, or nothing but the bytes to keep. -/
inductive Scan where
  | line (bytes : Bytes)
  | more (buf : Bytes)

theorem length_drop_crlf {buf : Bytes} (h : findCrlf buf = some 0) : (buf.drop 2).length < buf.length := by
  have hlen := (findCrlf_append h []).1
  rw [List.length_drop]
  omega

/-- The inner loop: empty lines at the beginning are ignored. -/
def scanHead (buf : Bytes) : Scan :=
  match h : findCrlf buf with
  | some 0 => scanHead (buf.drop 2)
  | some (pos + 1) => .line (buf.take (pos + 1))
  | none => .more buf
termination_by buf.length
decreasing_by exact length_drop_crlf h

/-- The read loop, with the bytes read so far; after the last attempt the time is up. -/
def readFrom (deadline : Nat) (buf : Bytes) : List Attempt → RequestHead
  | [] => .dead
  | a :: as =>
    if deadline ≤ a.now then .dead
    else
      match a.result with
      | none => .dead
      | some [] => .dead
      | some (b :: chunk) =>
        match scanHead (buf ++ b :: chunk) with
        | .line bytes => .line (fromUtf8Lossy bytes)
        | .more buf => if maxRequestBytes < buf.length then .tooLarge else readFrom deadline buf as

/-- Read the request head. -/
def readRequestHead (deadline : Nat) (as : List Attempt) : RequestHead := readFrom deadline [] as

/-- The client sends nothing more in time. -/
def Ends (deadline : Nat) (as : List Attempt) : Prop :=
  ∀ a ∈ as.head?, deadline ≤ a.now ∨ a.result = none ∨ a.result = some []

/-- The reads bring the stream in time, at most `m` bytes each. -/
inductive Delivers (m deadline : Nat) : Bytes → List Attempt → Prop
  | ends {as : List Attempt} (h : Ends deadline as) : Delivers m deadline [] as
  | read {now : Nat} {chunk stream : Bytes} {as : List Attempt} (hnow : now < deadline) (hpos : chunk ≠ [])
      (hlen : chunk.length ≤ m) (hrest : Delivers m deadline stream as) :
      Delivers m deadline (chunk ++ stream) (⟨now, some chunk⟩ :: as)

/-- The outcome does not depend on the reads that bring the stream. -/
def SplitFree (stream : Bytes) : Prop :=
  ∀ {deadline : Nat} {as bs : List Attempt}, Delivers chunkLen deadline stream as →
    Delivers chunkLen deadline stream bs → readRequestHead deadline as = readRequestHead deadline bs

/-- The first line that is not empty ends within the limit, or more than a read beyond it. -/
def EndsApart (stream : Bytes) : Prop :=
  ∀ p, findCrlf (dropBlank stream) = some p → p < maxRequestBytes ∨ maxRequestBytes + chunkLen < p + 2

variable {m deadline now p : Nat} {buf chunk stream : Bytes} {as : List Attempt}

/-! ## One read -/

/-- **The inner loop looks for the first end of line after the leading empty lines.** -/
theorem scanHead_line (h : findCrlf (dropBlank buf) = some p) : scanHead buf = .line ((dropBlank buf).take p) := by
  fun_induction scanHead buf with
  | case1 buf hzero ih =>
    rw [← dropBlank_drop hzero] at h ⊢
    exact ih h
  | case2 buf pos hpos =>
    have hdrop : dropBlank buf = buf := dropBlank_of_ne (by rw [hpos]; exact nofun)
    rw [hdrop] at h ⊢
    obtain rfl := Option.some.inj (hpos.symm.trans h)
    rfl
  | case3 buf hnone =>
    rw [dropBlank_of_none hnone, hnone] at h
    cases h

theorem scanHead_more (h : findCrlf (dropBlank buf) = none) : scanHead buf = .more (dropBlank buf) := by
  fun_induction scanHead buf with
  | case1 buf hzero ih =>
    rw [← dropBlank_drop hzero] at h ⊢
    exact ih h
  | case2 buf pos hpos =>
    rw [dropBlank_of_ne (by rw [hpos]; exact nofun), hpos] at h
    cases h
  | case3 buf hnone => rw [dropBlank_of_none hnone]

/-- A read in time that brings an end of line. -/
theorem readFrom_found (hnow : now < deadline) (hpos : chunk ≠ [])
    (h : findCrlf (dropBlank (buf ++ chunk)) = some p) : readFrom deadline buf (⟨now, some chunk⟩ :: as) =
      .line (fromUtf8Lossy ((dropBlank (buf ++ chunk)).take p)) := by
  cases chunk with
  | nil => exact absurd rfl hpos
  | cons b chunk =>
    rw [readFrom, if_neg (Nat.not_le.mpr hnow)]
    simp only [scanHead_line h]

/-- A read in time that brings none. -/
theorem readFrom_more (hnow : now < deadline) (hpos : chunk ≠ [])
    (h : findCrlf (dropBlank (buf ++ chunk)) = none) : readFrom deadline buf (⟨now, some chunk⟩ :: as) =
      if maxRequestBytes < (dropBlank (buf ++ chunk)).length then .tooLarge
      else readFrom deadline (dropBlank (buf ++ chunk)) as := by
  cases chunk with
  | nil => exact absurd rfl hpos
  | cons b chunk =>
    rw [readFrom, if_neg (Nat.not_le.mpr hnow)]
    simp only [scanHead_more h]

theorem readFrom_ends (h : Ends deadline as) : readFrom deadline buf as = .dead := by
  cases as with
  | nil => rfl
  | cons a as =>
    rw [readFrom]
    rcases h a rfl with hlate | herr | hclosed
    · rw [if_pos hlate]
    · rw [herr, ite_self]
    · rw [hclosed, ite_self]

/-! ## A whole stream -/

theorem length_dropBlank_le (bs : Bytes) : (dropBlank bs).length ≤ bs.length := by
  obtain ⟨lead, hbs, -⟩ := dropBlank_split bs
  have hlen := congrArg List.length hbs
  rw [List.length_append] at hlen
  omega

/-- What is left of the whole stream, in terms of what is left of its part. -/
theorem dropBlank_rest (buf chunk stream : Bytes) :
    dropBlank (buf ++ (chunk ++ stream)) = dropBlank (dropBlank (buf ++ chunk) ++ stream) := by
  rw [dropBlank_append, List.append_assoc]

/-- A line that has been read is the first line of the stream. -/
theorem line_of_part (h : findCrlf (dropBlank (buf ++ chunk)) = some p) (stream : Bytes) :
    p + 2 ≤ (dropBlank (buf ++ chunk)).length ∧ findCrlf (dropBlank (buf ++ (chunk ++ stream))) = some p ∧
    (dropBlank (buf ++ (chunk ++ stream))).take p = (dropBlank (buf ++ chunk)).take p := by
  obtain ⟨hlen, happ⟩ := findCrlf_append h stream
  have hne : p ≠ 0 := fun hzero => findCrlf_dropBlank _ (hzero ▸ h)
  have hrest : dropBlank (buf ++ (chunk ++ stream)) = dropBlank (buf ++ chunk) ++ stream := by
    rw [dropBlank_rest]
    exact dropBlank_of_ne fun hzero => hne (Option.some.inj (happ.symm.trans hzero))
  refine ⟨hlen, hrest ▸ happ, ?_⟩
  rw [hrest, List.take_append_of_le_length (by omega)]

/-- A part that is too large without an end of line stays as it is. -/
theorem large_part (hnone : findCrlf (dropBlank (buf ++ chunk)) = none)
    (hlarge : maxRequestBytes < (dropBlank (buf ++ chunk)).length) (stream : Bytes) :
    dropBlank (buf ++ (chunk ++ stream)) = dropBlank (buf ++ chunk) ++ stream := by
  have htwo : 2 ≤ maxRequestBytes := by decide
  rw [dropBlank_rest]
  exact dropBlank_settled hnone (by omega) stream

/-- **A line that ends within the limit is read.** -/
theorem readFrom_line (h : Delivers m deadline stream as) : ∀ {buf : Bytes} {p : Nat}, findCrlf buf = none →
    findCrlf (dropBlank (buf ++ stream)) = some p → p < maxRequestBytes →
    readFrom deadline buf as = .line (fromUtf8Lossy ((dropBlank (buf ++ stream)).take p)) := by
  induction h with
  | ends hend =>
    intro buf p hbuf hp _
    rw [List.append_nil, dropBlank_of_none hbuf, hbuf] at hp
    cases hp
  | @read now chunk stream as hnow hpos _ _ ih =>
    intro buf p hbuf hp hshort
    cases hpart : findCrlf (dropBlank (buf ++ chunk)) with
    | some q =>
      obtain ⟨-, hq, htake⟩ := line_of_part hpart stream
      obtain rfl := Option.some.inj (hp.symm.trans hq)
      rw [readFrom_found hnow hpos hpart, htake]
    | none =>
      rw [readFrom_more hnow hpos hpart, if_neg]
      · rw [dropBlank_rest] at hp ⊢
        exact ih hpart hp hshort
      · intro hlarge
        rw [large_part hpart hlarge] at hp
        have hlate := findCrlf_late hpart hp
        omega

/-- **A line that ends more than a read beyond the limit is too large.** -/
theorem readFrom_large (h : Delivers m deadline stream as) : ∀ {buf : Bytes} {p : Nat}, findCrlf buf = none →
    buf.length ≤ maxRequestBytes → findCrlf (dropBlank (buf ++ stream)) = some p → maxRequestBytes + m < p + 2 →
    readFrom deadline buf as = .tooLarge := by
  induction h with
  | ends hend =>
    intro buf p hbuf _ hp _
    rw [List.append_nil, dropBlank_of_none hbuf, hbuf] at hp
    cases hp
  | @read now chunk stream as hnow hpos hlen _ ih =>
    intro buf p hbuf hroom hp hfar
    cases hpart : findCrlf (dropBlank (buf ++ chunk)) with
    | some q =>
      obtain ⟨hend, hq, -⟩ := line_of_part hpart stream
      obtain rfl := Option.some.inj (hp.symm.trans hq)
      have hle := length_dropBlank_le (buf ++ chunk)
      rw [List.length_append] at hle
      omega
    | none =>
      rw [readFrom_more hnow hpos hpart]
      split
      · rfl
      · next hsmall =>
        rw [dropBlank_rest] at hp
        exact ih hpart (Nat.not_lt.mp hsmall) hp hfar

/-- **A line without an end is told by its length.** -/
theorem readFrom_endless (h : Delivers m deadline stream as) : ∀ {buf : Bytes}, findCrlf buf = none →
    buf.length ≤ maxRequestBytes → findCrlf (dropBlank (buf ++ stream)) = none →
    readFrom deadline buf as =
      if maxRequestBytes < (dropBlank (buf ++ stream)).length then .tooLarge else .dead := by
  induction h with
  | ends hend =>
    intro buf hbuf hroom _
    rw [readFrom_ends hend, List.append_nil, dropBlank_of_none hbuf, if_neg (Nat.not_lt.mpr hroom)]
  | @read now chunk stream as hnow hpos _ _ ih =>
    intro buf hbuf hroom hnone
    cases hpart : findCrlf (dropBlank (buf ++ chunk)) with
    | some q =>
      obtain ⟨-, hq, -⟩ := line_of_part hpart stream
      rw [hnone] at hq
      cases hq
    | none =>
      rw [readFrom_more hnow hpos hpart]
      split
      · next hlarge =>
        rw [large_part hpart hlarge, List.length_append, if_pos (Nat.lt_of_lt_of_le hlarge (Nat.le_add_right _ _))]
      · next hsmall =>
        rw [dropBlank_rest] at hnone ⊢
        exact ih hpart (Nat.not_lt.mp hsmall) hnone

/-! ## Two ways to read one stream -/

/-- Reads of one byte. -/
def bytewise (bs : Bytes) : List Attempt := bs.map fun b => ⟨0, some [b]⟩

theorem delivers_bytewise (hm : 1 ≤ m) (h : Delivers m 1 stream as) :
    ∀ bs : Bytes, Delivers m 1 (bs ++ stream) (bytewise bs ++ as)
  | [] => h
  | b :: bs =>
    have hrest := delivers_bytewise hm h bs
    .read Nat.one_pos (List.cons_ne_nil b []) hm hrest

theorem delivers_nil (m deadline : Nat) : Delivers m deadline [] [] := .ends fun _ ha => by cases ha

theorem Delivers.mono {k : Nat} (h : Delivers m deadline stream as) (hle : m ≤ k) :
    Delivers k deadline stream as := by
  induction h with
  | ends hend => exact .ends hend
  | read hnow hpos hlen _ ih => exact .read hnow hpos (hlen.trans hle) ih

/-- **Single bytes without an end of line fill the buffer up to the limit.** -/
theorem readFrom_bytewise (as : List Attempt) : ∀ {bs buf : Bytes}, findCrlf buf = none →
    findCrlf (dropBlank (buf ++ bs)) = none → (dropBlank (buf ++ bs)).length ≤ maxRequestBytes →
    readFrom 1 buf (bytewise bs ++ as) = readFrom 1 (dropBlank (buf ++ bs)) as
  | [], buf, hbuf, _, _ => by
    rw [List.append_nil, dropBlank_of_none hbuf]
    rfl
  | b :: bs, buf, hbuf, hnone, hroom => by
    have hread : bytewise (b :: bs) ++ as = ⟨0, some [b]⟩ :: (bytewise bs ++ as) := rfl
    have hsplit : buf ++ b :: bs = buf ++ ([b] ++ bs) := rfl
    rw [hsplit] at hnone hroom ⊢
    rw [hread]
    cases hpart : findCrlf (dropBlank (buf ++ [b])) with
    | some q =>
      have hq := (line_of_part hpart bs).2.1
      rw [hnone] at hq
      cases hq
    | none =>
      rw [readFrom_more Nat.one_pos (List.cons_ne_nil b []) hpart, if_neg]
      · rw [dropBlank_rest] at hnone hroom ⊢
        exact readFrom_bytewise as hpart hnone hroom
      · intro hlarge
        rw [large_part hpart hlarge, List.length_append] at hroom
        omega

/-- The line with its end, and nothing more. -/
theorem findCrlf_take {bs : Bytes} (h : findCrlf bs = some p) : findCrlf (bs.take (p + 2)) = some p := by
  have hlen := (findCrlf_append h []).1
  have hsplit := List.take_append_drop (p + 2) bs
  cases htake : findCrlf (bs.take (p + 2)) with
  | some q =>
    have hq := (findCrlf_append htake (bs.drop (p + 2))).2
    rw [hsplit, h] at hq
    exact hq.symm
  | none =>
    rw [← hsplit] at h
    have hlate := findCrlf_late htake h
    rw [List.length_take] at hlate
    omega

theorem findCrlf_take_none {bs : Bytes} (h : findCrlf bs = some p) {n : Nat} (hn : n ≤ p) :
    findCrlf (bs.take n) = none := by
  cases htake : findCrlf (bs.take n) with
  | none => rfl
  | some q =>
    obtain ⟨hlen, hq⟩ := findCrlf_append htake (bs.drop n)
    rw [List.take_append_drop, h] at hq
    obtain rfl := Option.some.inj hq
    rw [List.length_take] at hlen
    omega

/-- **A line that ends up to a read beyond the limit is read by a read that starts at the limit.** -/
theorem readFrom_reaching (hp : findCrlf (dropBlank stream) = some p) (hge : maxRequestBytes ≤ p)
    (hle : p + 2 ≤ maxRequestBytes + chunkLen) :
    ∃ as l, Delivers chunkLen 1 stream as ∧ readRequestHead 1 as = .line l := by
  obtain ⟨lead, hstream, hlead⟩ := dropBlank_split stream
  generalize hbody : dropBlank stream = body at hp hstream
  have hmax : 0 < maxRequestBytes := by decide
  have hlen := (findCrlf_append hp []).1
  have hfill := findCrlf_take_none hp hge
  have hdropFill : dropBlank ([] ++ (lead ++ body.take maxRequestBytes)) = body.take maxRequestBytes := by
    rw [List.nil_append, hlead, dropBlank_of_none hfill]
  -- the read that reaches the end of the line, and what the buffer is then
  let last := (body.drop maxRequestBytes).take (p + 2 - maxRequestBytes)
  have hlast : last.length = p + 2 - maxRequestBytes := by
    rw [List.length_take, List.length_drop]
    omega
  have hline : body.take maxRequestBytes ++ last = body.take (p + 2) := by
    rw [← List.take_add, Nat.add_sub_cancel' (by omega)]
  have hdropLine : dropBlank (body.take (p + 2)) = body.take (p + 2) :=
    dropBlank_of_ne fun hzero => by
      have heq := Option.some.inj ((findCrlf_take hp).symm.trans hzero)
      omega
  have hrest : stream = (lead ++ body.take maxRequestBytes) ++ (last ++ body.drop (p + 2)) := by
    rw [← List.append_assoc, List.append_assoc lead, hline, List.append_assoc, List.take_append_drop, ← hstream]
  refine ⟨bytewise (lead ++ body.take maxRequestBytes) ++ ⟨0, some last⟩ :: bytewise (body.drop (p + 2)),
    fromUtf8Lossy ((body.take (p + 2)).take p), ?_, ?_⟩
  · have hpos : last ≠ [] := List.ne_nil_of_length_pos (by omega)
    have htail := delivers_bytewise (m := chunkLen) (by decide) (delivers_nil chunkLen 1) (body.drop (p + 2))
    rw [List.append_nil, List.append_nil] at htail
    rw [hrest]
    exact delivers_bytewise (by decide) (.read Nat.one_pos hpos (by omega) htail) _
  · have hroom : (body.take maxRequestBytes).length ≤ maxRequestBytes := List.length_take_le _ _
    have hfound : findCrlf (dropBlank (body.take maxRequestBytes ++ last)) = some p := by
      rw [hline, hdropLine, findCrlf_take hp]
    rw [readRequestHead, readFrom_bytewise _ rfl (by rw [hdropFill, hfill]) (by rw [hdropFill]; exact hroom), hdropFill,
      readFrom_found Nat.one_pos (List.ne_nil_of_length_pos (by omega)) hfound, hline, hdropLine]

/-- A line that ends beyond the limit is too large when it is read byte by byte. -/
theorem readFrom_creeping (hp : findCrlf (dropBlank stream) = some p) (hge : maxRequestBytes ≤ p) :
    Delivers chunkLen 1 stream (bytewise stream) ∧ readRequestHead 1 (bytewise stream) = .tooLarge := by
  have h := delivers_bytewise (Nat.le_refl 1) (delivers_nil 1 1) stream
  rw [List.append_nil, List.append_nil] at h
  exact ⟨h.mono (by decide), readFrom_large h rfl (Nat.zero_le _) hp (by omega)⟩

theorem endsApart_of_splitFree (h : SplitFree stream) : EndsApart stream := by
  intro p hp
  by_contra hbetween
  rw [not_or, Nat.not_lt, Nat.not_lt] at hbetween
  obtain ⟨as, l, hreach, hline⟩ := readFrom_reaching hp hbetween.1 hbetween.2
  obtain ⟨hcreep, hlarge⟩ := readFrom_creeping hp hbetween.1
  have heq := h hreach hcreep
  rw [hline, hlarge] at heq
  cases heq

/-- **The reads do not matter exactly when no first line ends beyond the limit and within a read of it.** -/
theorem splitFree_iff (stream : Bytes) : SplitFree stream ↔ EndsApart stream := by
  refine ⟨endsApart_of_splitFree, fun h deadline as bs has hbs => ?_⟩
  have hempty : findCrlf ([] : Bytes) = none := rfl
  have hroom : ([] : Bytes).length ≤ maxRequestBytes := Nat.zero_le _
  unfold readRequestHead
  cases hp : findCrlf (dropBlank stream) with
  | none => rw [readFrom_endless has hempty hroom hp, readFrom_endless hbs hempty hroom hp]
  | some p =>
    rcases h p hp with hshort | hfar
    · rw [readFrom_line has hempty hp hshort, readFrom_line hbs hempty hp hshort]
    · rw [readFrom_large has hempty hroom hp hfar, readFrom_large hbs hempty hroom hp hfar]

/-- A line of one repeated character. -/
theorem not_splitFree_text {n : Nat} (hge : maxRequestBytes ≤ n) (hle : n + 2 ≤ maxRequestBytes + chunkLen) :
    ¬SplitFree (List.replicate n 0x41 ++ [0x0d, 0x0a]) := by
  intro h
  have hp : findCrlf (List.replicate n 0x41 ++ [0x0d, 0x0a]) = some n := by
    have htext := findCrlf_text [] (List.replicate n 0x41) fun b hb => by
      rw [List.eq_of_mem_replicate hb]
      decide
    rwa [List.length_replicate] at htext
  have hmax : 0 < maxRequestBytes := by decide
  have hne : findCrlf (List.replicate n 0x41 ++ [0x0d, 0x0a]) ≠ some 0 := by
    rw [hp]
    intro hzero
    have hn := Option.some.inj hzero
    omega
  have hdrop := dropBlank_of_ne hne
  rw [← hdrop] at hp
  rcases endsApart_of_splitFree h n hp with hshort | hfar
  · omega
  · omega

/-- **A request line of 8192 bytes is read or refused.** -/
theorem line_at_limit : ¬SplitFree (List.replicate 8192 0x41 ++ [0x0d, 0x0a]) :=
  not_splitFree_text (by decide) (by decide)

end Onde.Health
