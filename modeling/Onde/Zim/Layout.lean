import Onde.Lib.Located
import Onde.Zim.Measure

/-!
# Is every article of a ZIM file found?

* `ZimFile`, `ZimFile.LaidOut`: what a file holds, and how it lies in the bytes;
* `parse_laidOut`, `mime_laidOut`, `dirent_laidOut`: the header, the MIME list and the entries are read back;
* `region_laidOut`: the end of a cluster is found; `cluster_laidOut`: and its blobs;
* `lz4_encode`: the length of an LZ4 block is measured; `decompress_stored`: a blob is decompressed;
* `zim_end_to_end`: the file is loaded, and each url gives the article of the first entry that has it.
-/

namespace Onde.Zim

open Lib Outcome

/-! ## What a file holds -/

/-- A table of pointers. -/
def pointerTable (ps : List Nat) : Bytes := ps.flatMap (leBytes 4)

/-- An entry with the MIME type and the content it stands for. -/
structure ZimEntry where
  url : String
  title : String
  namespace_ : UInt8
  mimeIndex : Nat
  clusterIndex : Nat
  blobOffset : Nat
  mimeType : String
  content : Bytes

structure ZimCluster where
  code : UInt8
  blobs : List Bytes

structure ZimFile where
  majorVersion : Nat
  minorVersion : Nat
  uuid : Bytes
  headerSize : Nat
  mediaCount : Nat
  creator : String
  publisher : String
  title : String
  description : String
  language : String
  mimeTypes : List String
  entries : List ZimEntry
  clusters : List ZimCluster
  clusterPtrs : List Nat
  urlPtrs : List Nat
  titlePtrs : List Nat

def ZimEntry.encode (e : ZimEntry) : Bytes :=
  cstr e.url ++ (cstr e.title ++ (e.namespace_ :: (leBytes 2 e.mimeIndex ++ (leBytes 4 e.clusterIndex ++
    (leBytes 4 e.blobOffset ++ leBytes 4 e.content.length)))))

/-- A blob behind its size. -/
def encodeBlob (payload : Bytes) : Bytes := leBytes 4 payload.length ++ payload

def ZimCluster.encode (c : ZimCluster) : Bytes := c.code :: c.blobs.flatMap encodeBlob

namespace ZimFile

variable (f : ZimFile)

def articleCount : Nat := f.entries.length

def encodeHeader : Bytes :=
  zimMagic ++ (leBytes 2 f.majorVersion ++ (leBytes 2 f.minorVersion ++ (f.uuid ++ (leBytes 4 f.headerSize ++
    (leBytes 4 f.articleCount ++ (leBytes 4 f.mediaCount ++ (cstr f.creator ++ (cstr f.publisher ++ (cstr f.title ++
      (cstr f.description ++ cstr f.language))))))))))

def mimeListPos : Nat := f.encodeHeader.length
def clusterPtrPos : Nat := f.mimeListPos + f.articleCount * 4
def urlPtrPos : Nat := f.clusterPtrPos + f.articleCount * 4
def titlePtrPos : Nat := f.urlPtrPos + f.articleCount * 4

/-- The header as it is read. -/
def header : ZimHeader :=
  ⟨f.majorVersion, f.minorVersion, f.uuid, f.headerSize, f.articleCount, f.mediaCount, f.creator, f.publisher, f.title,
    f.description, f.language, f.mimeListPos, f.clusterPtrPos, f.urlPtrPos, f.titlePtrPos⟩

/-- Where entries and clusters begin. -/
def starts : List Nat := f.urlPtrs ++ f.clusterPtrs.take f.clusters.length

end ZimFile

/-- The blob stands for the content: it is the content, or the decompressor undoes what the compressor did. -/
inductive Stored (codec : Codec) (content : Bytes) : UInt8 → Bytes → Prop
  | plain : Stored codec content compNone content
  | zstd {payload : Bytes} (h : codec.zstdDecodeAll payload = some content) : Stored codec content compZstd payload
  | lz4 {block : Lz4Block} (hvalid : ∀ s ∈ block.sequences, s.Valid) (hdecode : block.decode = some content)
    (h : codec.lz4FlexDecompress block.encode content.length = some content) :
    Stored codec content compLz4 block.encode

/-- The numbers fit in their fields and the texts have no zero characters. -/
structure ZimFile.WellFormed (f : ZimFile) : Prop where
  majorVersion : f.majorVersion ≤ 6
  minorVersion : f.minorVersion < 2 ^ 16
  uuid : f.uuid.length = 16
  headerSize : f.headerSize < 2 ^ 32
  mediaCount : f.mediaCount < 2 ^ 32
  texts : ∀ s ∈ [f.creator, f.publisher, f.title, f.description, f.language], NulFree s
  mimeTypes : ∀ s ∈ f.mimeTypes, NulFree s
  entries : ∀ e ∈ f.entries, NulFree e.url ∧ NulFree e.title ∧ e.mimeIndex < 2 ^ 16 ∧ e.content.length < 2 ^ 32
  codes : ∀ c ∈ f.clusters, c.code = compNone ∨ c.code = compLz4 ∨ c.code = compZstd

/-- **How a file lies in the bytes.** The header, the MIME list and the three tables come one after the other, the MIME
list as long as a table. The entries lie where the table of the urls says and the clusters where the table of the
clusters says. A cluster ends at an entry, a cluster or the end of the file, and nothing begins inside it. -/
structure ZimFile.LaidOut (f : ZimFile) (codec : Codec) (data : Bytes) : Prop where
  wellFormed : f.WellFormed
  small : data.length < 2 ^ 32
  header : At data 0 f.encodeHeader
  mimeTypes : At data f.mimeListPos (f.mimeTypes.flatMap cstr)
  mimeLength : (f.mimeTypes.flatMap cstr).length = f.articleCount * 4
  clusterPtrs : At data f.clusterPtrPos (pointerTable f.clusterPtrs) ∧ f.clusterPtrs.length = f.articleCount
  urlPtrs : At data f.urlPtrPos (pointerTable f.urlPtrs)
  titlePtrs : At data f.titlePtrPos (pointerTable f.titlePtrs) ∧ f.titlePtrs.length = f.articleCount
  entries : List.Forall₂ (fun p (e : ZimEntry) => At data p e.encode) f.urlPtrs f.entries
  clusters : ∀ (j : Nat) (c : ZimCluster), f.clusters[j]? = some c → ∃ p, f.clusterPtrs[j]? = some p ∧
    At data p c.encode ∧ (p + c.encode.length = data.length ∨ p + c.encode.length ∈ f.starts) ∧
    ∀ q ∈ f.starts, q ≤ p ∨ p + c.encode.length ≤ q
  referenced : ∀ j < f.clusters.length, ∃ e ∈ f.entries, e.clusterIndex = j
  mimes : ∀ e ∈ f.entries, f.mimeTypes[e.mimeIndex]? = some e.mimeType
  blobs : ∀ e ∈ f.entries, ∃ c, f.clusters[e.clusterIndex]? = some c ∧ ∃ before payload after,
    c.blobs = before ++ payload :: after ∧ e.blobOffset = 1 + (before.flatMap encodeBlob).length ∧
    Stored codec e.content c.code payload

/-- What a reader is to find under a url: the first entry that has it. -/
def ZimFile.article (f : ZimFile) (url : String) : Option ZimArticle := do
  let idx ← f.entries.findIdx? fun e => e.url = url
  let e ← f.entries[idx]?
  some ⟨e.url, e.title, e.mimeType, e.content, e.content.length, e.namespace_ = 0x41 ∧ idx = 0,
    Char.ofNat e.namespace_.toNat, idx⟩

/-! ## The header -/

variable {w : Nat} {codec : Codec} {f : ZimFile} {data : Bytes}

/-- A text is read back. -/
theorem readCstr_at (hw : 32 ≤ w) (hlen : data.length < 2 ^ (w - 1)) {s : String} {off : Nat} (hs : NulFree s)
    (h : At data off (cstr s)) : readCstr w data off = .ok (s, off + (cstr s).length) := by
  have hin := h.inside (cstr_ne_nil s)
  have hbytes : At data off (utf8Bytes s) := (at_append.mp h).1
  rw [length_cstr] at hin ⊢
  have hnul : wadd w off (utf8Bytes s).length = off + (utf8Bytes s).length := wadd_within hw hlen (by omega)
  have hone : wadd w (off + (utf8Bytes s).length) 1 = off + (utf8Bytes s).length + 1 := wadd_within hw hlen (by omega)
  have hfind : findNul (data.drop off) = some (utf8Bytes s).length := h.findNul hs
  unfold readCstr
  rw [sliceFrom_eq_ok (by omega), ok_bind, hfind, okOr, ok_bind, hnul, hone,
    slice_eq_ok.mpr (hbytes.getRange (by omega)), ok_bind, fromUtf8Lossy_utf8Bytes]
  rfl

theorem tableEnd_eq (articleCount pos : Nat) (hin : pos + articleCount * 4 ≤ data.length)
    (hsmall : data.length < 2 ^ 32) :
    tableEnd data articleCount pos = .ok (pos + articleCount * 4) := by
  unfold tableEnd
  dsimp only
  rw [failIf, if_neg (by omega)]
  rfl

theorem length_pointerTable (ps : List Nat) : (pointerTable ps).length = ps.length * 4 := by
  induction ps with
  | nil => rfl
  | cons p ps ih =>
    rw [pointerTable, List.flatMap_cons, List.length_append, length_leBytes, List.length_cons, ← pointerTable, ih]
    omega

theorem length_zimMagic : zimMagic.length = 4 := rfl

theorem encodeHeader_ne_nil (f : ZimFile) : f.encodeHeader ≠ [] := List.cons_ne_nil _ _

/-- The tables lie inside. -/
theorem ZimFile.LaidOut.tables (hf : f.LaidOut codec data) : 36 ≤ data.length ∧ f.titlePtrPos ≤ data.length := by
  have hheader := hf.header.inside (encodeHeader_ne_nil f)
  have htitle := hf.titlePtrs
  refine ⟨?_, ?_⟩
  · refine Nat.le_trans ?_ hheader
    simp only [ZimFile.encodeHeader, List.length_append, length_leBytes, hf.wellFormed.uuid, zimMagic, List.length_cons,
      List.length_nil]
    omega
  · by_cases hn : f.articleCount = 0
    · simp only [ZimFile.titlePtrPos, ZimFile.urlPtrPos, ZimFile.clusterPtrPos, ZimFile.mimeListPos, hn]
      omega
    · have hlen := length_pointerTable f.titlePtrs
      have hin := htitle.1.inside (List.ne_nil_of_length_pos (by omega))
      omega

/-- The number in a piece of a list of bytes. -/
theorem wordAt_mid {n v : Nat} (pre post : Bytes) (hn : 0 < n) (hv : v < 256 ^ n) :
    (wordAt (pre ++ (leBytes n v ++ post)) pre.length n : Result Nat) = .ok v :=
  (at_mid pre (leBytes n v) post).word hn hv

theorem wordAt_last {n v : Nat} (pre : Bytes) (hn : 0 < n) (hv : v < 256 ^ n) :
    (wordAt (pre ++ leBytes n v) pre.length n : Result Nat) = .ok v := by
  have hmid := wordAt_mid pre [] hn hv
  rwa [List.append_nil] at hmid

/-- **The header is read back.** -/
theorem parse_laidOut (hw : 32 ≤ w) (hlen : data.length < 2 ^ (w - 1)) (hf : f.LaidOut codec data) :
    ZimHeader.parse w data = .ok f.header := by
  have hwf := hf.wellFormed
  have hsmall := hf.small
  obtain ⟨hstart, htables⟩ := hf.tables
  have hcount : f.articleCount < 2 ^ 32 := by
    simp only [ZimFile.titlePtrPos] at htables
    omega
  have htexts := hwf.texts
  simp only [List.forall_mem_cons, List.not_mem_nil, false_implies, implies_true, and_true] at htexts
  obtain ⟨hcreator, hpublisher, htitle, hdescription, hlanguage⟩ := htexts
  have hat := hf.header
  simp only [ZimFile.encodeHeader, at_append, length_leBytes, hwf.uuid, length_zimMagic, Nat.reduceAdd] at hat
  obtain ⟨hmagic, hmajor, hminor, huuid, hsize, harticles, hmedia, h₁, h₂, h₃, h₄, h₅⟩ := hat
  -- The parts of fixed length.
  have hmagicRange : getRange data 0 4 = some zimMagic := hmagic.getRange (Nat.le_trans (by decide) hstart)
  have hver : getRange data 4 8 = some (leBytes 2 f.majorVersion ++ leBytes 2 f.minorVersion) :=
    (at_append.mpr ⟨hmajor, hminor⟩).getRange (Nat.le_trans (show 8 ≤ 36 by decide) hstart)
  have huuidRange : getRange data 8 24 = some f.uuid := by
    have hrange := huuid.getRange (by rw [hwf.uuid]; omega)
    rwa [hwf.uuid] at hrange
  have hfixed : getRange data 24 36 = some (leBytes 4 f.headerSize ++
      (leBytes 4 f.articleCount ++ leBytes 4 f.mediaCount)) :=
    (at_append.mpr ⟨hsize, at_append.mpr ⟨harticles, hmedia⟩⟩).getRange hstart
  have hmajorWord : (wordAt (leBytes 2 f.majorVersion ++ leBytes 2 f.minorVersion) 0 2 : Result Nat) =
      .ok f.majorVersion :=
    wordAt_mid (n := 2) [] _ (by decide) (Nat.lt_of_le_of_lt hwf.majorVersion (by decide))
  have hminorWord : (wordAt (leBytes 2 f.majorVersion ++ leBytes 2 f.minorVersion) 2 2 : Result Nat) =
      .ok f.minorVersion := wordAt_last (leBytes 2 f.majorVersion) (by decide) hwf.minorVersion
  let fixed := leBytes 4 f.headerSize ++ (leBytes 4 f.articleCount ++ leBytes 4 f.mediaCount)
  have hsizeWord : (wordAt fixed 0 4 : Result Nat) = .ok f.headerSize :=
    wordAt_mid (n := 4) [] _ (by decide) hwf.headerSize
  have hcountWord : (wordAt fixed 4 4 : Result Nat) = .ok f.articleCount :=
    wordAt_mid (leBytes 4 f.headerSize) _ (by decide) hcount
  have hmediaWord : (wordAt fixed 8 4 : Result Nat) = .ok f.mediaCount :=
    wordAt_last (leBytes 4 f.headerSize ++ leBytes 4 f.articleCount) (by decide) hwf.mediaCount
  -- The texts.
  have hr₁ := readCstr_at hw hlen hcreator h₁
  have hr₂ := readCstr_at hw hlen hpublisher h₂
  have hr₃ := readCstr_at hw hlen htitle h₃
  have hr₄ := readCstr_at hw hlen hdescription h₄
  have hr₅ := readCstr_at hw hlen hlanguage h₅
  have hpos : 36 + (cstr f.creator).length + (cstr f.publisher).length + (cstr f.title).length +
      (cstr f.description).length + (cstr f.language).length = f.mimeListPos := by
    simp only [ZimFile.mimeListPos, ZimFile.encodeHeader, List.length_append, length_leBytes, hwf.uuid, length_zimMagic]
    omega
  rw [hpos] at hr₅
  -- The tables.
  simp only [ZimFile.titlePtrPos, ZimFile.urlPtrPos, ZimFile.clusterPtrPos] at htables
  have hmime : asU32 f.mimeListPos = f.mimeListPos := Nat.mod_eq_of_lt (by omega)
  have ht₁ := tableEnd_eq f.articleCount f.mimeListPos (by omega) hsmall
  have ht₂ := tableEnd_eq f.articleCount f.clusterPtrPos
    (by rw [ZimFile.clusterPtrPos]; omega) hsmall
  have ht₃ := tableEnd_eq f.articleCount f.urlPtrPos
    (by rw [ZimFile.urlPtrPos, ZimFile.clusterPtrPos]; omega) hsmall
  unfold ZimHeader.parse
  rw [hmagicRange, okOr, ok_bind, failIf_neg _ (by decide), ok_bind, failIf_neg _ (by decide), ok_bind, hver, okOr,
    ok_bind, failIf_neg _ (by exact not_not.mpr rfl), ok_bind, hmajorWord, ok_bind, hminorWord, ok_bind,
    failIf_neg _ (Nat.not_lt.mpr hwf.majorVersion), ok_bind, huuidRange, okOr, ok_bind,
    failIf_neg _ (not_not.mpr hwf.uuid), ok_bind, hfixed, okOr, ok_bind, failIf_neg _ (by exact not_not.mpr rfl),
    ok_bind, hsizeWord, ok_bind, hcountWord, ok_bind, hmediaWord, ok_bind, hr₁, ok_bind, hr₂, ok_bind, hr₃, ok_bind,
    hr₄, ok_bind,
    hr₅, ok_bind]
  dsimp only
  rw [hmime, ht₁, ok_bind, ← ZimFile.clusterPtrPos, ht₂, ok_bind, ← ZimFile.urlPtrPos, ht₃, ok_bind]
  rfl

/-! ## The MIME list and the entries -/

/-- **The MIME list is read back.** -/
theorem mime_laidOut (hw : 32 ≤ w) (hlen : data.length < 2 ^ (w - 1)) {stop : Nat} (hstop : stop ≤ data.length)
    {ms : List String} (hms : ∀ m ∈ ms, NulFree m) {fuel pos : Nat} (acc : List String)
    (h : At data pos (ms.flatMap cstr)) (hend : pos + (ms.flatMap cstr).length = stop) (hfuel : ms.length < fuel) :
    loop (ZimReader.mimeStep w data stop) fuel (pos, acc) = .ok (acc ++ ms) := by
  induction ms generalizing fuel pos acc with
  | nil =>
    obtain ⟨fuel, rfl⟩ : ∃ k, fuel = k + 1 := ⟨fuel - 1, by omega⟩
    rw [List.append_nil]
    refine loop_done (if_neg ?_)
    rw [List.flatMap_nil, List.length_nil] at hend
    omega
  | cons m ms ih =>
    obtain ⟨fuel, rfl⟩ : ∃ k, fuel = k + 1 := ⟨fuel - 1, by omega⟩
    obtain ⟨hm, hms⟩ := List.forall_mem_cons.mp hms
    rw [List.flatMap_cons] at h hend
    obtain ⟨hfirst, hrest⟩ := at_append.mp h
    have hbytes : At data pos (utf8Bytes m) := (at_append.mp hfirst).1
    have hfind : findNul (data.drop pos) = some (utf8Bytes m).length := hfirst.findNul hm
    rw [List.length_append, length_cstr] at hend
    rw [length_cstr] at hrest
    have hnul : wadd w pos (utf8Bytes m).length = pos + (utf8Bytes m).length := wadd_within hw hlen (by omega)
    have hone : wadd w (utf8Bytes m).length 1 = (utf8Bytes m).length + 1 := wadd_within hw hlen (by omega)
    have hnext : wadd w pos ((utf8Bytes m).length + 1) = pos + ((utf8Bytes m).length + 1) :=
      wadd_within hw hlen (by omega)
    have hstep : ZimReader.mimeStep w data stop (pos, acc) =
        .ok (.inl (pos + ((utf8Bytes m).length + 1), acc ++ [m])) := by
      unfold ZimReader.mimeStep
      dsimp only
      rw [if_pos (by omega), sliceFrom_eq_ok (by omega), ok_bind, hfind]
      dsimp only
      rw [hnul, slice_eq_ok.mpr (hbytes.getRange (by omega)), ok_bind, hone, hnext, fromUtf8Lossy_utf8Bytes]
      rfl
    rw [loop_again hstep, ih hms (acc ++ [m]) hrest (by omega) (by rw [List.length_cons] at hfuel; omega),
      List.append_assoc]
    rfl

/-- The entry as it is read. -/
def ZimEntry.dirent (e : ZimEntry) : Dirent :=
  ⟨e.url, e.title, Char.ofNat e.namespace_.toNat, e.mimeIndex, e.clusterIndex, e.blobOffset, e.content.length⟩

theorem trimNul_eq {s : String} (hs : NulFree s) : trimNul s = s := by
  have hfirst : ∀ cs : List Char, '\x00' ∉ cs → cs.dropWhile (· == '\x00') = cs := by
    intro cs hcs
    cases cs with
    | nil => rfl
    | cons c cs =>
      refine List.dropWhile_cons_of_neg ?_
      rw [beq_iff_eq]
      rintro rfl
      exact hcs List.mem_cons_self
  rw [trimNul, hfirst _ hs, hfirst _ (by rwa [List.mem_reverse]), List.reverse_reverse, String.ofList_toList]

theorem direntText_at (hw : 32 ≤ w) (hlen : data.length < 2 ^ (w - 1)) {s : String} {off : Nat} (hs : NulFree s)
    (h : At data off (cstr s)) : direntText w data off = .ok (s, off + (utf8Bytes s).length) := by
  have hin := h.inside (cstr_ne_nil s)
  have hbytes : At data off (utf8Bytes s) := (at_append.mp h).1
  have hfind : findNul (data.drop off) = some (utf8Bytes s).length := h.findNul hs
  rw [length_cstr] at hin
  have hnul : wadd w off (utf8Bytes s).length = off + (utf8Bytes s).length := wadd_within hw hlen (by omega)
  unfold direntText
  rw [sliceFrom_eq_ok (by omega), ok_bind, hfind, okOr, ok_bind, hnul, failIf_neg _ (by omega), ok_bind,
    slice_eq_ok.mpr (hbytes.getRange (by omega)), ok_bind, fromUtf8Lossy_utf8Bytes, trimNul_eq hs]
  rfl

theorem readLe_at (hw : 32 ≤ w) (hlen : data.length < 2 ^ (w - 1)) {n v off : Nat} (hn : 0 < n) (hv : v < 256 ^ n)
    (h : At data off (leBytes n v)) : readLe n w data off = .ok v := by
  have hin := h.inside (List.ne_nil_of_length_pos (by rw [length_leBytes]; exact hn))
  have hrange := h.getRange hin
  rw [length_leBytes] at hin hrange
  have hword := wordAt_mid (n := n) [] [] hn hv
  rw [List.append_nil] at hword
  unfold readLe
  rw [wadd_within hw hlen hin, hrange, okOr, ok_bind, failIf_neg _ (not_not.mpr (length_leBytes n v)), ok_bind]
  exact hword

/-- **An entry is read back.** -/
theorem dirent_laidOut (hw : 32 ≤ w) (hlen : data.length < 2 ^ (w - 1)) {e : ZimEntry} {off : Nat}
    (hurl : NulFree e.url) (htitle : NulFree e.title) (hmime : e.mimeIndex < 2 ^ 16)
    (hcluster : e.clusterIndex < 2 ^ 32) (hblob : e.blobOffset < 2 ^ 32) (hsize : e.content.length < 2 ^ 32)
    (h : At data off e.encode) :
    Dirent.parse w data off = .ok e.dirent := by
  obtain ⟨h₁, h⟩ := at_append.mp h
  obtain ⟨h₂, h⟩ := at_append.mp h
  obtain ⟨h₃, h⟩ := at_cons.mp h
  obtain ⟨h₄, h⟩ := at_append.mp h
  obtain ⟨h₅, h⟩ := at_append.mp h
  obtain ⟨h₆, h₇⟩ := at_append.mp h
  have hin := h₇.inside (List.cons_ne_nil _ _)
  simp only [length_cstr, length_leBytes, ← Nat.add_assoc] at h₂ h₃ h₄ h₅ h₆ h₇ hin
  have hone : wadd w (off + (utf8Bytes e.url).length) 1 = off + (utf8Bytes e.url).length + 1 :=
    wadd_within hw hlen (by omega)
  have htext := direntText_at hw hlen htitle h₂
  have hoff : off < data.length := by omega
  unfold Dirent.parse
  rw [failIf_neg _ (by omega), ok_bind, direntText_at hw hlen hurl h₁, ok_bind]
  dsimp only
  rw [hone, htext, ok_bind]
  dsimp only
  generalize off + (utf8Bytes e.url).length + 1 + (utf8Bytes e.title).length = p at *
  have hw₁ : wadd w p 1 = p + 1 := wadd_within hw hlen (by omega)
  have hw₂ : wadd w (p + 1) 1 = p + 1 + 1 := wadd_within hw hlen (by omega)
  have hw₃ : wadd w (p + 1 + 1) 2 = p + 1 + 1 + 2 := wadd_within hw hlen (by omega)
  have hw₄ : wadd w (p + 1 + 1 + 2) 4 = p + 1 + 1 + 2 + 4 := wadd_within hw hlen (by omega)
  have hw₅ : wadd w (p + 1 + 1 + 2 + 4) 4 = p + 1 + 1 + 2 + 4 + 4 := wadd_within hw hlen (by omega)
  have hw₆ : wadd w (p + 1 + 1 + 2 + 4 + 4) 4 = p + 1 + 1 + 2 + 4 + 4 + 4 := wadd_within hw hlen (by omega)
  rw [hw₁, h₃, okOr, ok_bind, hw₂, hw₃, hw₄, hw₅, hw₆, readU16, readLe_at hw hlen (by decide) hmime h₄, ok_bind,
    readU32, readLe_at hw hlen (by decide) hcluster h₅, ok_bind, readLe_at hw hlen (by decide) hblob h₆, ok_bind,
    readLe_at hw hlen (by decide) hsize h₇, ok_bind, failIf_neg _ (by omega)]
  rfl

/-! ## The index -/

/-- A pointer lies in its table. -/
theorem at_pointer {ps : List Nat} {base i p : Nat} (h : At data base (pointerTable ps)) (hp : ps[i]? = some p) :
    At data (base + i * 4) (leBytes 4 p) := by
  induction ps generalizing base i with
  | nil => cases hp
  | cons q ps ih =>
    rw [pointerTable, List.flatMap_cons, at_append, length_leBytes] at h
    cases i with
    | zero =>
      cases hp
      exact h.1
    | succ i =>
      have hrest := ih h.2 hp
      rwa [show base + (i + 1) * 4 = base + 4 + i * 4 by omega]

/-- What has bytes lies below four gigabytes. -/
theorem ZimFile.LaidOut.place_lt (hf : f.LaidOut codec data) {p : Nat} {bs : Bytes} (h : At data p bs) (hne : bs ≠ []) :
    p < 2 ^ 32 := by
  have hin := h.inside hne
  have hpos := List.length_pos_of_ne_nil hne
  have hsmall := hf.small
  omega

theorem ZimFile.LaidOut.count_lt (hf : f.LaidOut codec data) : f.articleCount < 2 ^ 32 := by
  have hsmall := hf.small
  have htables := hf.tables.2
  simp only [ZimFile.titlePtrPos] at htables
  omega

/-- A cluster is where the table says. -/
theorem ZimFile.LaidOut.cluster_lt (hf : f.LaidOut codec data) {j : Nat} {c : ZimCluster}
    (hc : f.clusters[j]? = some c) :
    j < 2 ^ 32 := by
  obtain ⟨p, hp, _⟩ := hf.clusters j c hc
  obtain ⟨hj, _⟩ := List.getElem?_eq_some_iff.mp hp
  rw [hf.clusterPtrs.2] at hj
  exact hj.trans hf.count_lt

/-- The numbers of an entry fit in their fields. -/
theorem ZimFile.LaidOut.entry_lt (hf : f.LaidOut codec data) {e : ZimEntry} (he : e ∈ f.entries) :
    e.clusterIndex < 2 ^ 32 ∧ e.blobOffset < 2 ^ 32 := by
  obtain ⟨c, hc, before, payload, after, hblobs, hoffset, _⟩ := hf.blobs e he
  refine ⟨hf.cluster_lt hc, ?_⟩
  obtain ⟨p, _, hat, _⟩ := hf.clusters _ c hc
  have hin := hat.inside (List.cons_ne_nil _ _)
  have hsmall := hf.small
  rw [ZimCluster.encode, hblobs, List.length_cons, List.flatMap_append, List.length_append] at hin
  omega

/-- Where an entry is, and what it is there. -/
theorem direntAt_laidOut (hw : 32 ≤ w) (hlen : data.length < 2 ^ (w - 1)) (hf : f.LaidOut codec data) {i : Nat}
    {e : ZimEntry} (he : f.entries[i]? = some e) : ZimReader.direntAt w data f.header i = .ok e.dirent := by
  obtain ⟨hdouble, hhalf⟩ := two_pow_half hw
  obtain ⟨hi, hget⟩ := List.getElem?_eq_some_iff.mp he
  have hmem := List.mem_of_getElem? he
  obtain ⟨hsame, hat⟩ := List.forall₂_iff_get.mp hf.entries
  have hi' : i < f.urlPtrs.length := by omega
  have hentry : At data f.urlPtrs[i] e.encode := by
    rw [← hget]
    exact hat i hi' hi
  have hword := at_pointer hf.urlPtrs (List.getElem?_eq_getElem hi')
  have hin := hword.inside (List.cons_ne_nil _ _)
  have hplace := hf.place_lt hentry (by simp [ZimEntry.encode, cstr])
  obtain ⟨hurl, htitle, hmime, hsize⟩ := hf.wellFormed.entries e hmem
  obtain ⟨hcluster, hblob⟩ := hf.entry_lt hmem
  rw [length_leBytes] at hin
  have hbase : wadd w f.urlPtrPos (wmul w i 4) = f.urlPtrPos + i * 4 := by
    rw [wmul_eq (by omega), wadd_within hw hlen (by omega)]
  have hend : wadd w (f.urlPtrPos + i * 4) 4 = f.urlPtrPos + i * 4 + 4 := wadd_within hw hlen hin
  unfold ZimReader.direntAt
  dsimp only [ZimFile.header]
  rw [hbase, hend, failIf_neg _ (by omega), ok_bind, hword.word (by decide) hplace, ok_bind,
    dirent_laidOut hw hlen hurl htitle hmime hcluster hblob hsize hentry]

/-- The reader of a file. -/
def ZimFile.reader (f : ZimFile) (filePath : String) (data : Bytes) : ZimReader :=
  ⟨filePath, some f.header, true, data, f.entries.map ZimEntry.dirent, f.mimeTypes⟩

/-- On 64 bits there is room for the entries. -/
theorem ZimFile.LaidOut.room (hf : f.LaidOut codec data) (hroom : w < 64 → DirentsFit w f.articleCount) :
    DirentsFit w f.articleCount := by
  by_cases hwide : w < 64
  · exact hroom hwide
  · have hsmall := hf.small
    have htables := hf.tables.2
    simp only [ZimFile.titlePtrPos] at htables
    exact direntsFit_wide (Nat.not_lt.mp hwide) (by omega)

/-- **The index is loaded**, if there is room for it. -/
theorem loadIndex_laidOut (hw : 32 ≤ w) (hlen : data.length < 2 ^ (w - 1)) (hf : f.LaidOut codec data)
    (hroom : DirentsFit w f.articleCount) (r : ZimReader) {fuel : Nat} (hfuel : data.length < fuel) :
    r.loadIndex w (.ok data) fuel = (.ok (), f.reader r.filePath data) := by
  have htables := hf.tables.2
  have hmimes : f.mimeTypes.length ≤ (f.mimeTypes.flatMap cstr).length := by
    induction f.mimeTypes with
    | nil => exact Nat.le_refl 0
    | cons m ms ih =>
      rw [List.flatMap_cons, List.length_append, length_cstr, List.length_cons]
      omega
  have hmimeLength := hf.mimeLength
  simp only [ZimFile.titlePtrPos, ZimFile.urlPtrPos, ZimFile.clusterPtrPos] at htables
  have hstop : f.clusterPtrPos ≤ data.length := by
    rw [ZimFile.clusterPtrPos]
    omega
  have hcount : f.mimeTypes.length < fuel := by omega
  have hmime := mime_laidOut hw hlen hstop hf.wellFormed.mimeTypes [] hf.mimeTypes
    (by rw [ZimFile.clusterPtrPos, hmimeLength]) hcount
  have hdirents : (List.range f.articleCount).mapM (ZimReader.direntAt w data f.header) =
      .ok (f.entries.map ZimEntry.dirent) := by
    refine mapM_eq_ok.mpr (List.forall₂_iff_get.mpr ⟨by rw [List.length_range, List.length_map]; rfl, ?_⟩)
    intro i hi hi'
    rw [List.length_map] at hi'
    simp only [List.get_eq_getElem, List.getElem_range, List.getElem_map]
    exact direntAt_laidOut hw hlen hf (List.getElem?_eq_getElem hi')
  have hreserve : (withCapacity w (direntSize w) f.articleCount : Result Unit) = .ok () := withCapacity_eq_ok.mpr hroom
  unfold ZimReader.loadIndex
  dsimp only
  rw [parse_laidOut hw hlen hf]
  dsimp only [ZimReader.proceed, ZimFile.header] at hdirents ⊢
  rw [hmime]
  dsimp only
  rw [hreserve]
  dsimp only
  rw [hdirents]
  rfl

/-! ## The region of a cluster -/

/-- A pointer is read back. -/
theorem tableEntry_at (hw : 32 ≤ w) (hlen : data.length < 2 ^ (w - 1)) {ps : List Nat} {table i p : Nat}
    (h : At data table (pointerTable ps)) (hp : ps[i]? = some p) (hlt : p < 2 ^ 32) :
    ZimReader.tableEntry w data table i = .ok (some p) := by
  obtain ⟨hdouble, _⟩ := two_pow_half hw
  have hword := at_pointer h hp
  have hin := hword.inside (List.cons_ne_nil _ _)
  rw [length_leBytes] at hin
  have hbase : wadd w table (wmul w i 4) = table + i * 4 := by
    rw [wmul_eq (by omega), wadd_within hw hlen (by omega)]
  unfold ZimReader.tableEntry
  rw [hbase]
  dsimp only
  rw [wadd_within hw hlen hin, if_neg (by omega), hword.word (by decide) hlt]
  rfl

/-- The bound that a pointer gives. -/
def nearer (start stop off : Nat) : Nat := if start < off ∧ off < stop then off else stop

/-- **The nearest place behind the start is found**, if nothing lies between and it is among the places or the end. -/
theorem foldl_nearer {start stop : Nat} (hlt : start < stop) {offs : List Nat} {acc : Nat} (hacc : stop ≤ acc)
    (hout : ∀ q ∈ offs, q ≤ start ∨ stop ≤ q) (hmem : acc = stop ∨ stop ∈ offs) :
    offs.foldl (nearer start) acc = stop := by
  induction offs generalizing acc with
  | nil => exact hmem.resolve_right List.not_mem_nil
  | cons q offs ih =>
    have hq := hout q List.mem_cons_self
    rw [List.foldl_cons]
    refine ih ?_ (fun q' hq' => hout q' (List.mem_cons_of_mem q hq')) ?_
    · unfold nearer
      split <;> omega
    · rcases hmem with rfl | hmem
      · left
        unfold nearer
        split <;> omega
      · rcases List.mem_cons.mp hmem with rfl | hmem
        · left
          unfold nearer
          split <;> omega
        · exact Or.inr hmem

/-- Where the cluster of an entry begins, -/
def ZimFile.clusterPtr (f : ZimFile) (d : Dirent) : Nat := (f.clusterPtrs[d.clusterIndex]?).getD 0

/-- and where an entry does. -/
def ZimFile.urlPtr (f : ZimFile) (i : Nat) : Nat := (f.urlPtrs[i]?).getD 0

/-- Every cluster pointer that is followed leads to a place where something begins. -/
theorem clusterPtr_start (hf : f.LaidOut codec data) {e : ZimEntry} (he : e ∈ f.entries) :
    f.clusterPtrs[e.clusterIndex]? = some (f.clusterPtr e.dirent) ∧ f.clusterPtr e.dirent < 2 ^ 32 ∧
      f.clusterPtr e.dirent ∈ f.starts := by
  obtain ⟨c, hc, _⟩ := hf.blobs e he
  obtain ⟨p, hp, hat, _⟩ := hf.clusters _ c hc
  obtain ⟨hj, _⟩ := List.getElem?_eq_some_iff.mp hc
  have hptr : f.clusterPtr e.dirent = p := congrArg (Option.getD · 0) hp
  rw [hptr]
  refine ⟨hp, hf.place_lt hat (List.cons_ne_nil _ _), List.mem_append_right _ ?_⟩
  exact List.mem_of_getElem? ((List.getElem?_take_of_lt hj).trans hp)

theorem map_urlPtr (hf : f.LaidOut codec data) : (List.range f.entries.length).map f.urlPtr = f.urlPtrs := by
  obtain ⟨hcount, _⟩ := List.forall₂_iff_get.mp hf.entries
  refine List.ext_getElem (by rw [List.length_map, List.length_range, hcount]) fun i hi hi' => ?_
  rw [List.getElem_map, List.getElem_range]
  exact congrArg (Option.getD · 0) (List.getElem?_eq_getElem hi')

/-- The pointer to the cluster of an entry is a bound, -/
theorem boundBy_cluster (hw : 32 ≤ w) (hlen : data.length < 2 ^ (w - 1)) (hf : f.LaidOut codec data) (start : Nat) :
    ∀ d ∈ f.entries.map ZimEntry.dirent, ∀ stop,
      ZimReader.boundBy w data f.clusterPtrPos start stop d.clusterIndex =
        .ok (nearer start stop (f.clusterPtr d)) := by
  intro d hd stop
  obtain ⟨e, he, rfl⟩ := List.mem_map.mp hd
  obtain ⟨hp, hlt, _⟩ := clusterPtr_start hf he
  have hread : ZimReader.tableEntry w data f.clusterPtrPos e.dirent.clusterIndex =
      .ok (some (f.clusterPtr e.dirent)) := tableEntry_at hw hlen hf.clusterPtrs.1 hp hlt
  rw [ZimReader.boundBy, hread, ok_bind]
  rfl

/-- and so is the one to the entry. -/
theorem boundBy_url (hw : 32 ≤ w) (hlen : data.length < 2 ^ (w - 1)) (hf : f.LaidOut codec data) (start : Nat) :
    ∀ i ∈ List.range f.entries.length, ∀ stop,
      ZimReader.boundBy w data f.urlPtrPos start stop i = .ok (nearer start stop (f.urlPtr i)) := by
  intro i hi stop
  obtain ⟨hcount, hentries⟩ := List.forall₂_iff_get.mp hf.entries
  have hi' : i < f.urlPtrs.length := hcount ▸ List.mem_range.mp hi
  have hget := List.getElem?_eq_getElem hi'
  have hlt := hf.place_lt (hentries i hi' (List.mem_range.mp hi)) (by simp [ZimEntry.encode, cstr])
  have hptr : f.urlPtr i = f.urlPtrs[i] := congrArg (Option.getD · 0) hget
  rw [ZimReader.boundBy, tableEntry_at hw hlen hf.urlPtrs hget hlt, ok_bind, hptr]
  rfl

/-- **The bounds find the next place where something begins**, or the end of the file. -/
theorem nearest_start (hf : f.LaidOut codec data) {start stop : Nat} (hlt : start < stop) (hle : stop ≤ data.length)
    (hend : stop = data.length ∨ stop ∈ f.starts) (hout : ∀ q ∈ f.starts, q ≤ start ∨ stop ≤ q) :
    (List.range f.entries.length).foldl (fun bound i => nearer start bound (f.urlPtr i))
      ((f.entries.map ZimEntry.dirent).foldl (fun bound d => nearer start bound (f.clusterPtr d)) data.length) =
      stop := by
  rw [← List.foldl_map (f := f.clusterPtr), ← List.foldl_map (f := f.urlPtr), ← List.foldl_append, map_urlPtr hf]
  refine foldl_nearer hlt hle ?_ ?_
  · intro q hq
    rcases List.mem_append.mp hq with hq | hq
    · obtain ⟨d, hd, rfl⟩ := List.mem_map.mp hq
      obtain ⟨e, he, rfl⟩ := List.mem_map.mp hd
      exact hout _ (clusterPtr_start hf he).2.2
    · exact hout q (List.mem_append_left _ hq)
  · rcases hend with hend | hend
    · exact Or.inl hend.symm
    right
    rcases List.mem_append.mp hend with hurl | hcluster
    · exact List.mem_append_right _ hurl
    · -- a cluster is a bound because some entry refers to it
      obtain ⟨j, hj⟩ := List.mem_iff_getElem?.mp hcluster
      obtain ⟨hjlt, _⟩ := List.getElem?_eq_some_iff.mp hj
      rw [List.length_take] at hjlt
      obtain ⟨e, he, rfl⟩ := hf.referenced j (by omega)
      rw [List.getElem?_take_of_lt (by omega)] at hj
      refine List.mem_append_left _ (List.mem_map.mpr ⟨e.dirent, List.mem_map_of_mem he, ?_⟩)
      exact congrArg (Option.getD · 0) hj

/-- **The end of a cluster is found.** -/
theorem region_laidOut (hw : 32 ≤ w) (hlen : data.length < 2 ^ (w - 1)) (hf : f.LaidOut codec data) (filePath : String)
    {e : ZimEntry} {c : ZimCluster} (hc : f.clusters[e.clusterIndex]? = some c) :
    ∃ p, At data p c.encode ∧ (f.reader filePath data).clusterRegion w f.header e.dirent =
      .ok (some (p, p + c.encode.length)) := by
  obtain ⟨p, hp, hat, hend, hout⟩ := hf.clusters _ c hc
  have hne : c.encode ≠ [] := List.cons_ne_nil _ _
  have hin := hat.inside hne
  have hpos := List.length_pos_of_ne_nil hne
  refine ⟨p, hat, ?_⟩
  have hread : ZimReader.tableEntry w data f.clusterPtrPos e.dirent.clusterIndex = .ok (some p) :=
    tableEntry_at hw hlen hf.clusterPtrs.1 hp (hf.place_lt hat hne)
  unfold ZimReader.clusterRegion
  rw [show (f.reader filePath data).data = data from rfl,
    show (f.reader filePath data).dirents = f.entries.map ZimEntry.dirent from rfl, List.length_map,
    show f.header.clusterPtrPos = f.clusterPtrPos from rfl, show f.header.urlPtrPos = f.urlPtrPos from rfl,
    hread, ok_bind]
  dsimp only
  rw [if_neg (by omega), foldlM_eq_ok (boundBy_cluster hw hlen hf p), ok_bind,
    foldlM_eq_ok (boundBy_url hw hlen hf p), ok_bind, nearest_start hf (by omega) hin hend hout]

/-! ## The blobs of a cluster -/

/-- The blobs as they are read, from an offset on. -/
def rawBlobs : Nat → List Bytes → List BlobRaw
  | _, [] => []
  | off, b :: bs => ⟨off, b.length, b⟩ :: rawBlobs (off + (4 + b.length)) bs

theorem length_encodeBlob (b : Bytes) : (encodeBlob b).length = 4 + b.length := by
  rw [encodeBlob, List.length_append, length_leBytes]

theorem sizeAt_of_at {p n : Nat} (h : At data p (leBytes 4 n)) (hn : n < 2 ^ 32) : sizeAt data p = n := by
  have htake := List.prefix_iff_eq_take.mp h
  rw [length_leBytes] at htake
  rw [sizeAt, ← htake, ofLe_leBytes hn]

/-- A blob as it is recorded, with 32 bits of its offset. -/
def BlobRaw.recorded (b : BlobRaw) : BlobRaw := { b with offsetInCluster := asU32 b.offsetInCluster }

/-- What begins in the first `2 ^ 32` bytes is recorded as it is. -/
theorem map_recorded {bs : List BlobRaw} (h : ∀ b ∈ bs, b.offsetInCluster < 2 ^ 32) :
    bs.map BlobRaw.recorded = bs := by
  refine (List.map_congr_left fun b hb => ?_).trans (List.map_id bs)
  rw [BlobRaw.recorded, asU32, Nat.mod_eq_of_lt (h b hb)]
  rfl

/-- **The blobs are read back.** -/
theorem walk_laidOut (hw : 32 ≤ w) (hlen : data.length < 2 ^ (w - 1)) {start stop : Nat} (hstop : stop ≤ data.length)
    {bs : List Bytes} {fuel pos : Nat} (acc : List BlobRaw) (hpos : start ≤ pos) (hsizes : ∀ b ∈ bs, b.length < 2 ^ 32)
    (h : At data pos (bs.flatMap encodeBlob)) (hend : pos + (bs.flatMap encodeBlob).length = stop)
    (hfuel : bs.length < fuel) :
    loop (blobStep w data start stop) fuel (pos, acc) = .ok (acc ++ (rawBlobs (pos - start) bs).map .recorded) := by
  obtain ⟨hdouble, _⟩ := two_pow_half hw
  induction bs generalizing fuel pos acc with
  | nil =>
    obtain ⟨fuel, rfl⟩ : ∃ k, fuel = k + 1 := ⟨fuel - 1, by omega⟩
    rw [rawBlobs, List.map_nil, List.append_nil]
    refine loop_done (if_neg ?_)
    rw [List.flatMap_nil, List.length_nil] at hend
    omega
  | cons b bs ih =>
    obtain ⟨fuel, rfl⟩ : ∃ k, fuel = k + 1 := ⟨fuel - 1, by omega⟩
    obtain ⟨hsizeb, hsizes⟩ := List.forall_mem_cons.mp hsizes
    rw [List.flatMap_cons] at h hend
    obtain ⟨hblob, hrest⟩ := at_append.mp h
    rw [List.length_append, length_encodeBlob] at hend
    rw [length_encodeBlob] at hrest
    obtain ⟨hsizeAt, hpayload⟩ := at_append.mp hblob
    rw [length_leBytes] at hpayload
    have hsize : sizeAt data pos = b.length := sizeAt_of_at hsizeAt hsizeb
    have hbytes : (data.drop (pos + 4)).take b.length = b := (List.prefix_iff_eq_take.mp hpayload).symm
    have hcases := blobStep_cases hw hlen hstop start pos acc
    rw [hsize, hbytes] at hcases
    rcases hcases with ⟨hover, _⟩ | ⟨_, hover, _⟩ | ⟨_, _, hover, _⟩ | ⟨_, hover, _⟩ | ⟨_, hstep⟩
    · omega
    · omega
    · omega
    · omega
    · rw [loop_again hstep, ih _ (by omega) hsizes (by rwa [Nat.add_assoc]) (by omega)
        (by rw [List.length_cons] at hfuel; omega), List.append_assoc, rawBlobs]
      rw [show pos + 4 + b.length - start = pos - start + (4 + b.length) by omega]
      rfl

/-- The blob at an offset is the one that was laid out there. -/
theorem find_rawBlobs (payload : Bytes) (after : List Bytes) : ∀ (off : Nat) (before : List Bytes),
    ((rawBlobs off (before ++ payload :: after)).find? fun b =>
      b.offsetInCluster = off + (before.flatMap encodeBlob).length) =
      some ⟨off + (before.flatMap encodeBlob).length, payload.length, payload⟩
  | off, [] => by
    rw [List.nil_append, rawBlobs, List.flatMap_nil, List.length_nil, Nat.add_zero]
    exact List.find?_cons_of_pos (decide_eq_true rfl)
  | off, b :: before => by
    have ih := find_rawBlobs payload after (off + (4 + b.length)) before
    have hlen := length_encodeBlob b
    rw [List.flatMap_cons, List.length_append, hlen, ← Nat.add_assoc off, List.cons_append, rawBlobs,
      List.find?_cons_of_neg (by rw [decide_eq_true_iff]; dsimp only; omega), ih]

theorem encodeBlob_length_le (bs : List Bytes) : bs.length ≤ (bs.flatMap encodeBlob).length := by
  induction bs with
  | nil => exact Nat.le_refl 0
  | cons b bs ih =>
    rw [List.flatMap_cons, List.length_append, length_encodeBlob, List.length_cons]
    omega

/-- Where the blobs are: behind one another, each with the bytes that were laid out. -/
theorem rawBlobs_within {off : Nat} {bs : List Bytes} {b : BlobRaw} (h : b ∈ rawBlobs off bs) :
    off ≤ b.offsetInCluster ∧ b.offsetInCluster + (encodeBlob b.data).length ≤
      off + (bs.flatMap encodeBlob).length := by
  induction bs generalizing off with
  | nil => cases h
  | cons p bs ih =>
    have hp := length_encodeBlob p
    rw [List.flatMap_cons, List.length_append]
    rcases List.mem_cons.mp h with rfl | h
    · dsimp only
      omega
    · have hrest := ih h
      omega

/-- **A cluster is read back**, with 32 bits of each offset. -/
theorem cluster_recorded (hw : 32 ≤ w) (hlen : data.length < 2 ^ (w - 1)) {p fuel : Nat} {c : ZimCluster}
    (hcode : c.code = compNone ∨ c.code = compLz4 ∨ c.code = compZstd) (hsizes : ∀ b ∈ c.blobs, b.length < 2 ^ 32)
    (h : At data p c.encode) (hfuel : data.length < fuel) :
    parseCluster w data p (p + c.encode.length) fuel = .ok (c.code, (rawBlobs 1 c.blobs).map .recorded) := by
  have hin := h.inside (List.cons_ne_nil _ _)
  obtain ⟨hfirst, hblobs⟩ := at_cons.mp h
  have hlength : c.encode.length = (c.blobs.flatMap encodeBlob).length + 1 := List.length_cons
  have hcount := encodeBlob_length_le c.blobs
  have hcount : c.blobs.length < fuel := by omega
  have hwalk := walk_laidOut hw hlen hin [] (Nat.le_add_right p 1) hsizes hblobs (by omega) hcount
  rw [Nat.add_sub_cancel_left, List.nil_append] at hwalk
  rw [parseCluster_eq hw hlen (by omega) hin (by omega) hfirst hcode, hwalk]
  rfl

/-- A cluster of a short file is read back. -/
theorem cluster_laidOut (hw : 32 ≤ w) (hlen : data.length < 2 ^ (w - 1)) (hsmall : data.length < 2 ^ 32) {p fuel : Nat}
    {c : ZimCluster} (hcode : c.code = compNone ∨ c.code = compLz4 ∨ c.code = compZstd) (h : At data p c.encode)
    (hfuel : data.length < fuel) :
    parseCluster w data p (p + c.encode.length) fuel = .ok (c.code, rawBlobs 1 c.blobs) := by
  have hin := h.inside (List.cons_ne_nil _ _)
  have hlength : c.encode.length = (c.blobs.flatMap encodeBlob).length + 1 := List.length_cons
  have hsizes : ∀ b ∈ c.blobs, b.length < 2 ^ 32 := by
    intro b hb
    have hle := (List.sublist_flatten_of_mem (List.mem_map_of_mem (f := encodeBlob) hb)).length_le
    rw [length_encodeBlob, ← List.flatMap_def] at hle
    omega
  have hoffsets : ∀ b ∈ rawBlobs 1 c.blobs, b.offsetInCluster < 2 ^ 32 := by
    intro b hb
    have hwithin := (rawBlobs_within hb).2
    omega
  rw [cluster_recorded hw hlen hcode hsizes h hfuel, map_recorded hoffsets]

/-! ## The LZ4 blocks -/

/-- **The length of a block is what it decodes to.** -/
theorem lz4_encode (hw : 32 ≤ w) {block : Lz4Block} {content : Bytes} (hlen : block.encode.length < 2 ^ (w - 1))
    (hvalid : ∀ s ∈ block.sequences, s.Valid) (hdecode : block.decode = some content)
    (hcontent : content.length < 2 ^ 32) {fuel : Nat} (hfuel : block.encode.length < fuel) :
    lz4BlockDecodedSize w block.encode fuel = .ok content.length := by
  have hword : 2 ^ 32 ≤ 2 ^ w := Nat.pow_le_pow_right (by decide) hw
  exact measure_decoded hw hlen (decodes_encode hvalid hdecode) (by omega) (Nat.le_of_lt hfuel)

/-- **A blob is decompressed.** -/
theorem decompress_stored (hw : 32 ≤ w) {code : UInt8} {content payload : Bytes}
    (hpayload : payload.length < 2 ^ (w - 1)) (hcontent : content.length < 2 ^ 32) {fuel : Nat}
    (hfuel : payload.length < fuel) (h : Stored codec content code payload) :
    decompress w codec code payload content.length fuel = .ok content := by
  cases h with
  | plain =>
    rw [decompress, if_pos rfl, failIf_neg _ (not_not.mpr rfl)]
    rfl
  | zstd hzstd =>
    rw [decompress, if_neg (by decide), if_neg (by decide), if_pos rfl, hzstd, okOr, ok_bind,
      failIf_neg _ (not_not.mpr rfl)]
    rfl
  | lz4 hvalid hdecode hlz4 =>
    rw [decompress, if_neg (by decide), if_pos rfl, decompressLz4, lz4_encode hw hpayload hvalid hdecode hcontent hfuel,
      ok_bind, failIf_neg _ (not_not.mpr rfl), ok_bind, hlz4]
    rfl

/-! ## The articles -/

/-- **The content of every entry is decoded.** -/
theorem content_laidOut (hw : 32 ≤ w) (hlen : data.length < 2 ^ (w - 1)) (hf : f.LaidOut codec data) (filePath : String)
    {e : ZimEntry} (he : e ∈ f.entries) {fuel : Nat} (hfuel : data.length < fuel) :
    (f.reader filePath data).decodeContent w codec e.dirent fuel = .ok e.content := by
  obtain ⟨c, hc, before, payload, after, hblobs, hoffset, hstored⟩ := hf.blobs e he
  obtain ⟨p, hat, hregion⟩ := region_laidOut hw hlen hf filePath hc
  have hcode := hf.wellFormed.codes c (List.mem_of_getElem? hc)
  have hcluster := cluster_laidOut hw hlen hf.small hcode hat hfuel
  have hin := hat.inside (List.cons_ne_nil _ _)
  have hpayload : payload.length ≤ data.length := by
    rw [ZimCluster.encode, hblobs, List.length_cons, List.flatMap_append, List.length_append, List.flatMap_cons,
      List.length_append, length_encodeBlob] at hin
    omega
  have hfind := find_rawBlobs payload after 1 before
  rw [← hblobs, ← hoffset] at hfind
  have hfound : ((rawBlobs 1 c.blobs).find? fun b => b.offsetInCluster = e.dirent.blobOffsetInCluster) =
      some ⟨e.blobOffset, payload.length, payload⟩ := hfind
  have hlong : payload.length < fuel := by omega
  have hdecompress := decompress_stored hw (by omega) (hf.wellFormed.entries e he).2.2.2 hlong hstored
  have hread : ZimReader.readBlob w codec data e.dirent (p, p + c.encode.length) fuel = .ok e.content := by
    rw [ZimReader.readBlob, hcluster, ok_bind, hfound]
    exact hdecompress
  rw [decodeContent_eq w codec (h := f.header) rfl]
  dsimp only
  rw [hregion, ok_bind]
  dsimp only [ZimFile.reader]
  rw [hread]
  rfl

/-- Only the byte of `A` is read as it. -/
theorem charA_iff (b : UInt8) : Char.ofNat b.toNat = 'A' ↔ b = 0x41 := by
  have hb := b.toNat_lt
  constructor
  · intro h
    have hvalid : b.toNat.isValidChar := Or.inl (by omega)
    have hnum := congrArg Char.toNat h
    rw [Char.ofNat, dif_pos hvalid] at hnum
    exact UInt8.toNat_inj.mp hnum
  · rintro rfl
    rfl

/-- **Every article is found, and nothing else.** The file is loaded, and then each url gives the article of the first
entry that has it, with its content, MIME type and title, and any other url gives none. On 32 bits a vector of that many
entries must be possible at all. -/
theorem zim_end_to_end (hw : 32 ≤ w) (b : Buffer w) (hf : f.LaidOut codec b.bytes)
    (hroom : w < 64 → DirentsFit w f.articleCount) (r : ZimReader) {fuel : Nat} (hfuel : b.bytes.length < fuel) :
    ∃ reader, r.loadIndex w (.ok b.bytes) fuel = (.ok (), reader) ∧
      ∀ url, reader.getArticle w codec url fuel = .ok (f.article url) := by
  refine ⟨_, loadIndex_laidOut hw b.length_lt hf (hf.room hroom) r hfuel, fun url => ?_⟩
  have hidx : ((f.reader r.filePath b.bytes).dirents.findIdx? fun d => d.url = url) =
      f.entries.findIdx? fun e => e.url = url := List.findIdx?_map
  unfold ZimReader.getArticle
  rw [hidx, if_neg (show ¬(!(f.reader r.filePath b.bytes).loaded) = true from Bool.false_ne_true)]
  cases hfound : f.entries.findIdx? fun e => e.url = url with
  | none =>
    rw [ZimFile.article, hfound]
    rfl
  | some idx =>
    obtain ⟨hlt, _⟩ := List.findIdx?_eq_some_iff_getElem.mp hfound
    have hget := List.getElem?_eq_getElem hlt
    have hmem := List.getElem_mem hlt
    have hcount := hf.count_lt
    have hsmall : asU32 idx = idx := Nat.mod_eq_of_lt (Nat.lt_trans hlt hcount)
    have hdirent : (f.reader r.filePath b.bytes).dirents[idx]? = some f.entries[idx].dirent := by
      show (f.entries.map ZimEntry.dirent)[idx]? = _
      rw [List.getElem?_map, hget]
      rfl
    have hcontent := content_laidOut hw b.length_lt hf r.filePath hmem hfuel
    have hmime : (f.reader r.filePath b.bytes).mimeTypes[f.entries[idx].dirent.mimeIndex]? =
      some f.entries[idx].mimeType := hf.mimes _ hmem
    have harticle : f.article url = some ⟨f.entries[idx].url, f.entries[idx].title, f.entries[idx].mimeType,
        f.entries[idx].content, f.entries[idx].content.length, f.entries[idx].namespace_ = 0x41 ∧ idx = 0,
        Char.ofNat f.entries[idx].namespace_.toNat, idx⟩ := by
      rw [ZimFile.article, hfound]
      show (f.entries[idx]?).bind _ = _
      rw [hget]
      rfl
    dsimp only
    rw [elemAt_eq_ok.mpr hdirent, ok_bind, ZimReader.buildArticle, hcontent, ok_bind, ok_bind, hmime, hsmall, harticle]
    simp only [ZimEntry.dirent, charA_iff]
    rfl

/-! ## A file -/

/-- Three entries, two of them with one url, in two clusters that lie between them. -/
def knownZim : ZimFile where
  majorVersion := 6
  minorVersion := 3
  uuid := List.replicate 16 0
  headerSize := 80
  mediaCount := 0
  creator := ""
  publisher := ""
  title := ""
  description := ""
  language := "fr"
  mimeTypes := ["text/html", "", ""]
  entries :=
    [⟨"A/a", "a", 0x41, 0, 0, 1, "text/html", [0x61]⟩, ⟨"A/b", "b", 0x41, 0, 1, 1, "text/html", [0x4f, 0x4b]⟩,
      ⟨"A/a", "c", 0x41, 0, 0, 6, "text/html", [0x62, 0x63]⟩]
  clusters := [⟨compNone, [[0x61], [0x62, 0x63]]⟩, ⟨compLz4, [[0x20, 0x4f, 0x4b]]⟩]
  clusterPtrs := [112, 145, 0]
  urlPtrs := [91, 124, 153]
  titlePtrs := [91, 124, 153]

def knownZimBytes : Bytes :=
  knownZim.encodeHeader ++ knownZim.mimeTypes.flatMap cstr ++ pointerTable knownZim.clusterPtrs ++
    pointerTable knownZim.urlPtrs ++ pointerTable knownZim.titlePtrs ++
    ZimEntry.encode ⟨"A/a", "a", 0x41, 0, 0, 1, "text/html", [0x61]⟩ ++
    ZimCluster.encode ⟨compNone, [[0x61], [0x62, 0x63]]⟩ ++
    ZimEntry.encode ⟨"A/b", "b", 0x41, 0, 1, 1, "text/html", [0x4f, 0x4b]⟩ ++
    ZimCluster.encode ⟨compLz4, [[0x20, 0x4f, 0x4b]]⟩ ++
    ZimEntry.encode ⟨"A/a", "c", 0x41, 0, 0, 6, "text/html", [0x62, 0x63]⟩

/-- A decompressor of the block of `OK`. -/
def knownCodec : Codec where
  zstdDecodeAll _ := none
  lz4FlexDecompress src n := if src = [0x20, 0x4f, 0x4b] ∧ n = 2 then some [0x4f, 0x4b] else none

theorem knownZim_laidOut : knownZim.LaidOut knownCodec knownZimBytes where
  wellFormed := ⟨by decide, by decide, by decide, by decide, by decide, by decide +kernel, by decide +kernel,
    by decide +kernel, by decide⟩
  small := by decide +kernel
  header := by decide +kernel
  mimeTypes := by decide +kernel
  mimeLength := by decide +kernel
  clusterPtrs := by decide +kernel
  urlPtrs := by decide +kernel
  titlePtrs := by decide +kernel
  entries := .cons (by decide +kernel) (.cons (by decide +kernel) (.cons (by decide +kernel) .nil))
  clusters j c hc := by
    match j, hc with
    | 0, rfl => exact ⟨112, rfl, by decide +kernel, by decide +kernel, by decide +kernel⟩
    | 1, rfl => exact ⟨145, rfl, by decide +kernel, by decide +kernel, by decide +kernel⟩
    | j + 2, hc => cases hc
  referenced := by decide
  mimes := by decide
  blobs := by
    have hplain : ∀ content, Stored knownCodec content compNone content := fun content => .plain
    have hlz4 : Stored knownCodec [0x4f, 0x4b] compLz4 (Lz4Block.encode ⟨[], [0x4f, 0x4b]⟩) :=
      .lz4 (by decide) (by decide) (by decide)
    refine List.forall_mem_cons.mpr ⟨?_, List.forall_mem_cons.mpr ⟨?_, List.forall_mem_cons.mpr ⟨?_, ?_⟩⟩⟩
    · exact ⟨_, rfl, [], [0x61], [[0x62, 0x63]], rfl, rfl, hplain _⟩
    · exact ⟨_, rfl, [], [0x20, 0x4f, 0x4b], [], rfl, rfl, hlz4⟩
    · exact ⟨_, rfl, [[0x61]], [0x62, 0x63], [], rfl, rfl, hplain _⟩
    · exact fun e he => absurd he List.not_mem_nil

/-- The first of the entries with one url is found, and no other url is. -/
theorem zim_end_to_end_known : ∃ reader,
    (ZimReader.opened "wiki.zim").loadIndex 64 (.ok knownZimBytes) 200 = (.ok (), reader) ∧
      reader.getArticle 64 knownCodec "A/a" 200 = .ok (some ⟨"A/a", "a", "text/html", [0x61], 1, true, 'A', 0⟩) ∧
      reader.getArticle 64 knownCodec "A/c" 200 = .ok none := by
  have hfuel : knownZimBytes.length < 200 := by decide +kernel
  obtain ⟨reader, hload, hget⟩ := zim_end_to_end (w := 64) (by decide) ⟨knownZimBytes, by decide +kernel⟩
    knownZim_laidOut (fun h => absurd h (by decide)) (.opened "wiki.zim") hfuel
  exact ⟨reader, hload, (hget "A/a").trans (by decide +kernel), (hget "A/c").trans (by decide +kernel)⟩

end Onde.Zim
