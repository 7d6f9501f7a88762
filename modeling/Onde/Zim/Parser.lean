import Onde.Lib.Outcome
import Onde.Lib.Utf8

/-!
# Reading a ZIM file

The parser of ZIM files on a machine whose sizes have `w` bits and wrap.

* `ZimHeader.parse`: the header, five texts and the places of the tables;
* `Dirent.parse`: a directory entry;
* `parseCluster`: the blobs of a cluster (`blobStep`); `decompress`: a blob, where `lz4BlockDecodedSize` walks the
  sequences of an LZ4 block first (`lz4Step`);
* `ZimReader.loadIndex`, `ZimReader.getArticle`: the index of a file and its articles.
-/

namespace Onde.Zim

open Lib Outcome

inductive ZimError where
  | invalidMagic
  | badVersion (v : Nat)
  | truncatedHeader
  | outOfBounds (offset len : Nat)
  | io (err : String)
  | unknownCompression (code : UInt8)
  | shortDecompression
  | badMimeIndex (i : Nat)
  deriving DecidableEq

abbrev Result := Outcome ZimError

/-- A size stored in 32 bits. -/
def asU32 (n : Nat) : Nat := n % 2 ^ 32

/-- The little-endian number in the `n` bytes at `p`. -/
def readLe (n w : Nat) (data : Bytes) (p : Nat) : Result Nat := do
  let bs ← okOr (getRange data p (wadd w p n)) .truncatedHeader
  failIf (bs.length ≠ n) (.outOfBounds (asU32 p) (asU32 data.length))
  wordAt bs 0 n

def readU16 : Nat → Bytes → Nat → Result Nat := readLe 2

def readU32 : Nat → Bytes → Nat → Result Nat := readLe 4

/-- Where the first zero byte is. -/
def findNul (bs : Bytes) : Option Nat := bs.findIdx? (· == 0)

/-! ## The header -/

structure ZimHeader where
  majorVersion : Nat
  minorVersion : Nat
  uuid : Bytes
  headerSize : Nat
  articleCount : Nat
  mediaCount : Nat
  creator : String
  publisher : String
  title : String
  description : String
  language : String
  mimeListPos : Nat
  clusterPtrPos : Nat
  urlPtrPos : Nat
  titlePtrPos : Nat
  deriving DecidableEq

/-- A text up to its zero byte, and the place after it. -/
def readCstr (w : Nat) (data : Bytes) (start : Nat) : Result (String × Nat) := do
  let rest ← sliceFrom data start
  let i ← okOr (findNul rest) .truncatedHeader
  let bs ← slice data start (wadd w start i)
  pure (fromUtf8Lossy bs, wadd w (wadd w start i) 1)

/-- The end of a table; the sum of 64 bits does not wrap. -/
def tableEnd (data : Bytes) (articleCount pos : Nat) : Result Nat := do
  let stop := pos + articleCount * 4
  failIf (data.length < stop ∨ 2 ^ 32 - 1 < stop) (.outOfBounds (min pos (2 ^ 32 - 1)) (asU32 data.length))
  pure stop

/-- `KIM` and a zero byte. -/
def zimMagic : Bytes := [0x4b, 0x49, 0x4d, 0x00]

def ZimHeader.parse (w : Nat) (data : Bytes) : Result ZimHeader := do
  let magic ← okOr (getRange data 0 4) .truncatedHeader
  failIf (magic.length ≠ 4) .truncatedHeader
  failIf (magic ≠ zimMagic) .invalidMagic
  let ver ← okOr (getRange data 4 8) .truncatedHeader
  failIf (ver.length ≠ 4) .truncatedHeader
  let major ← wordAt ver 0 2
  let minor ← wordAt ver 2 2
  failIf (6 < major) (.badVersion major)
  let uuid ← okOr (getRange data 8 24) .truncatedHeader
  failIf (uuid.length ≠ 16) .truncatedHeader
  let fixed ← okOr (getRange data 24 36) .truncatedHeader
  failIf (fixed.length ≠ 12) .truncatedHeader
  let headerSize ← wordAt fixed 0 4
  let articleCount ← wordAt fixed 4 4
  let mediaCount ← wordAt fixed 8 4
  let creator ← readCstr w data 36
  let publisher ← readCstr w data creator.2
  let title ← readCstr w data publisher.2
  let description ← readCstr w data title.2
  let language ← readCstr w data description.2
  let mimeListPos := asU32 language.2
  let clusterPtrPos ← tableEnd data articleCount mimeListPos
  let urlPtrPos ← tableEnd data articleCount clusterPtrPos
  let titlePtrPos ← tableEnd data articleCount urlPtrPos
  pure ⟨major, minor, uuid, headerSize, articleCount, mediaCount, creator.1, publisher.1, title.1, description.1,
    language.1, mimeListPos, clusterPtrPos, urlPtrPos, titlePtrPos⟩

/-! ## The directory entries -/

structure Dirent where
  url : String
  title : String
  namespace_ : Char
  mimeIndex : Nat
  clusterIndex : Nat
  blobOffsetInCluster : Nat
  blobSize : Nat
  deriving DecidableEq

/-- The bytes of an entry in memory: two texts of three words, a character, three numbers of four bytes and one of two,
up to a multiple of a word. -/
def direntSize (w : Nat) : Nat := (6 * (w / 8) + 18 + (w / 8 - 1)) / (w / 8) * (w / 8)

/-- A text without the zero characters at both ends. -/
def trimNul (s : String) : String :=
  String.ofList ((s.toList.dropWhile (· == '\x00')).reverse.dropWhile (· == '\x00')).reverse

/-- A text of an entry, and where its zero byte is. -/
def direntText (w : Nat) (data : Bytes) (start : Nat) : Result (String × Nat) := do
  let rest ← sliceFrom data start
  let i ← okOr (findNul rest) .truncatedHeader
  failIf (data.length ≤ wadd w start i) (.outOfBounds (asU32 start) (asU32 data.length))
  let bs ← slice data start (wadd w start i)
  pure (trimNul (fromUtf8Lossy bs), wadd w start i)

def Dirent.parse (w : Nat) (data : Bytes) (off : Nat) : Result Dirent := do
  failIf (data.length ≤ off) (.outOfBounds (asU32 off) (asU32 data.length))
  let url ← direntText w data off
  let title ← direntText w data (wadd w url.2 1)
  let nsOff := wadd w title.2 1
  let ns ← okOr data[nsOff]? .truncatedHeader
  let q := wadd w nsOff 1
  let mimeIndex ← readU16 w data q
  let q := wadd w q 2
  let clusterIndex ← readU32 w data q
  let q := wadd w q 4
  let blobOffset ← readU32 w data q
  let q := wadd w q 4
  let blobSize ← readU32 w data q
  let q := wadd w q 4
  failIf (data.length < q) (.outOfBounds (asU32 q) (asU32 data.length))
  pure ⟨url.1, title.1, Char.ofNat ns.toNat, mimeIndex, clusterIndex, blobOffset, blobSize⟩

/-! ## The clusters -/

def compNone : UInt8 := 0x31
def compLz4 : UInt8 := 0x34
def compZstd : UInt8 := 0x35

/-- A blob as it is in its cluster, at the offset of its size field. -/
structure BlobRaw where
  offsetInCluster : Nat
  size : Nat
  data : Bytes
  deriving DecidableEq

/-- Read the blob at a place, unless the cluster ends there. -/
def blobStep (w : Nat) (data : Bytes) (clusterStart clusterEnd : Nat) (s : Nat × List BlobRaw) :
    Result ((Nat × List BlobRaw) ⊕ List BlobRaw) :=
  if s.1 < clusterEnd then do
    failIf (clusterEnd < wadd w s.1 4) .truncatedHeader
    let size ← readU32 w data s.1
    let dataStart := wadd w s.1 4
    let dataEnd := wadd w dataStart size
    failIf (clusterEnd < dataEnd) (.outOfBounds (asU32 dataEnd) (asU32 data.length))
    let payload ← slice data dataStart dataEnd
    pure (.inl (dataEnd, s.2 ++ [⟨asU32 (s.1 - clusterStart), size, payload⟩]))
  else pure (.inr s.2)

def parseCluster (w : Nat) (data : Bytes) (clusterStart clusterEnd fuel : Nat) : Result (UInt8 × List BlobRaw) := do
  failIf (data.length ≤ clusterStart ∨ data.length < clusterEnd ∨ clusterEnd < wadd w clusterStart 1)
    (.outOfBounds (asU32 clusterStart) (asU32 data.length))
  let code ← okOr data[clusterStart]? .truncatedHeader
  failIf (code ≠ compNone ∧ code ≠ compLz4 ∧ code ≠ compZstd) (.unknownCompression code)
  let blobs ← loop (blobStep w data clusterStart clusterEnd) fuel (wadd w clusterStart 1, [])
  pure (code, blobs)

/-- Add bytes from a place on up to and with the first that is not 255. -/
def lsic (w : Nat) : Bytes → Nat → Nat → Result (Nat × Nat)
  | [], _, _ => .error .shortDecompression
  | b :: bs, n, pos => if b ≠ 0xff then .ok (wadd w n b.toNat, wadd w pos 1)
    else lsic w bs (wadd w n b.toNat) (wadd w pos 1)

def readLz4Integer (w : Nat) (src : Bytes) (pos : Nat) : Result (Nat × Nat) := lsic w (src.drop pos) 0 pos

/-- A length: a nibble, and more bytes if the nibble is full. -/
def readLength (w : Nat) (src : Bytes) (base full pos : Nat) : Result (Nat × Nat) :=
  if base = full then do
    let more ← readLz4Integer w src pos
    pure (wadd w base more.1, more.2)
  else pure (base, pos)

/-- The sequence at a place: the length of the last one, or the place of the next one with the length of this one. -/
def lz4Sequence (w : Nat) (src : Bytes) (pos : Nat) : Result ((Nat × Nat) ⊕ Nat) := do
  let token ← okOr src[pos]? .shortDecompression
  let literal ← readLength w src (token.toNat / 16) 15 (wadd w pos 1)
  failIf (src.length < wadd w literal.2 literal.1) .shortDecompression
  let pos := wadd w literal.2 literal.1
  if src.length - 1 ≤ pos then pure (.inr literal.1)
  else do
    failIf (src.length < wadd w pos 2) .shortDecompression
    let copied ← readLength w src (4 + token.toNat % 16) 19 (wadd w pos 2)
    pure (.inl (copied.2, wadd w literal.1 copied.1))

/-- Walk a sequence and add its length. -/
def lz4Step (w : Nat) (src : Bytes) (s : Nat × Nat) : Result ((Nat × Nat) ⊕ Nat) := do
  match ← lz4Sequence w src s.1 with
  | .inl next => pure (.inl (next.1, wadd w s.2 next.2))
  | .inr last => pure (.inr (wadd w s.2 last))

/-- How many bytes a block decodes to. -/
def lz4BlockDecodedSize (w : Nat) (src : Bytes) (fuel : Nat) : Result Nat := loop (lz4Step w src) fuel (0, 0)

/-- The decompressors, which return bytes or refuse. -/
structure Codec where
  zstdDecodeAll : Bytes → Option Bytes
  lz4FlexDecompress : Bytes → Nat → Option Bytes

def decompressLz4 (w : Nat) (codec : Codec) (src : Bytes) (expected fuel : Nat) : Result Bytes := do
  let size ← lz4BlockDecodedSize w src fuel
  failIf (size ≠ expected) .shortDecompression
  okOr (codec.lz4FlexDecompress src expected) .shortDecompression

/-- Decompress a blob that must give `expectedSize` bytes. -/
def decompress (w : Nat) (codec : Codec) (code : UInt8) (src : Bytes) (expectedSize fuel : Nat) : Result Bytes :=
  if code = compNone then do
    failIf (src.length ≠ expectedSize) .shortDecompression
    pure src
  else if code = compLz4 then decompressLz4 w codec src expectedSize fuel
  else if code = compZstd then do
    let out ← okOr (codec.zstdDecodeAll src) .shortDecompression
    failIf (out.length ≠ expectedSize) .shortDecompression
    pure out
  else .error (.unknownCompression code)

/-! ## The reader -/

structure ZimArticle where
  url : String
  title : String
  mimeType : String
  content : Bytes
  contentSize : Nat
  isMain : Bool
  namespace_ : Char
  index : Nat
  deriving DecidableEq

structure ZimReader where
  filePath : String
  header : Option ZimHeader
  loaded : Bool
  data : Bytes
  dirents : List Dirent
  mimeTypes : List String

namespace ZimReader

/-- A reader of a file that is there. -/
def opened (filePath : String) : ZimReader := ⟨filePath, none, false, [], [], []⟩

/-- Read the next text of the MIME list, which ends where the table of the clusters begins. -/
def mimeStep (w : Nat) (data : Bytes) (stop : Nat) (s : Nat × List String) :
    Result ((Nat × List String) ⊕ List String) :=
  if s.1 < stop then do
    let rest ← sliceFrom data s.1
    match findNul rest with
    | some i => do
      let bs ← slice data s.1 (wadd w s.1 i)
      pure (.inl (wadd w s.1 (wadd w i 1), s.2 ++ [fromUtf8Lossy bs]))
    | none => pure (.inr s.2)
  else pure (.inr s.2)

/-- The entry of an article, through the table of the urls. -/
def direntAt (w : Nat) (data : Bytes) (h : ZimHeader) (i : Nat) : Result Dirent := do
  let base := wadd w h.urlPtrPos (wmul w i 4)
  failIf (data.length < wadd w base 4) (.outOfBounds (asU32 base) (asU32 data.length))
  let off ← wordAt data base 4
  Dirent.parse w data off

/-- Go on with the value of a call, or stop with the state as it is. -/
def proceed {α β : Type} (m : Result α) (r : ZimReader) (k : α → Result β × ZimReader) : Result β × ZimReader :=
  match m with
  | .ok a => k a
  | .error err => (.error err, r)
  | .panic => (.panic, r)
  | .running => (.running, r)

/-- Read the header, the MIME list and the entries of the file. -/
def loadIndex (w : Nat) (r : ZimReader) (file : Except String Bytes) (fuel : Nat) : Result Unit × ZimReader :=
  match file with
  | .error err => (.error (.io err), r)
  | .ok data => proceed (ZimHeader.parse w data) r fun h =>
    let r := { r with header := some h, data := data }
    proceed (loop (mimeStep w data h.clusterPtrPos) fuel (h.mimeListPos, [])) r fun mimeTypes =>
      let r := { r with mimeTypes := mimeTypes }
      proceed (withCapacity w (direntSize w) h.articleCount) r fun _ =>
        proceed ((List.range h.articleCount).mapM (direntAt w data h)) r fun dirents =>
          (.ok (), { r with dirents := dirents, loaded := true })

/-- A word of a table of pointers. -/
def tableEntry (w : Nat) (data : Bytes) (table i : Nat) : Outcome Empty (Option Nat) :=
  let base := wadd w table (wmul w i 4)
  if data.length < wadd w base 4 then .ok none
  else do
    let off ← wordAt data base 4
    .ok (some off)

/-- A region from `start` on ends at the latest where the pointer leads. -/
def boundBy (w : Nat) (data : Bytes) (table start stop i : Nat) : Outcome Empty Nat := do
  match ← tableEntry w data table i with
  | some off => .ok (if start < off ∧ off < stop then off else stop)
  | none => .ok stop

/-- Where the cluster of an entry begins and ends: at the next cluster, the next entry or the end of the file. -/
def clusterRegion (w : Nat) (r : ZimReader) (h : ZimHeader) (d : Dirent) : Outcome Empty (Option (Nat × Nat)) := do
  match ← tableEntry w r.data h.clusterPtrPos d.clusterIndex with
  | none => .ok none
  | some start =>
    if r.data.length ≤ start then .ok none
    else do
      let stop ← r.dirents.foldlM (fun stop d₂ => boundBy w r.data h.clusterPtrPos start stop d₂.clusterIndex)
        r.data.length
      let stop ← (List.range r.dirents.length).foldlM (boundBy w r.data h.urlPtrPos start) stop
      .ok (some (start, stop))

/-- The blob of an entry in the region of its cluster. -/
def readBlob (w : Nat) (codec : Codec) (data : Bytes) (d : Dirent) (region : Nat × Nat) (fuel : Nat) :
    Result Bytes := do
  let cluster ← parseCluster w data region.1 region.2 fuel
  match cluster.2.find? fun b => b.offsetInCluster = d.blobOffsetInCluster with
  | some b => decompress w codec cluster.1 b.data d.blobSize fuel
  | none => pure []

/-- The content of an entry, empty if it cannot be read. -/
def decodeContent (w : Nat) (codec : Codec) (r : ZimReader) (d : Dirent) (fuel : Nat) : Outcome Empty Bytes :=
  match r.header with
  | none => .ok []
  | some h => do
    match ← r.clusterRegion w h d with
    | none => .ok []
    | some region => (readBlob w codec r.data d region fuel).orDefault []

def buildArticle (w : Nat) (codec : Codec) (r : ZimReader) (idx : Nat) (d : Dirent) (fuel : Nat) :
    Outcome Empty ZimArticle := do
  let content ← r.decodeContent w codec d fuel
  .ok ⟨d.url, d.title, r.mimeTypes[d.mimeIndex]?.getD "application/octet-stream", content, d.blobSize,
    d.namespace_ = 'A' ∧ asU32 idx = 0, d.namespace_, asU32 idx⟩

/-- The article of the first entry with a url. -/
def getArticle (w : Nat) (codec : Codec) (r : ZimReader) (url : String) (fuel : Nat) :
    Outcome Empty (Option ZimArticle) :=
  if !r.loaded then .ok none
  else match r.dirents.findIdx? fun d => d.url = url with
    | none => .ok none
    | some idx => do
      let d ← elemAt r.dirents idx
      let article ← r.buildArticle w codec idx d fuel
      .ok (some article)

variable {w : Nat} {codec : Codec} {r : ZimReader} {url : String} {d : Dirent}

theorem getArticle_missing (hd : (r.dirents.find? fun d => d.url = url) = none) (fuel : Nat) :
    r.getArticle w codec url fuel = .ok none := by
  have hidx : (r.dirents.findIdx? fun d => d.url = url) = none := by
    rw [List.findIdx?_eq_none_iff]
    intro d hmem
    simpa using List.find?_eq_none.mp hd d hmem
  unfold getArticle
  rw [hidx]
  split <;> rfl

/-- The article is that of the first entry with the url. -/
theorem getArticle_found (w : Nat) (codec : Codec) (hl : r.loaded = true)
    (hd : (r.dirents.find? fun d => d.url = url) = some d) :
    ∃ idx, r.dirents[idx]? = some d ∧ ∀ fuel, r.getArticle w codec url fuel =
      r.buildArticle w codec idx d fuel >>= fun article => .ok (some article) := by
  obtain ⟨hurl, idx, hidx, heq, hfirst⟩ := List.find?_eq_some_iff_getElem.mp hd
  have hfound : (r.dirents.findIdx? fun d => d.url = url) = some idx := by
    rw [List.findIdx?_eq_some_iff_getElem]
    exact ⟨hidx, by rw [heq]; exact hurl, fun j hj => by simpa using hfirst j hj⟩
  have hd : r.dirents[idx]? = some d := by rw [List.getElem?_eq_getElem hidx, heq]
  refine ⟨idx, hd, fun fuel => ?_⟩
  unfold getArticle
  rw [hl, hfound]
  dsimp only
  rw [if_neg (by decide), elemAt_eq_ok.mpr hd]
  rfl

end ZimReader

end Onde.Zim
