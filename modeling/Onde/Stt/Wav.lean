import Mathlib.Algebra.Order.Field.Rat
import Onde.Lib.Outcome

/-!
# Reading a WAV file

The parser of the speech recorder: RIFF/WAVE with 16-bit PCM at 16 kHz. Samples are rationals; sizes do not wrap, since
nothing is read beyond 256 MiB.

* `chunkStep`: the walk over the chunks, which pads their sizes to even ones;
* `mixFrame`: the average of a frame;
* `calm_parseWav`: no input makes the parser run for ever or read where nothing is.
-/

namespace Onde.Stt

open Onde.Lib Outcome

inductive SttError where
  | invalidWav (msg : String)
  deriving DecidableEq

abbrev Result := Outcome SttError

def targetSampleRate : Nat := 16000

def maxWavBytes : Nat := 256 * 1024 * 1024

structure WavAudio where
  samples : List ℚ
  sampleRate : Nat
  channels : Nat
  durationMs : Nat
  deriving DecidableEq

/-- A little-endian number at a place of a header. -/
def leAt (n : Nat) (bytes : Bytes) (pos : Nat) (what : String) : Result Nat := do
  let s ← okOr (getRange bytes pos (pos + n)) (.invalidWav s!"truncated header while reading {what}")
  pure (ofLe s)

def u16At : Bytes → Nat → String → Result Nat := leAt 2

def u32At : Bytes → Nat → String → Result Nat := leAt 4

def riffId : Bytes := utf8Bytes "RIFF"
def waveId : Bytes := utf8Bytes "WAVE"
def fmtId : Bytes := utf8Bytes "fmt "
def dataId : Bytes := utf8Bytes "data"

/-- The variables of the walk over the chunks. -/
structure Walk where
  pos : Nat
  formatTag : Nat
  channels : Nat
  sampleRate : Nat
  bitsPerSample : Nat
  data : Option Bytes
  sawFmt : Bool

/-- What a chunk tells. -/
def visit (chunkId body : Bytes) (st : Walk) : Result Walk :=
  if chunkId = fmtId then do
    failIf (body.length < 16) (.invalidWav "fmt chunk shorter than 16 bytes")
    let formatTag ← u16At body 0 "format tag"
    let channels ← u16At body 2 "channel count"
    let sampleRate ← u32At body 4 "sample rate"
    let bitsPerSample ← u16At body 14 "bits per sample"
    pure { st with formatTag, channels, sampleRate, bitsPerSample, sawFmt := true }
  else if chunkId = dataId then pure { st with data := some body }
  else pure st

/-- The chunk at a place, unless there is no room for one. -/
def chunkStep (bytes : Bytes) (st : Walk) : Result (Walk ⊕ Walk) :=
  if st.pos + 8 ≤ bytes.length then do
    let chunkId ← slice bytes st.pos (st.pos + 4)
    let declared ← u32At bytes (st.pos + 4) "chunk size"
    let bodyStart := st.pos + 8
    let available := bytes.length - bodyStart
    failIf (available < declared) (.invalidWav "chunk extends past end of input")
    let body ← slice bytes bodyStart (bodyStart + declared)
    let st ← visit chunkId body st
    pure (.inl { st with pos := bodyStart + declared + (declared &&& 1) })
  else pure (.inr st)

/-- The sample of two bytes. -/
def sampleAt (pcm : Bytes) (off : Nat) : Result Int16 := do
  let lo ← elemAt pcm off
  let hi ← elemAt pcm (off + 1)
  pure (Int16.ofBitVec (BitVec.ofNat 16 (ofLe [lo, hi])))

/-- The average of the samples of a frame. -/
def mixFrame (pcm : Bytes) (ch frame : Nat) : Result ℚ := do
  let base := frame * 2 * ch
  let acc ← (List.range ch).foldlM (fun (acc : ℚ) c => do
    let s ← sampleAt pcm (base + c * 2)
    pure (acc + (s.toInt : ℚ) / 32768)) 0
  pure (acc / ch)

/-- The audio of the chunks that were found. -/
def readAudio (st : Walk) : Result WavAudio := do
  failIf (!st.sawFmt) (.invalidWav "missing fmt chunk")
  let pcm ← okOr st.data (.invalidWav "missing data chunk")
  failIf (st.formatTag ≠ 1)
    (.invalidWav s!"unsupported format tag {st.formatTag} (only uncompressed PCM=1 is supported)")
  failIf (st.bitsPerSample ≠ 16) (.invalidWav s!"unsupported bit depth {st.bitsPerSample} (16-bit PCM required)")
  failIf (st.channels ≠ 1 ∧ st.channels ≠ 2)
    (.invalidWav s!"unsupported channel count {st.channels} (mono or stereo only)")
  failIf (st.sampleRate ≠ targetSampleRate)
    (.invalidWav s!"unsupported sample rate {st.sampleRate} Hz ({targetSampleRate} Hz required)")
  failIf (pcm = [] ∨ pcm.length % 2 ≠ 0) (.invalidWav "data chunk is empty or not 16-bit aligned")
  let frames := pcm.length / 2 / st.channels
  failIf (frames = 0) (.invalidWav "no audio frames in data chunk")
  let samples ← (List.range frames).mapM (mixFrame pcm st.channels)
  pure ⟨samples, st.sampleRate, st.channels, frames * 1000 / targetSampleRate⟩

/-- The walk begins behind the preamble. -/
def walkStart : Walk where
  pos := 12
  formatTag := 0
  channels := 0
  sampleRate := 0
  bitsPerSample := 0
  data := none
  sawFmt := false

def parseWav (bytes : Bytes) (fuel : Nat) : Result WavAudio := do
  failIf (maxWavBytes < bytes.length) (.invalidWav s!"input too large: {bytes.length} bytes")
  failIf (bytes.length < 12) (.invalidWav "input shorter than a RIFF header")
  let magic ← slice bytes 0 4
  failIf (magic ≠ riffId) (.invalidWav "missing RIFF magic")
  let form ← slice bytes 8 12
  failIf (form ≠ waveId) (.invalidWav "missing WAVE form identifier")
  let st ← loop (chunkStep bytes) fuel walkStart
  readAudio st

/-! ## Every input -/

variable {bytes body chunkId pcm : Bytes} {st : Walk} {n pos off ch frame fuel : Nat} {what : String}

theorem calm_leAt : (leAt n bytes pos what).Calm := (calm_okOr _ _).bind fun _ _ => calm_ok _

theorem leAt_eq_ok (h : pos + n ≤ bytes.length) : leAt n bytes pos what = .ok (ofLe ((bytes.drop pos).take n)) := by
  have hrange : getRange bytes pos (pos + n) = some ((bytes.drop pos).take n) :=
    getRange_eq_some.mpr ⟨Nat.le_add_right _ _, h, by rw [Nat.add_sub_cancel_left]⟩
  rw [leAt, hrange]
  rfl

/-- A chunk does not move the walk. -/
theorem meets_visit (chunkId body : Bytes) (st : Walk) :
    (visit chunkId body st).Meets fun st' => st'.pos = st.pos := by
  have hread : ∀ {n pos : Nat} {what : String}, (leAt n body pos what).Meets fun _ => True :=
    ⟨calm_leAt, fun _ _ => trivial⟩
  unfold visit u16At u32At
  split
  · refine (meets_failIf _ _).bind fun _ _ => ?_
    refine hread.bind fun _ _ => hread.bind fun _ _ => hread.bind fun _ _ => hread.bind fun _ _ => ?_
    exact meets_ok rfl
  · split
    · exact meets_ok rfl
    · exact meets_ok rfl

/-- **A step goes on by eight bytes at least, and by no more than there are but for the padding.** -/
theorem meets_chunkStep (bytes : Bytes) (st : Walk) :
    (chunkStep bytes st).Meets fun
      | .inl st' => st'.pos ≤ bytes.length + 1 ∧ bytes.length + 1 - st'.pos < bytes.length + 1 - st.pos
      | .inr _ => True := by
  unfold chunkStep u32At
  split
  · next hroom =>
    refine (meets_slice (by omega) (by omega)).bind fun chunkId _ => ?_
    rw [leAt_eq_ok (by omega), ok_bind]
    refine (meets_failIf _ _).bind fun _ hdeclared => ?_
    refine (meets_slice (by omega) (by omega)).bind fun body _ => ?_
    refine (meets_visit chunkId body st).bind fun st' _ => meets_ok ?_
    simp only [Nat.and_one_is_mod]
    omega
  · exact meets_ok trivial

theorem calm_sampleAt (h : off + 2 ≤ pcm.length) : (sampleAt pcm off).Calm := by
  have hlt : off < pcm.length := by omega
  have hlt' : off + 1 < pcm.length := by omega
  have hlo : (elemAt pcm off : Result UInt8) = .ok pcm[off] := elemAt_eq_ok.mpr (List.getElem?_eq_getElem hlt)
  have hhi : (elemAt pcm (off + 1) : Result UInt8) = .ok pcm[off + 1] :=
    elemAt_eq_ok.mpr (List.getElem?_eq_getElem hlt')
  rw [sampleAt, hlo, hhi]
  exact calm_ok _

/-- The samples of a complete frame are there. -/
theorem frame_fits {size c : Nat} (hframe : frame < size / 2 / ch) (hc : c < ch) :
    frame * 2 * ch + c * 2 + 2 ≤ size := by
  have hmul : (frame + 1) * ch ≤ size / 2 / ch * ch := Nat.mul_le_mul_right ch hframe
  have hle : size / 2 / ch * ch ≤ size / 2 := Nat.div_mul_le_self _ _
  have hexpand : (frame + 1) * ch = frame * ch + ch := Nat.succ_mul _ _
  have hbase : frame * 2 * ch = 2 * (frame * ch) := by rw [Nat.mul_comm frame 2, Nat.mul_assoc]
  omega

theorem calm_mixFrame (h : frame < pcm.length / 2 / ch) : (mixFrame pcm ch frame).Calm := by
  have hsum : ∀ (l : List Nat) (acc : ℚ), (∀ c ∈ l, c < ch) → (l.foldlM (fun (acc : ℚ) c => do
      let s ← sampleAt pcm (frame * 2 * ch + c * 2)
      pure (acc + (s.toInt : ℚ) / 32768)) acc : Result ℚ).Calm := by
    intro l
    induction l with
    | nil => exact fun acc _ => calm_ok acc
    | cons c l ih =>
      intro acc hl
      rw [List.foldlM_cons]
      refine Calm.bind ?_ fun acc' _ => ih acc' fun c' hc' => hl c' (List.mem_cons_of_mem c hc')
      exact (calm_sampleAt (frame_fits h (hl c List.mem_cons_self))).bind fun _ _ => calm_ok _
  unfold mixFrame
  refine (hsum _ 0 fun c hc => List.mem_range.mp hc).bind fun acc _ => ?_
  exact calm_ok _

theorem calm_readAudio (st : Walk) : (readAudio st).Calm := by
  unfold readAudio
  refine (calm_failIf _ _).bind fun _ _ => (calm_okOr _ _).bind fun pcm _ => ?_
  refine (calm_failIf _ _).bind fun _ _ => (calm_failIf _ _).bind fun _ _ => (calm_failIf _ _).bind fun _ _ => ?_
  refine (calm_failIf _ _).bind fun _ _ => (calm_failIf _ _).bind fun _ _ => (calm_failIf _ _).bind fun _ _ => ?_
  have hsamples := meets_mapM (l := List.range (pcm.length / 2 / st.channels)) (R := fun _ => True)
    (f := mixFrame pcm st.channels) fun frame hframe => ⟨calm_mixFrame (List.mem_range.mp hframe), fun _ _ => trivial⟩
  exact hsamples.1.bind fun _ _ => calm_ok _

/-- **The parser comes to an end without reading where nothing is.** -/
theorem calm_parseWav (h : bytes.length < fuel) : (parseWav bytes fuel).Calm := by
  unfold parseWav
  refine (calm_failIf _ _).bind fun _ _ => ?_
  refine Calm.bind (calm_failIf _ _) fun _ hshort => ?_
  have hlen := failIf_eq_ok.mp hshort
  refine (calm_slice.mpr ⟨by decide, by omega⟩).bind fun magic _ => (calm_failIf _ _).bind fun _ _ => ?_
  refine (calm_slice.mpr ⟨by decide, by omega⟩).bind fun form _ => (calm_failIf _ _).bind fun _ _ => ?_
  have hwalk : (loop (chunkStep bytes) fuel walkStart).Meets fun _ => True := by
    refine meets_loop (I := fun st => st.pos ≤ bytes.length + 1) (fun st => bytes.length + 1 - st.pos)
      (fun st _ => ?_) ?_ ?_
    · refine (meets_chunkStep bytes st).mono fun next hnext => ?_
      cases next with
      | inl st' => exact hnext
      | inr st' => exact trivial
    · show 12 ≤ bytes.length + 1
      omega
    · show bytes.length + 1 - 12 < fuel
      omega
  exact hwalk.1.bind fun st _ => calm_readAudio st

end Onde.Stt
