import Mathlib.Algebra.BigOperators.Group.List.Basic
import Mathlib.Algebra.Order.Field.Basic
import Mathlib.Tactic.Ring
import Mathlib.Tactic.NormNum
import Onde.Lib.Chunks
import Onde.Lib.Located
import Onde.Stt.Wav

/-!
# What a WAV file says

* `Chunk.encode`: a chunk, padded to an even size; `WavFile`: a file with a format chunk, a data chunk and any others
  in any order;
* `loop_chunks`: the walk visits the chunks in order; `foldl_observe`: what it keeps comes from the last chunk of a
  kind;
* `mapM_mixFrame`: the samples are read back and averaged over the frames;
* `parseWav_file`: the parser returns the averages of the complete frames.
-/

namespace Onde.Stt

open Onde.Lib Outcome

/-- A chunk, with the byte that pads it if its size is odd. -/
structure Chunk where
  chunkId : Bytes
  body : Bytes
  pad : UInt8
  id_length : chunkId.length = 4

namespace Chunk

def padding (c : Chunk) : Bytes := if c.body.length % 2 = 1 then [c.pad] else []

def encode (c : Chunk) : Bytes := c.chunkId ++ leBytes 4 c.body.length ++ c.body ++ c.padding

end Chunk

/-- The two bytes of a sample. -/
def encodeSample (s : Int16) : Bytes := leBytes 2 s.toBitVec.toNat

/-- The format chunk of 16-bit samples at 16 kHz. -/
def fmtChunk (channels byteRate blockAlign : Nat) (extension : Bytes) (pad : UInt8) : Chunk where
  chunkId := fmtId
  body := leBytes 2 1 ++ leBytes 2 channels ++ leBytes 4 targetSampleRate ++ leBytes 4 byteRate ++
    leBytes 2 blockAlign ++ leBytes 2 16 ++ extension
  pad
  id_length := rfl

/-- The data chunk. -/
def dataChunk (samples : List Int16) (pad : UInt8) : Chunk where
  chunkId := dataId
  body := samples.flatMap encodeSample
  pad
  id_length := rfl

/-- A file of 16-bit samples at 16 kHz, with at least one complete frame. -/
structure WavFile where
  channels : Nat
  samples : List Int16
  riffSize : Nat
  byteRate : Nat
  blockAlign : Nat
  extension : Bytes
  fmtPad : UInt8
  dataPad : UInt8
  extras : List Chunk
  chunks : List Chunk
  mono_or_stereo : channels = 1 ∨ channels = 2
  frame : channels ≤ samples.length
  other : ∀ c ∈ extras, c.chunkId ≠ fmtId ∧ c.chunkId ≠ dataId
  order : chunks.Perm
    (fmtChunk channels byteRate blockAlign extension fmtPad :: dataChunk samples dataPad :: extras)

namespace WavFile

def encode (f : WavFile) : Bytes := riffId ++ leBytes 4 f.riffSize ++ waveId ++ f.chunks.flatMap Chunk.encode

/-- The average of the samples of each complete frame. -/
def averages (f : WavFile) : List ℚ :=
  (List.range (f.samples.length / f.channels)).map fun i =>
    ((piece f.channels f.samples i).map fun s => (s.toInt : ℚ)).sum / f.channels / 32768

end WavFile

variable {bytes body pcm : Bytes} {st : Walk} {c : Chunk} {cs : List Chunk} {fuel ch : Nat}

/-! ## The walk over the chunks -/

/-- What the walk keeps of a chunk. -/
def visited (st : Walk) (c : Chunk) : Walk :=
  if c.chunkId = fmtId then
    { st with
      formatTag := ofLe (c.body.take 2)
      channels := ofLe ((c.body.drop 2).take 2)
      sampleRate := ofLe ((c.body.drop 4).take 4)
      bitsPerSample := ofLe ((c.body.drop 14).take 2)
      sawFmt := true }
  else if c.chunkId = dataId then { st with data := some c.body }
  else st

/-- What the walk knows of the format. -/
def Walk.format (st : Walk) : Nat × Nat × Nat × Nat × Bool :=
  (st.formatTag, st.channels, st.sampleRate, st.bitsPerSample, st.sawFmt)

/-- What a format chunk tells. -/
def Chunk.format (c : Chunk) : Nat × Nat × Nat × Nat × Bool :=
  (ofLe (c.body.take 2), ofLe ((c.body.drop 2).take 2), ofLe ((c.body.drop 4).take 4), ofLe ((c.body.drop 14).take 2),
    true)

/-- The walk behind a chunk. -/
def advance (st : Walk) (c : Chunk) : Walk := { visited st c with pos := st.pos + c.encode.length }

/-- The chunk can be read. -/
def Readable (c : Chunk) : Prop := c.body.length < 2 ^ 32 ∧ (c.chunkId = fmtId → 16 ≤ c.body.length)

theorem visit_eq (h : Readable c) (st : Walk) : visit c.chunkId c.body st = .ok (visited st c) := by
  unfold visit visited
  by_cases hfmt : c.chunkId = fmtId
  · have hlen := h.2 hfmt
    rw [if_pos hfmt, if_pos hfmt, failIf_neg _ (Nat.not_lt.mpr hlen), ok_bind]
    unfold u16At u32At
    rw [leAt_eq_ok (by omega), leAt_eq_ok (by omega), leAt_eq_ok (by omega), leAt_eq_ok (by omega)]
    rfl
  · rw [if_neg hfmt, if_neg hfmt]
    by_cases hdata : c.chunkId = dataId
    · rw [if_pos hdata, if_pos hdata]
      rfl
    · rw [if_neg hdata, if_neg hdata]
      rfl

theorem length_padding (c : Chunk) : c.padding.length = c.body.length &&& 1 := by
  rw [Nat.and_one_is_mod, Chunk.padding]
  split
  · next h => rw [h]; rfl
  · next h => rw [List.length_nil]; omega

theorem length_encode (c : Chunk) : c.encode.length = 8 + c.body.length + (c.body.length &&& 1) := by
  simp only [Chunk.encode, List.length_append, c.id_length, length_leBytes, length_padding]

/-- **A step reads the chunk at its place.** -/
theorem chunkStep_at (h : Readable c) (hat : At bytes st.pos c.encode) (hin : st.pos + c.encode.length ≤ bytes.length) :
    chunkStep bytes st = .ok (.inl (advance st c)) := by
  unfold Chunk.encode at hat
  rw [List.append_assoc, List.append_assoc] at hat
  obtain ⟨hid, hat⟩ := at_append.mp hat
  obtain ⟨hsize, hat⟩ := at_append.mp hat
  obtain ⟨hbody, -⟩ := at_append.mp hat
  rw [c.id_length] at hsize hbody
  rw [length_leBytes] at hbody
  rw [length_encode] at hin
  have hidRange := hid.getRange (by rw [c.id_length]; omega)
  have hsizeRange := hsize.getRange (by rw [length_leBytes]; omega)
  have hbodyRange : getRange bytes (st.pos + 8) (st.pos + 8 + c.body.length) = some c.body := hbody.getRange (by omega)
  rw [c.id_length] at hidRange
  rw [length_leBytes] at hsizeRange
  have hend : st.pos + c.encode.length = st.pos + 8 + c.body.length + (c.body.length &&& 1) := by
    rw [length_encode]
    omega
  unfold chunkStep u32At leAt
  rw [if_pos (by omega), slice_eq_ok.mpr hidRange, ok_bind, hsizeRange, okOr, ok_bind, pure_eq_ok, ok_bind,
    ofLe_leBytes h.1]
  dsimp only
  rw [failIf_neg _ (by omega), ok_bind, slice_eq_ok.mpr hbodyRange, ok_bind, visit_eq h, ok_bind, ← hend]
  rfl

/-- **The walk visits the chunks in order.** -/
theorem loop_chunks : ∀ {cs : List Chunk} {st : Walk} (fuel : Nat), (∀ c ∈ cs, Readable c) →
    At bytes st.pos (cs.flatMap Chunk.encode) → st.pos + (cs.flatMap Chunk.encode).length = bytes.length →
    cs.length < fuel → loop (chunkStep bytes) fuel st = .ok (cs.foldl advance st)
  | _, _, 0, _, _, _, hfuel => absurd hfuel (Nat.not_lt_zero _)
  | [], st, fuel + 1, _, _, hend, _ => by
    refine loop_done ?_
    rw [List.flatMap_nil, List.length_nil] at hend
    rw [chunkStep, if_neg (by omega)]
    rfl
  | c :: cs, st, fuel + 1, hread, hat, hend, hfuel => by
    rw [List.flatMap_cons, at_append] at hat
    rw [List.flatMap_cons, List.length_append] at hend
    rw [loop_again (chunkStep_at (hread c List.mem_cons_self) hat.1 (by omega)), List.foldl_cons]
    refine loop_chunks fuel (fun d hd => hread d (List.mem_cons_of_mem c hd)) hat.2 ?_ (Nat.lt_of_succ_lt_succ hfuel)
    show st.pos + c.encode.length + (cs.flatMap Chunk.encode).length = bytes.length
    omega

/-- **What steps of one kind overwrite and the others keep comes from the last of its kind.** -/
theorem foldl_observe {σ α γ : Type} {step : σ → α → σ} {observe : σ → γ} {p : α → Bool} {value : α → γ}
    (h : ∀ s a, observe (step s a) = if p a then value a else observe s) (l : List α) (s : σ) :
    observe (l.foldl step s) = (l.filter p).getLast?.elim (observe s) value := by
  induction l using List.reverseRecOn with
  | nil => rfl
  | append_singleton l a ih =>
    rw [List.foldl_append, List.foldl_cons, List.foldl_nil, h, List.filter_append, ih]
    cases hp : p a with
    | false => rw [if_neg Bool.false_ne_true, List.filter_cons_of_neg (by simp [hp]), List.filter_nil, List.append_nil]
    | true => rw [if_pos rfl, List.filter_cons_of_pos hp, List.filter_nil, List.getLast?_concat]; rfl

/-- The only chunk of a kind is what the walk keeps. -/
theorem foldl_only {γ : Type} {observe : Walk → γ} {p : Chunk → Bool} {value : Chunk → γ} {rest : List Chunk}
    (h : ∀ s a, observe (advance s a) = if p a then value a else observe s) (hperm : cs.Perm (c :: rest))
    (hc : p c = true) (hrest : ∀ d ∈ rest, p d = false) (st : Walk) : observe (cs.foldl advance st) = value c := by
  have hnone : rest.filter p = [] := List.filter_eq_nil_iff.mpr fun d hd => by rw [hrest d hd]; decide
  have hfilter := hperm.filter p
  rw [List.filter_cons_of_pos hc, hnone, List.perm_singleton] at hfilter
  rw [foldl_observe h, hfilter]
  rfl

/-! ## The samples -/

theorem sampleAt_encode (s : Int16) (rest : Bytes) : sampleAt (encodeSample s ++ rest) 0 = .ok s := by
  have hlt : s.toBitVec.toNat < 256 ^ 2 := s.toBitVec.isLt
  have hread : ∀ lo hi : UInt8, [lo, hi] = leBytes 2 s.toBitVec.toNat →
      Int16.ofBitVec (BitVec.ofNat 16 (ofLe [lo, hi])) = s := by
    intro lo hi heq
    rw [heq, ofLe_leBytes hlt, BitVec.ofNat_toNat, BitVec.setWidth_eq]
    rfl
  exact congrArg Outcome.ok (hread _ _ rfl)

theorem sampleAt_skip (s : Int16) (rest : Bytes) (off : Nat) :
    sampleAt (encodeSample s ++ rest) (off + 2) = sampleAt rest off := rfl

/-- **A sample is read back.** -/
theorem sampleAt_samples : ∀ {samples : List Int16} {k : Nat} {s : Int16}, samples[k]? = some s →
    sampleAt (samples.flatMap encodeSample) (k * 2) = .ok s
  | [], _, _, h => by cases h
  | s :: samples, 0, _, h => by
    cases h
    exact sampleAt_encode s _
  | s :: samples, k + 1, t, h => by
    rw [Nat.add_mul, Nat.one_mul, List.flatMap_cons, sampleAt_skip]
    exact sampleAt_samples h

theorem length_flatMap_encodeSample (samples : List Int16) :
    (samples.flatMap encodeSample).length = samples.length * 2 := by
  induction samples with
  | nil => rfl
  | cons s samples ih =>
    rw [List.flatMap_cons, List.length_append, ih, List.length_cons, encodeSample, length_leBytes]
    omega

/-- The samples of a complete frame. -/
theorem piece_frame {samples : List Int16} {i : Nat} (h : i * ch + ch ≤ samples.length) :
    piece ch samples i = (List.range ch).map fun c => samples[i * ch + c]?.getD 0 := by
  refine List.ext_getElem ?_ fun c hc hc' => ?_
  · rw [length_piece, pieceLen, List.length_map, List.length_range]
    omega
  · rw [List.length_map, List.length_range] at hc'
    have hin : i * ch + c < samples.length := by omega
    rw [List.getElem_map, List.getElem_range, List.getElem?_eq_getElem hin, Option.getD_some]
    simp only [piece, List.getElem_take, List.getElem_drop]

theorem foldl_add_div (g : Nat → ℚ) (d : ℚ) (l : List Nat) (a : ℚ) :
    l.foldl (fun acc c => acc + g c / d) a = a + (l.map g).sum / d := by
  induction l generalizing a with
  | nil => rw [List.foldl_nil, List.map_nil, List.sum_nil, zero_div, add_zero]
  | cons c l ih => rw [List.foldl_cons, ih, List.map_cons, List.sum_cons, add_div, add_assoc]

/-- **A complete frame is averaged.** -/
theorem mixFrame_samples {samples : List Int16} {i : Nat} (h : i * ch + ch ≤ samples.length) :
    mixFrame (samples.flatMap encodeSample) ch i =
      .ok (((piece ch samples i).map fun s => (s.toInt : ℚ)).sum / ch / 32768) := by
  have hstep : ∀ c ∈ List.range ch, ∀ acc : ℚ, (do
      let s ← sampleAt (samples.flatMap encodeSample) (i * 2 * ch + c * 2)
      pure (acc + (s.toInt : ℚ) / 32768) : Result ℚ) =
        .ok (acc + ((samples[i * ch + c]?.getD 0).toInt : ℚ) / 32768) := by
    intro c hc acc
    have hlt := List.mem_range.mp hc
    have hin : i * ch + c < samples.length := by omega
    have hoff : i * 2 * ch + c * 2 = (i * ch + c) * 2 := by ring
    rw [hoff, sampleAt_samples (List.getElem?_eq_getElem hin), ok_bind, List.getElem?_eq_getElem hin]
    rfl
  unfold mixFrame
  dsimp only
  rw [foldlM_eq_ok hstep, ok_bind, foldl_add_div, zero_add, piece_frame h, List.map_map, pure_eq_ok, div_right_comm]
  rfl

/-- **The samples are read back and averaged over the frames.** -/
theorem mapM_mixFrame (ch : Nat) (samples : List Int16) :
    (List.range (samples.length / ch)).mapM (mixFrame (samples.flatMap encodeSample) ch) =
      .ok ((List.range (samples.length / ch)).map fun i =>
        ((piece ch samples i).map fun s => (s.toInt : ℚ)).sum / ch / 32768) := by
  refine mapM_eq_ok.mpr (List.forall₂_map_right_iff.mpr (List.forall₂_same.mpr fun i hi => mixFrame_samples ?_))
  have hle : (i + 1) * ch ≤ samples.length / ch * ch := Nat.mul_le_mul_right ch (List.mem_range.mp hi)
  have hdiv := Nat.div_mul_le_self samples.length ch
  rw [Nat.add_mul, Nat.one_mul] at hle
  omega

/-! ## The file -/

namespace WavFile

variable (f : WavFile)

theorem fmtId_ne_dataId : fmtId ≠ dataId := fun h => absurd (utf8Bytes_injective h) (by decide)

/-- What the walk knows of the format at the end of the file. -/
theorem walked_format (st : Walk) :
    (f.chunks.foldl advance st).format = (1, f.channels, targetSampleRate, 16, true) := by
  have hstep : ∀ (st : Walk) (c : Chunk), (advance st c).format =
      if decide (c.chunkId = fmtId) then c.format else st.format := by
    intro st c
    unfold advance visited Walk.format Chunk.format
    by_cases hfmt : c.chunkId = fmtId
    · simp only [if_pos hfmt, decide_eq_true hfmt, if_true]
    · simp only [if_neg hfmt, decide_eq_false hfmt, Bool.false_eq_true, if_false]
      split
      · rfl
      · rfl
  have hrest : ∀ c ∈ dataChunk f.samples f.dataPad :: f.extras, decide (c.chunkId = fmtId) = false := by
    intro c hc
    rw [decide_eq_false_iff_not]
    rcases List.mem_cons.mp hc with rfl | hc
    · exact fmtId_ne_dataId.symm
    · exact (f.other c hc).1
  have hchannels : f.channels < 256 ^ 2 := by
    rcases f.mono_or_stereo with h | h
    · rw [h]; decide
    · rw [h]; decide
  have hformat : (fmtChunk f.channels f.byteRate f.blockAlign f.extension f.fmtPad).format =
      (ofLe (leBytes 2 1), ofLe (leBytes 2 f.channels), ofLe (leBytes 4 targetSampleRate), ofLe (leBytes 2 16), true) :=
    rfl
  rw [foldl_only hstep f.order (decide_eq_true rfl) hrest st, hformat, ofLe_leBytes (by decide), ofLe_leBytes hchannels,
    ofLe_leBytes (by decide), ofLe_leBytes (by decide)]

/-- And of the samples. -/
theorem walked_data (st : Walk) : (f.chunks.foldl advance st).data = some (f.samples.flatMap encodeSample) := by
  have hstep : ∀ (st : Walk) (c : Chunk), (advance st c).data =
      if decide (c.chunkId = dataId) then some c.body else st.data := by
    intro st c
    unfold advance visited
    by_cases hfmt : c.chunkId = fmtId
    · have hdata : c.chunkId ≠ dataId := fun h => fmtId_ne_dataId (hfmt.symm.trans h)
      simp only [if_pos hfmt, decide_eq_false hdata, Bool.false_eq_true, if_false]
    · by_cases hdata : c.chunkId = dataId
      · simp only [if_neg hfmt, if_pos hdata, decide_eq_true hdata, if_true]
      · simp only [if_neg hfmt, if_neg hdata, decide_eq_false hdata, Bool.false_eq_true, if_false]
  refine foldl_only hstep (f.order.trans (List.Perm.swap _ _ _)) (decide_eq_true rfl) (fun c hc => ?_) st
  rw [decide_eq_false_iff_not]
  rcases List.mem_cons.mp hc with rfl | hc
  · exact fmtId_ne_dataId
  · exact (f.other c hc).2

theorem mem_encode {c : Chunk} (hc : c ∈ f.chunks) : c.encode.length ≤ (f.chunks.flatMap Chunk.encode).length := by
  obtain ⟨before, after, hsplit⟩ := List.append_of_mem hc
  rw [hsplit, List.flatMap_append, List.flatMap_cons, List.length_append, List.length_append]
  omega

/-- **The chunks of a file that is not too large are read.** -/
theorem readable (hsmall : f.encode.length ≤ maxWavBytes) : ∀ c ∈ f.chunks, Readable c := by
  intro c hc
  have hlen := f.mem_encode hc
  have hmax : maxWavBytes < 2 ^ 32 := by decide
  rw [encode, List.length_append] at hsmall
  rw [length_encode] at hlen
  refine ⟨by omega, fun hfmt => ?_⟩
  rcases List.mem_cons.mp (f.order.mem_iff.mp hc) with rfl | hc
  · simp only [fmtChunk, List.length_append, length_leBytes]
    omega
  · rcases List.mem_cons.mp hc with rfl | hc
    · exact absurd hfmt.symm fmtId_ne_dataId
    · exact absurd hfmt (f.other c hc).1

/-- A file has fewer chunks than bytes. -/
theorem length_chunks_le (cs : List Chunk) : cs.length ≤ (cs.flatMap Chunk.encode).length := by
  induction cs with
  | nil => exact Nat.le_refl 0
  | cons c cs ih =>
    rw [List.flatMap_cons, List.length_append, length_encode, List.length_cons]
    omega

/-- The audio of the file. -/
def audio : WavAudio where
  samples := f.averages
  sampleRate := targetSampleRate
  channels := f.channels
  durationMs := f.samples.length / f.channels * 1000 / targetSampleRate

/-- **The audio is read from what the walk knows.** -/
theorem readAudio_walked (st : Walk) : readAudio (f.chunks.foldl advance st) = .ok f.audio := by
  have hformat := f.walked_format st
  have hdata := f.walked_data st
  generalize f.chunks.foldl advance st = last at hformat hdata
  obtain ⟨htag, hchannels, hrate, hbits, hsaw⟩ : last.formatTag = 1 ∧ last.channels = f.channels ∧
      last.sampleRate = targetSampleRate ∧ last.bitsPerSample = 16 ∧ last.sawFmt = true := by
    simpa only [Walk.format, Prod.mk.injEq] using hformat
  have hlen := length_flatMap_encodeSample f.samples
  have hpos : 0 < f.channels := by
    rcases f.mono_or_stereo with h | h
    · omega
    · omega
  have hsome := f.frame
  have hne : f.samples.flatMap encodeSample ≠ [] := List.ne_nil_of_length_pos (by omega)
  have hframes : (f.samples.flatMap encodeSample).length / 2 / f.channels = f.samples.length / f.channels := by
    rw [hlen, Nat.mul_div_cancel _ (by decide)]
  have hsomeFrame : f.samples.length / f.channels ≠ 0 := Nat.ne_of_gt (Nat.div_pos f.frame hpos)
  unfold readAudio
  rw [hdata, htag, hchannels, hrate, hbits, hsaw]
  rw [failIf_neg _ (by decide), ok_bind, okOr, ok_bind, failIf_neg _ (not_not.mpr rfl), ok_bind,
    failIf_neg _ (not_not.mpr rfl), ok_bind, failIf_neg _ (by have := f.mono_or_stereo; omega), ok_bind,
    failIf_neg _ (not_not.mpr rfl), ok_bind, failIf_neg _ (by rw [not_or]; exact ⟨hne, by omega⟩), ok_bind]
  dsimp only
  rw [hframes, failIf_neg _ hsomeFrame, ok_bind, mapM_mixFrame, ok_bind]
  rfl

/-- **The parser returns the averages of the frames.** -/
theorem parseWav_encode (hsmall : f.encode.length ≤ maxWavBytes) {fuel : Nat} (hfuel : f.encode.length < fuel) :
    parseWav f.encode fuel = .ok f.audio := by
  have hriff : riffId.length = 4 := rfl
  have hwave : waveId.length = 4 := rfl
  have hsize : (leBytes 4 f.riffSize).length = 4 := length_leBytes 4 _
  have hlen : f.encode.length = 12 + (f.chunks.flatMap Chunk.encode).length := by
    simp only [encode, List.length_append, hriff, hwave, hsize]
  have hmagic : getRange f.encode 0 4 = some riffId := by
    refine getRange_eq_some.mpr ⟨by decide, by omega, rfl⟩
  have hform : getRange f.encode 8 12 = some waveId := by
    refine getRange_eq_some.mpr ⟨by decide, by omega, rfl⟩
  have hat : At f.encode walkStart.pos (f.chunks.flatMap Chunk.encode) := List.prefix_refl _
  have hchunks := length_chunks_le f.chunks
  have hwalk := loop_chunks fuel (f.readable hsmall) hat hlen.symm (by omega)
  unfold parseWav
  rw [failIf_neg _ (Nat.not_lt.mpr hsmall), ok_bind, failIf_neg _ (by omega), ok_bind, slice_eq_ok.mpr hmagic, ok_bind,
    failIf_neg _ (not_not.mpr rfl), ok_bind, slice_eq_ok.mpr hform, ok_bind, failIf_neg _ (not_not.mpr rfl), ok_bind,
    hwalk, ok_bind, readAudio_walked]

/-- Samples of 16 bits. -/
theorem abs_sum_le (samples : List Int16) :
    |(samples.map fun s => (s.toInt : ℚ)).sum| ≤ samples.length * 32768 := by
  induction samples with
  | nil => simp
  | cons s samples ih =>
    have hlow : (-32768 : ℚ) ≤ s.toInt := by exact_mod_cast s.le_toInt
    have hhigh : (s.toInt : ℚ) ≤ 32768 := by exact_mod_cast Int.le_of_lt s.toInt_lt
    have hone : |(s.toInt : ℚ)| ≤ 32768 := abs_le.mpr ⟨hlow, hhigh⟩
    rw [List.map_cons, List.sum_cons, List.length_cons, Nat.cast_succ, add_mul, one_mul, add_comm (_ * _)]
    exact (abs_add_le _ _).trans (add_le_add hone ih)

/-- **An average is between -1 and 1.** -/
theorem abs_averages_le (f : WavFile) : ∀ x ∈ f.averages, |x| ≤ 1 := by
  intro x hx
  obtain ⟨i, -, rfl⟩ := List.mem_map.mp hx
  have hpos : (0 : ℚ) < f.channels := by
    rcases f.mono_or_stereo with h | h
    · rw [h]; norm_num
    · rw [h]; norm_num
  have hlen : ((piece f.channels f.samples i).length : ℚ) ≤ f.channels := by
    rw [length_piece, pieceLen]
    exact_mod_cast Nat.min_le_left _ _
  have hsum := (abs_sum_le (piece f.channels f.samples i)).trans (mul_le_mul_of_nonneg_right hlen (by norm_num))
  rw [div_div, abs_div, abs_of_pos (mul_pos hpos (by norm_num : (0 : ℚ) < 32768))]
  exact div_le_one_of_le₀ hsum (mul_pos hpos (by norm_num)).le

end WavFile

/-- **No input faults, and of a file of at most 256 MiB the average of each complete frame is returned.** -/
theorem parseWav_file {bytes : Bytes} {fuel : Nat} (hfuel : bytes.length < fuel) : (parseWav bytes fuel).Calm ∧
    ∀ f : WavFile, f.encode = bytes → bytes.length ≤ maxWavBytes → parseWav bytes fuel = .ok f.audio ∧
      f.audio.samples = f.averages ∧ f.averages.length = f.samples.length / f.channels ∧
      ∀ x ∈ f.averages, |x| ≤ 1 := by
  refine ⟨calm_parseWav hfuel, ?_⟩
  rintro f rfl hsmall
  refine ⟨f.parseWav_encode hsmall hfuel, rfl, ?_, f.abs_averages_le⟩
  rw [WavFile.averages, List.length_map, List.length_range]

/-- Two frames in stereo and half of a third, and a list chunk between the format and the data. -/
def shortFile : WavFile where
  channels := 2
  samples := [16384, 8192, -32768, 0, 7]
  riffSize := 0
  byteRate := 64000
  blockAlign := 4
  extension := []
  fmtPad := 0
  dataPad := 0
  extras := [⟨utf8Bytes "LIST", [1], 0, rfl⟩]
  chunks := [fmtChunk 2 64000 4 [] 0, ⟨utf8Bytes "LIST", [1], 0, rfl⟩, dataChunk [16384, 8192, -32768, 0, 7] 0]
  mono_or_stereo := .inr rfl
  frame := by decide
  other := by
    intro c hc
    cases List.mem_singleton.mp hc
    exact ⟨fun h => absurd (utf8Bytes_injective h) (by decide), fun h => absurd (utf8Bytes_injective h) (by decide)⟩
  order := (List.Perm.swap _ _ _).cons _

theorem shortFile_parsed : parseWav shortFile.encode 100 = .ok ⟨[3 / 8, -1 / 2], 16000, 2, 0⟩ := by
  have hfuel : shortFile.encode.length < 100 := by decide
  exact ((parseWav_file hfuel).2 shortFile rfl (by decide)).1.trans (by decide +kernel)

end Onde.Stt
