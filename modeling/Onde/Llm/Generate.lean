import Mathlib.Data.Rat.Defs
import Onde.Lib.Outcome

/-!
# Generating text with a local model

llama.cpp decodes the prompt, and then a token at a time that is drawn from the logits of the last one.

* `Backend`: llama.cpp, whatever it does; `Call`: what is asked of it;
* `samplingStep`, `samplingLoop`, `LlamaContext.realGenerate`: the loop until the limit, the end token or a stop
  sequence;
* `Steady`: what holds in the loop (`samplingStep_spec`, `samplingLoop_spec`);
* `generate_sound`: whatever the backend does, each token is decoded at the next position and within the context, it
  was drawn from the logits of the one before, and the text is what the tokens spell, up to the first stop sequence.
-/

namespace Onde.Llm

open Onde.Lib

/-! ## The backend -/

/-- `llama_token`. -/
abbrev Token : Type := Int32

/-- A token of a batch, its position, and whether its logits are wanted. -/
structure BatchToken where
  token : Token
  pos : Int32
  logits : Bool
  deriving DecidableEq

/-- A token with its logit. -/
structure Candidate where
  id : Token
  logit : ℚ
  deriving DecidableEq

/-- llama.cpp with a model and a context: what its functions return, and the context after them. -/
structure Backend where
  State : Type
  nCtx : State → UInt32
  /-- What is returned for a text and its length, and the tokens written to a buffer of some length. -/
  tokenize : State → Bytes → Int32 → Int32 → Int32 × List Token
  decode : State → List BatchToken → Int32 × State
  /-- The logits of a token of the batch decoded last, one for each token of the vocabulary. -/
  logits : State → Int32 → List ℚ
  repetitionPenalties : List Candidate → List Token → ℚ → List Candidate
  temp : List Candidate → ℚ → List Candidate
  topK : List Candidate → Int32 → List Candidate
  topP : List Candidate → ℚ → List Candidate
  softmax : List Candidate → List Candidate
  /-- Draw a token; the context holds the random generator. -/
  sampleToken : State → List Candidate → Token × State
  tokenEos : Token
  /-- What is returned for a token, and the bytes written to a buffer of some length. -/
  tokenToPiece : Token → Nat → Int32 × Bytes
  /-- The text of the error of a text that is not UTF-8. -/
  utf8Error : Bytes → String

/-- What is asked of the context: a batch is decoded, or a token is drawn from the logits at an index, with the tokens
penalised if any are. -/
inductive Call where
  | decode (batch : List BatchToken)
  | sample (index : Int32) (window : Option (List Token))
  deriving DecidableEq

structure GenerationConfig where
  maxTokens : UInt32
  temperature : ℚ
  topK : UInt32
  topP : ℚ
  repeatPenalty : ℚ
  stopTokens : List String
  deriving DecidableEq

structure GenerationResult where
  text : String
  nTokens : UInt32
  genTimeMs : Nat
  tokensPerSec : ℚ
  promptTokens : UInt32
  peakMemMb : Nat
  deriving DecidableEq

def GenerationConfig.default : GenerationConfig :=
  ⟨256, 7 / 10, 40, 9 / 10, 11 / 10, ["<|im_end|>", "<|endoftext|>"]⟩

def repeatPenaltyWindow : Nat := 64

/-- The recent tokens that are penalised. -/
def penaltyWindow (tokens : List Token) (window : Nat) : List Token := tokens.drop (tokens.length - window)

/-- The prompt and the tokens to be generated fit the context. -/
def checkContextFit (nPrompt maxTokens nCtx : Nat) : Except String Unit :=
  let err := s!"context overflow: prompt ({nPrompt} tokens) + max_tokens ({maxTokens}) exceeds n_ctx ({nCtx}) — " ++
    "reduce the prompt or max_tokens"
  -- the addition is checked
  if 2 ^ 64 ≤ nPrompt + maxTokens then .error err
  else if nCtx < nPrompt + maxTokens then .error err
  else .ok ()

def decodeTokenPieces (utf8Error : Bytes → String) (bytes : Bytes) : Except String String :=
  match fromUtf8 bytes with
  | some text => .ok text
  | none => .error s!"generated text contains invalid UTF-8: {utf8Error bytes}"

/-- The windows of a length, in order. -/
def windows (n : Nat) (bytes : Bytes) : List Bytes :=
  (List.range (bytes.length + 1 - n)).map fun i => (bytes.drop i).take n

def containsStopSequence (bytes : Bytes) (stopTokens : List String) : Bool :=
  (stopTokens.filter fun s => s ≠ "" && s.utf8ByteSize ≤ bytes.length).any fun s =>
    (windows s.utf8ByteSize bytes).any fun w => w = utf8Bytes s

variable {b : Backend}

/-! ## The sampling loop -/

/-- The samplers over the logits at an index, and the token drawn. -/
def drawToken (b : Backend) (config : GenerationConfig) (state : b.State) (index : Int32)
    (window : Option (List Token)) : Token × b.State :=
  let candidates := (b.logits state index).mapIdx fun i x => (⟨Int32.ofNat i, x⟩ : Candidate)
  let candidates := match window with
    | some window => b.repetitionPenalties candidates window config.repeatPenalty
    | none => candidates
  let candidates := if 0 < config.temperature then b.temp candidates config.temperature else candidates
  let candidates := b.topK candidates config.topK.toInt32
  let candidates := b.topP candidates config.topP
  b.sampleToken state (b.softmax candidates)

/-- The variables of the loop, and the calls so far. -/
structure Sampling (b : Backend) where
  state : b.State
  textBytes : Bytes
  recent : List Token
  nGenerated : UInt32
  calls : List Call

/-- How the loop ends: with a `break` or at the limit, with an error, or with an index out of range. -/
inductive Ending where
  | stops
  | fails (err : String)
  | faults

/-- The buffer a token is written to. -/
def pieceBuffer (b : Backend) (token : Token) : Bytes :=
  ((b.tokenToPiece token 512).2 ++ List.replicate 512 0).take 512

/-- The bytes of a token. -/
def piece (b : Backend) (token : Token) : Bytes :=
  (pieceBuffer b token).take (b.tokenToPiece token 512).1.toNatClampNeg

/-- One turn; the loop goes on unless it says how it ends. -/
def samplingStep (b : Backend) (config : GenerationConfig) (nPrompt : Int32) (l : Sampling b) :
    Option Ending × Sampling b :=
  let index := if l.nGenerated = 0 then nPrompt - 1 else 0
  let window := if config.repeatPenalty ≠ 1 then some (penaltyWindow l.recent repeatPenaltyWindow) else none
  let drawn := drawToken b config l.state index window
  let token := drawn.1
  let l := { l with state := drawn.2, calls := l.calls ++ [.sample index window] }
  if token = b.tokenEos then (some .stops, l)
  else
    let l := { l with recent := l.recent ++ [token] }
    let nPiece := (b.tokenToPiece token 512).1
    if nPiece < 0 then (some (.fails "Failed to detokenize a generated token (invalid UTF-8)"), l)
    else if 512 < nPiece.toNatClampNeg then (some .faults, l)
    else
      let l := { l with textBytes := l.textBytes ++ piece b token }
      if containsStopSequence l.textBytes config.stopTokens then (some .stops, l)
      else
        let nGenerated := l.nGenerated + 1
        let batch := [⟨token, nPrompt + Int32.ofNat nGenerated.toNat - 1, true⟩]
        let decoded := b.decode l.state batch
        let l := { l with nGenerated := nGenerated, state := decoded.2, calls := l.calls ++ [.decode batch] }
        if decoded.1 ≠ 0 then (some (.fails s!"llama_decode failed (token {nGenerated}) with code {decoded.1}"), l)
        else (none, l)

/-- So many turns at most. -/
def samplingLoop (b : Backend) (config : GenerationConfig) (nPrompt : Int32) : Nat → Sampling b → Ending × Sampling b
  | 0, l => (.stops, l)
  | n + 1, l => match samplingStep b config nPrompt l with
    | (some ending, l) => (ending, l)
    | (none, l) => samplingLoop b config nPrompt n l

/-! ## The whole call -/

structure LlamaContext (b : Backend) where
  state : b.State
  /-- The memory the model takes, which the result repeats. -/
  ramMb : Nat
  config : GenerationConfig
  loaded : Bool

/-- What a generation returns, what it asked of the context, and the context after it. -/
structure Generated (b : Backend) where
  result : Outcome String GenerationResult
  calls : List Call
  state : b.State

/-- The batch of the prompt: the logits of its last token only. -/
def promptBatch (tokens : List Token) : List BatchToken :=
  tokens.mapIdx fun i token => ⟨token, Int32.ofNat i, i + 1 = tokens.length⟩

namespace LlamaContext

def realGenerate (c : LlamaContext b) (prompt : String) (elapsedMs : Nat) : Generated b :=
  let text := utf8Bytes prompt
  if 0 ∈ text then ⟨.error "Prompt contains an embedded NUL byte", [], c.state⟩
  else
    let nCtx := (b.nCtx c.state).toNat
    let tokenized := b.tokenize c.state text (Int32.ofNat text.length) (Int32.ofNat nCtx)
    let nPrompt := tokenized.1
    if nPrompt < 0 then ⟨.error "Prompt too long for the context window", [], c.state⟩
    else match checkContextFit nPrompt.toNatClampNeg c.config.maxTokens.toNat nCtx with
      | .error err => ⟨.error err, [], c.state⟩
      | .ok () =>
        let promptTokens := (tokenized.2 ++ List.replicate nCtx 0).take nCtx
        let tokens := promptTokens.take nPrompt.toNatClampNeg
        let batch := promptBatch tokens
        let decoded := b.decode c.state batch
        if decoded.1 ≠ 0 then
          ⟨.error s!"llama_decode failed (prompt) with code {decoded.1}", [.decode batch], decoded.2⟩
        else
          let start : Sampling b := ⟨decoded.2, [], tokens, 0, [.decode batch]⟩
          let (ending, l) := samplingLoop b c.config nPrompt c.config.maxTokens.toNat start
          match ending with
          | .faults => ⟨.panic, l.calls, l.state⟩
          | .fails err => ⟨.error err, l.calls, l.state⟩
          | .stops => match decodeTokenPieces b.utf8Error l.textBytes with
            | .error err => ⟨.error err, l.calls, l.state⟩
            | .ok text => ⟨.ok {
                text := text
                nTokens := l.nGenerated
                genTimeMs := elapsedMs
                tokensPerSec := if 0 < elapsedMs then l.nGenerated.toNat * 1000 / elapsedMs else l.nGenerated.toNat
                promptTokens := UInt32.ofNat nPrompt.toNatClampNeg
                peakMemMb := c.ramMb }, l.calls, l.state⟩

def generate (c : LlamaContext b) (prompt : String) (elapsedMs : Nat) : Generated b :=
  if !c.loaded then ⟨.error "Model not loaded.", [], c.state⟩ else c.realGenerate prompt elapsedMs

end LlamaContext

/-! ## Stop sequences -/

/-- Some stop sequence occurs in the text. -/
def Stopped (stopTokens : List String) (bytes : Bytes) : Prop :=
  ∃ s ∈ stopTokens, s ≠ "" ∧ utf8Bytes s <:+: bytes

theorem mem_windows {n : Nat} {bytes w : Bytes} (hn : n ≤ bytes.length) :
    w ∈ windows n bytes ↔ w.length = n ∧ w <:+: bytes := by
  simp only [windows, List.mem_map, List.mem_range]
  constructor
  · rintro ⟨i, hi, rfl⟩
    refine ⟨by simp only [List.length_take, List.length_drop]; omega, ?_⟩
    exact (List.take_prefix _ _).isInfix.trans (List.drop_suffix _ _).isInfix
  · rintro ⟨rfl, past, rest, rfl⟩
    refine ⟨past.length, ?_, ?_⟩
    · simp only [List.length_append]
      omega
    · rw [List.append_assoc, List.drop_left, List.take_left]

/-- **What is searched for is a stop sequence.** -/
theorem containsStopSequence_iff {bytes : Bytes} {stopTokens : List String} :
    containsStopSequence bytes stopTokens = true ↔ Stopped stopTokens bytes := by
  unfold containsStopSequence Stopped
  rw [List.any_eq_true]
  refine exists_congr fun s => ?_
  rw [List.mem_filter, and_assoc]
  refine and_congr_right fun _ => ?_
  simp only [ne_eq, decide_not, Bool.and_eq_true, Bool.not_eq_eq_eq_not, Bool.not_true, decide_eq_false_iff_not,
    decide_eq_true_eq, List.any_eq_true, and_assoc]
  refine and_congr_right fun _ => ?_
  rw [← length_utf8Bytes]
  constructor
  · rintro ⟨hle, w, hw, rfl⟩
    exact ((mem_windows hle).mp hw).2
  · intro hin
    exact ⟨hin.length_le, utf8Bytes s, (mem_windows hin.length_le).mpr ⟨rfl, hin⟩, rfl⟩

/-! ## What is asked of the context -/

def Call.batch : Call → List BatchToken
  | .decode batch => batch
  | .sample _ _ => []

/-- The tokens decoded over some calls, in order. -/
def decodedTokens (calls : List Call) : List BatchToken := calls.flatMap Call.batch

/-- A token is drawn from the logits of the one decoded last, and the last ones decoded are penalised. -/
structure Asked (config : GenerationConfig) (past : List Call) (index : Int32) (window : Option (List Token)) :
    Prop where
  last : ∃ earlier batch t, past = earlier ++ [.decode (batch ++ [t])] ∧ index = Int32.ofNat batch.length ∧
    t.logits = true
  penalised : window = if config.repeatPenalty ≠ 1
    then some (penaltyWindow ((decodedTokens past).map BatchToken.token) repeatPenaltyWindow) else none

/-- The calls have decoded a prompt and then some tokens, each at the next position, and drawn each as they should. -/
structure History (config : GenerationConfig) (prompt fed : List Token) (calls : List Call) : Prop where
  tokens : (decodedTokens calls).map BatchToken.token = prompt ++ fed
  positions : (decodedTokens calls).map BatchToken.pos = (List.range (prompt ++ fed).length).map Int32.ofNat
  asked : ∀ past index window rest, calls = past ++ .sample index window :: rest → Asked config past index window

variable {config : GenerationConfig} {prompt fed : List Token} {calls : List Call}

theorem decodedTokens_append (calls more : List Call) :
    decodedTokens (calls ++ more) = decodedTokens calls ++ decodedTokens more := List.flatMap_append

/-- A token is drawn, -/
theorem History.sample (hh : History config prompt fed calls) {index : Int32} {window : Option (List Token)}
    (ha : Asked config calls index window) : History config prompt fed (calls ++ [.sample index window]) := by
  have hdecoded : decodedTokens (calls ++ [.sample index window]) = decodedTokens calls := by
    rw [decodedTokens_append]
    exact List.append_nil _
  refine ⟨by rw [hdecoded]; exact hh.tokens, by rw [hdecoded]; exact hh.positions, fun past i w rest heq => ?_⟩
  rcases List.eq_nil_or_concat rest with rfl | ⟨rest', c, rfl⟩
  · obtain ⟨rfl, hlast⟩ := List.append_inj' heq rfl
    cases hlast
    exact ha
  · rw [List.concat_eq_append, ← List.cons_append, ← List.append_assoc] at heq
    exact hh.asked past i w rest' (List.append_inj' heq rfl).1

/-- and decoded at the next position. -/
theorem History.decode (hh : History config prompt fed calls) {token : Token} {pos : Int32} {logits : Bool}
    (hpos : pos = Int32.ofNat (prompt ++ fed).length) :
    History config prompt (fed ++ [token]) (calls ++ [.decode [⟨token, pos, logits⟩]]) := by
  have hdecoded : decodedTokens (calls ++ [.decode [⟨token, pos, logits⟩]]) =
      decodedTokens calls ++ [⟨token, pos, logits⟩] := by
    rw [decodedTokens_append]
    rfl
  refine ⟨?_, ?_, fun past i w rest heq => ?_⟩
  · rw [hdecoded, List.map_append, hh.tokens, List.append_assoc]
    rfl
  · have hlen : (prompt ++ (fed ++ [token])).length = (prompt ++ fed).length + 1 := by simp [Nat.add_assoc]
    rw [hdecoded, List.map_append, hh.positions, hlen, List.range_succ, List.map_append, List.map_singleton,
      List.map_singleton, hpos]
  · rcases List.eq_nil_or_concat rest with rfl | ⟨rest', c, rfl⟩
    · obtain ⟨-, hlast⟩ := List.append_inj' heq rfl
      cases hlast
    · rw [List.concat_eq_append, ← List.cons_append, ← List.append_assoc] at heq
      exact hh.asked past i w rest' (List.append_inj' heq rfl).1

/-! ## What holds in the loop -/

/-- What holds between two turns. -/
structure Steady (config : GenerationConfig) (prompt fed : List Token) (l : Sampling b) : Prop where
  history : History config prompt fed l.calls
  ready : ∃ earlier batch t, l.calls = earlier ++ [.decode (batch ++ [t])] ∧ t.logits = true ∧
    batch.length = if fed = [] then prompt.length - 1 else 0
  recent : l.recent = prompt ++ fed
  generated : l.nGenerated.toNat = fed.length
  text : l.textBytes = fed.flatMap (piece b)
  clear : ∀ ts, ts <+: fed → ts ≠ [] → ¬Stopped config.stopTokens (ts.flatMap (piece b))

/-- What holds at the end: the tokens fed back, and the one that ended the text with a stop sequence. -/
structure Final (config : GenerationConfig) (prompt fed last : List Token) (l : Sampling b) : Prop where
  history : History config prompt fed l.calls
  generated : l.nGenerated.toNat = fed.length
  text : l.textBytes = (fed ++ last).flatMap (piece b)
  clear : ∀ ts, ts <+: fed → ts ≠ [] → ¬Stopped config.stopTokens (ts.flatMap (piece b))
  last : last = [] ∨ ∃ t, last = [t] ∧ Stopped config.stopTokens ((fed ++ last).flatMap (piece b))

/-- A steady loop may end. -/
theorem Steady.final {l : Sampling b} (hs : Steady config prompt fed l) : Final config prompt fed [] l :=
  ⟨hs.history, hs.generated, by rw [List.append_nil]; exact hs.text, hs.clear, .inl rfl⟩

/-- What a turn comes to. -/
inductive Turned (config : GenerationConfig) (prompt fed : List Token) : Option Ending → Sampling b → Prop
  | goesOn {l : Sampling b} (token : Token) (hs : Steady config prompt (fed ++ [token]) l) :
    Turned config prompt fed none l
  | stops {l : Sampling b} (last : List Token) (hf : Final config prompt fed last l) :
    Turned config prompt fed (some .stops) l
  | fails {l : Sampling b} (err : String) (fed' : List Token) (hle : fed'.length ≤ fed.length + 1)
    (hh : History config prompt fed' l.calls) : Turned config prompt fed (some (.fails err)) l
  | faults {l : Sampling b} (token : Token) (hlong : 512 < (b.tokenToPiece token 512).1.toNatClampNeg)
    (hh : History config prompt fed l.calls) : Turned config prompt fed (some .faults) l

/-- The places of the prompt and of the tokens after it, as the code computes them. -/
theorem ofNat_pred {n : Nat} (hn : n ≠ 0) : Int32.ofNat n - 1 = Int32.ofNat (n - 1) := by
  obtain ⟨m, rfl⟩ := Nat.exists_eq_succ_of_ne_zero hn
  rw [Nat.succ_sub_one, Nat.succ_eq_add_one, Int32.ofNat_add]
  exact Int32.add_sub_cancel _ _

theorem ofNat_next (m n : Nat) : Int32.ofNat m + Int32.ofNat (n + 1) - 1 = Int32.ofNat (m + n) := by
  rw [← Int32.ofNat_add, ← Nat.add_assoc]
  exact ofNat_pred (Nat.succ_ne_zero _)

variable {l : Sampling b}

/-- The token is drawn from the logits of the last one. -/
theorem Steady.asked (hs : Steady config prompt fed l) (hne : prompt ≠ []) :
    Asked config l.calls (if l.nGenerated = 0 then Int32.ofNat prompt.length - 1 else 0)
      (if config.repeatPenalty ≠ 1 then some (penaltyWindow l.recent repeatPenaltyWindow) else none) := by
  obtain ⟨earlier, batch, t, hcalls, hlogits, hlen⟩ := hs.ready
  refine ⟨⟨earlier, batch, t, hcalls, ?_, hlogits⟩, ?_⟩
  · have hzero : l.nGenerated = 0 ↔ fed = [] := by
      rw [← UInt32.toNat_inj, hs.generated]
      exact List.length_eq_zero_iff
    rw [hlen]
    by_cases hfed : fed = []
    · rw [if_pos (hzero.mpr hfed), if_pos hfed]
      exact ofNat_pred fun hnil => hne (List.length_eq_zero_iff.mp hnil)
    · rw [if_neg (mt hzero.mp hfed), if_neg hfed]
      rfl
  · rw [hs.recent, hs.history.tokens]

/-- **One turn.** -/
theorem samplingStep_spec (hs : Steady config prompt fed l) (hne : prompt ≠ []) (hroom : fed.length + 1 < 2 ^ 32) :
    Turned config prompt fed (samplingStep b config (Int32.ofNat prompt.length) l).1
      (samplingStep b config (Int32.ofNat prompt.length) l).2 := by
  have hsample := hs.history.sample (hs.asked hne)
  have hnext : (l.nGenerated + 1).toNat = fed.length + 1 := by
    rw [UInt32.toNat_add, hs.generated, UInt32.toNat_one]
    exact Nat.mod_eq_of_lt hroom
  unfold samplingStep
  dsimp only
  generalize drawToken b config l.state _ _ = drawn
  have htext : l.textBytes ++ piece b drawn.1 = (fed ++ [drawn.1]).flatMap (piece b) := by
    rw [hs.text, List.flatMap_append, List.flatMap_singleton]
  split
  · exact .stops [] ⟨hsample, hs.generated, by rw [List.append_nil]; exact hs.text, hs.clear, .inl rfl⟩
  split
  · exact .fails _ fed (Nat.le_succ _) hsample
  split
  · next hlong => exact .faults drawn.1 hlong hsample
  split
  · next hstop =>
    rw [containsStopSequence_iff, htext] at hstop
    exact .stops [drawn.1] ⟨hsample, hs.generated, htext, hs.clear, .inr ⟨_, rfl, hstop⟩⟩
  next hgoes =>
    rw [containsStopSequence_iff, htext] at hgoes
    have hpos : Int32.ofNat prompt.length + Int32.ofNat (l.nGenerated + 1).toNat - 1 =
        Int32.ofNat (prompt ++ fed).length := by
      rw [hnext, List.length_append]
      exact ofNat_next _ _
    have hdecode : History config prompt (fed ++ [drawn.1]) (_ ++ [.decode [⟨drawn.1, _, true⟩]]) :=
      hsample.decode hpos
    split
    · exact .fails _ (fed ++ [drawn.1]) (by simp) hdecode
    · refine .goesOn drawn.1 ⟨hdecode, ⟨_, [], _, rfl, rfl, by simp⟩, ?_, ?_, htext, fun ts hts hts' => ?_⟩
      · show l.recent ++ [drawn.1] = _
        rw [hs.recent, List.append_assoc]
      · rw [List.length_append, List.length_singleton]
        exact hnext
      · rcases List.prefix_concat_iff.mp hts with rfl | hpast
        · exact hgoes
        · exact hs.clear ts hpast hts'

/-- What the loop comes to. -/
inductive Ended (config : GenerationConfig) (prompt : List Token) (limit : Nat) : Ending → Sampling b → Prop
  | stops {l : Sampling b} (fed last : List Token) (hle : fed.length ≤ limit) (hf : Final config prompt fed last l) :
    Ended config prompt limit .stops l
  | fails {l : Sampling b} (err : String) (fed : List Token) (hle : fed.length ≤ limit)
    (hh : History config prompt fed l.calls) : Ended config prompt limit (.fails err) l
  | faults {l : Sampling b} (token : Token) (hlong : 512 < (b.tokenToPiece token 512).1.toNatClampNeg)
    (fed : List Token) (hle : fed.length ≤ limit) (hh : History config prompt fed l.calls) :
    Ended config prompt limit .faults l

/-- **The loop.** -/
theorem samplingLoop_spec (hne : prompt ≠ []) (n : Nat) : ∀ {fed : List Token} {l : Sampling b},
    Steady config prompt fed l → fed.length + n < 2 ^ 32 →
    Ended config prompt (fed.length + n) (samplingLoop b config (Int32.ofNat prompt.length) n l).1
      (samplingLoop b config (Int32.ofNat prompt.length) n l).2 := by
  induction n with
  | zero => exact fun {fed l} hs _ => .stops fed [] (Nat.le_refl _) hs.final
  | succ n ih =>
    intro fed l hs hroom
    have hstep := samplingStep_spec hs hne (by omega)
    unfold samplingLoop
    generalize samplingStep b config (Int32.ofNat prompt.length) l = turned at hstep
    obtain ⟨ending, l'⟩ := turned
    cases hstep with
    | goesOn token hs' =>
      have hend := ih hs' (by rw [List.length_append, List.length_singleton]; omega)
      rw [List.length_append, List.length_singleton, Nat.add_assoc, Nat.add_comm 1 n] at hend
      exact hend
    | stops last hf => exact .stops fed last (Nat.le_add_right _ _) hf
    | fails err fed' hle hh => exact .fails err fed' (by omega) hh
    | faults token hlong hh => exact .faults token hlong fed (Nat.le_add_right _ _) hh

/-! ## The prompt -/

theorem length_promptBatch (tokens : List Token) : (promptBatch tokens).length = tokens.length := List.length_mapIdx

/-- Decoding the prompt puts its tokens at the first positions. -/
theorem history_prompt (config : GenerationConfig) (prompt : List Token) :
    History config prompt [] [.decode (promptBatch prompt)] := by
  have hdecoded : decodedTokens [.decode (promptBatch prompt)] = promptBatch prompt := List.append_nil _
  refine ⟨?_, ?_, fun past i w rest heq => ?_⟩
  · rw [hdecoded, List.append_nil]
    exact List.ext_getElem (by simp [promptBatch]) fun i _ _ => by simp [promptBatch]
  · rw [hdecoded, List.append_nil]
    exact List.ext_getElem (by simp [promptBatch]) fun i _ _ => by simp [promptBatch]
  · have hnone : ∀ c ∈ past ++ Call.sample i w :: rest, c = .decode (promptBatch prompt) := fun c hc =>
      List.mem_singleton.mp (heq ▸ hc)
    have hmine := hnone (.sample i w) (by simp)
    cases hmine

theorem steady_start (config : GenerationConfig) {prompt : List Token} (hne : prompt ≠ []) (state : b.State) :
    Steady config prompt [] (⟨state, [], prompt, 0, [.decode (promptBatch prompt)]⟩ : Sampling b) := by
  refine ⟨history_prompt config prompt, ?_, (List.append_nil _).symm, rfl, rfl, fun ts hts hts' => ?_⟩
  · have hlen := length_promptBatch prompt
    obtain hnil | ⟨batch, t, hbatch⟩ := List.eq_nil_or_concat (promptBatch prompt)
    · rw [hnil] at hlen
      exact absurd (List.length_eq_zero_iff.mp hlen.symm) hne
    · rw [List.concat_eq_append] at hbatch
      rw [hbatch, List.length_append, List.length_singleton] at hlen
      refine ⟨[], batch, t, by rw [hbatch]; rfl, ?_, ?_⟩
      · have hlast : (promptBatch prompt)[batch.length]? = some t := by
          rw [hbatch, List.getElem?_append_right (Nat.le_refl _), Nat.sub_self]
          rfl
        rw [promptBatch, List.getElem?_mapIdx] at hlast
        obtain ⟨token, -, rfl⟩ := Option.map_eq_some_iff.mp hlast
        exact decide_eq_true hlen
      · rw [if_pos rfl]
        omega
  · exact absurd (List.prefix_nil.mp hts) hts'

/-! ## Soundness -/

theorem checkContextFit_ok {nPrompt maxTokens nCtx : Nat} (h : checkContextFit nPrompt maxTokens nCtx = .ok ()) :
    nPrompt + maxTokens ≤ nCtx := by
  unfold checkContextFit at h
  dsimp only at h
  split at h
  · cases h
  split at h
  · cases h
  · omega

theorem decodeTokenPieces_ok {utf8Error : Bytes → String} {bytes : Bytes} {text : String}
    (h : decodeTokenPieces utf8Error bytes = .ok text) : utf8Bytes text = bytes := by
  unfold decodeTokenPieces at h
  split at h
  · next hread =>
    cases h
    exact utf8Bytes_fromUtf8 hread
  · cases h

/-- The text of a result, and what it was made of: the tokens fed back to the model, and the one that ended it with a
stop sequence. -/
structure Spelled (config : GenerationConfig) (calls : List Call) (b : Backend) (r : GenerationResult)
    (prompt fed last : List Token) : Prop where
  tokens : (decodedTokens calls).map BatchToken.token = prompt ++ fed
  promptTokens : r.promptTokens.toNat = prompt.length
  nTokens : r.nTokens.toNat = fed.length
  limit : fed.length ≤ config.maxTokens.toNat
  text : utf8Bytes r.text = (fed ++ last).flatMap (piece b)
  clear : ∀ ts, ts <+: fed → ts ≠ [] → ¬Stopped config.stopTokens (ts.flatMap (piece b))
  last : last = [] ∨ ∃ t, last = [t] ∧ Stopped config.stopTokens (utf8Bytes r.text)

/-- What a generation may do to a context with room for `nCtx` tokens, and what it may return. -/
structure Sound (config : GenerationConfig) (nCtx : Nat) (g : Generated b) : Prop where
  asked : ∀ past index window rest, g.calls = past ++ .sample index window :: rest → Asked config past index window
  positions : (decodedTokens g.calls).map (fun t => t.pos.toInt) =
    (List.range (decodedTokens g.calls).length).map Int.ofNat
  room : (decodedTokens g.calls).length ≤ nCtx
  calm : (∀ token, (b.tokenToPiece token 512).1.toNatClampNeg ≤ 512) → g.result.Calm
  spelled : ∀ r, g.result = .ok r → ∃ prompt fed last, Spelled config g.calls b r prompt fed last

/-- A generation that is refused asks nothing. -/
theorem sound_refused (config : GenerationConfig) (nCtx : Nat) (err : String) (state : b.State) :
    Sound config nCtx (⟨.error err, [], state⟩ : Generated b) :=
  ⟨fun _ _ _ _ heq => absurd heq (by simp), rfl, Nat.zero_le _, fun _ => Outcome.calm_error err,
    fun _ hr => nomatch hr⟩

/-- Tokens that fit the context are decoded within it. -/
theorem History.sound (hh : History config prompt fed calls) {nCtx : Nat} (hctx : nCtx < 2 ^ 31)
    (hfit : (prompt ++ fed).length ≤ nCtx) {result : Outcome String GenerationResult} {state : b.State}
    (hcalm : (∀ token, (b.tokenToPiece token 512).1.toNatClampNeg ≤ 512) → result.Calm)
    (hspelled : ∀ r, result = .ok r → ∃ prompt fed last, Spelled config calls b r prompt fed last) :
    Sound config nCtx (⟨result, calls, state⟩ : Generated b) := by
  have hlen : (decodedTokens calls).length = (prompt ++ fed).length := by
    rw [← hh.tokens, List.length_map]
  refine ⟨hh.asked, ?_, hlen ▸ hfit, hcalm, hspelled⟩
  show (decodedTokens calls).map (fun t => t.pos.toInt) = (List.range (decodedTokens calls).length).map Int.ofNat
  rw [hlen, show (decodedTokens calls).map (fun t => t.pos.toInt) =
    ((decodedTokens calls).map BatchToken.pos).map Int32.toInt by rw [List.map_map]; rfl, hh.positions, List.map_map]
  refine List.map_congr_left fun i hi => ?_
  have hlt := List.mem_range.mp hi
  exact Int32.toInt_ofNat_of_lt (by omega)

/-- **Generation is sound.** Whatever the backend does, as long as it refuses an empty batch and its context holds less
than `2 ^ 31` tokens: a generation decodes tokens at the positions 0, 1, 2 and so on, all of them within the context;
each token it draws is drawn from the logits of the token decoded last, with the last 64 decoded penalised; and it
returns, if the pieces of tokens fit their buffer. What it returns as text is what the tokens fed back spell, at most as
many as asked for, with no stop sequence but in the piece of one more token that ended it. -/
theorem generate_sound (b : Backend) (hempty : ∀ state, (b.decode state []).1 ≠ 0) (c : LlamaContext b)
    (hctx : (b.nCtx c.state).toNat < 2 ^ 31) (prompt : String) (elapsedMs : Nat) :
    Sound c.config (b.nCtx c.state).toNat (c.generate prompt elapsedMs) := by
  unfold LlamaContext.generate
  split
  · exact sound_refused _ _ _ _
  unfold LlamaContext.realGenerate
  dsimp only
  split
  · exact sound_refused _ _ _ _
  generalize b.tokenize c.state _ _ _ = tokenized
  obtain ⟨nPrompt, written⟩ := tokenized
  dsimp only
  split
  · exact sound_refused _ _ _ _
  next hpos =>
  split
  · exact sound_refused _ _ _ _
  next hfits =>
  have hfit := checkContextFit_ok hfits
  generalize htokens : List.take nPrompt.toNatClampNeg
    (List.take (b.nCtx c.state).toNat (written ++ List.replicate (b.nCtx c.state).toNat 0)) = tokens
  have hlen : tokens.length = nPrompt.toNatClampNeg := by
    rw [← htokens]
    simp only [List.length_take, List.length_append, List.length_replicate]
    omega
  have hprompt : nPrompt = Int32.ofNat tokens.length := by
    rw [hlen]
    exact (Int32.ofNat_toNatClampNeg nPrompt (Int32.not_lt.mp hpos)).symm
  have hstart := history_prompt c.config tokens
  have hstarts : (tokens ++ []).length ≤ (b.nCtx c.state).toNat := by
    rw [List.append_nil]
    omega
  split
  · exact hstart.sound hctx hstarts (fun _ => Outcome.calm_error _) fun _ hr => nomatch hr
  next hdecoded =>
  have hne : tokens ≠ [] := by
    rintro rfl
    exact hempty c.state (not_not.mp hdecoded)
  have hend := samplingLoop_spec hne c.config.maxTokens.toNat
    (steady_start c.config hne (b.decode c.state (promptBatch tokens)).2)
    (by rw [List.length_nil, Nat.zero_add]; exact c.config.maxTokens.toNat_lt)
  rw [← hprompt, List.length_nil, Nat.zero_add] at hend
  generalize samplingLoop b c.config nPrompt c.config.maxTokens.toNat _ = ended at hend
  obtain ⟨ending, l⟩ := ended
  have hroom : ∀ fed : List Token, fed.length ≤ c.config.maxTokens.toNat →
      (tokens ++ fed).length ≤ (b.nCtx c.state).toNat := by
    intro fed hle
    rw [List.length_append]
    omega
  cases hend with
  | fails err fed hle hh => exact hh.sound hctx (hroom fed hle) (fun _ => Outcome.calm_error _) fun _ hr => nomatch hr
  | faults token hlong fed hle hh =>
    exact hh.sound hctx (hroom fed hle) (fun hshort => absurd (hshort token) (Nat.not_le.mpr hlong))
      fun _ hr => nomatch hr
  | stops fed last hle hf =>
    dsimp only
    cases htext : decodeTokenPieces b.utf8Error l.textBytes with
    | error err => exact hf.history.sound hctx (hroom fed hle) (fun _ => Outcome.calm_error _) fun _ hr => nomatch hr
    | ok text =>
      refine hf.history.sound hctx (hroom fed hle) (fun _ => Outcome.calm_ok _) fun r hr => ?_
      have hspelled := (decodeTokenPieces_ok htext).trans hf.text
      cases hr
      refine ⟨tokens, fed, last, hf.history.tokens, ?_, hf.generated, hle, hspelled, hf.clear, ?_⟩
      · have hlt := Int32.toNatClampNeg_lt nPrompt
        rw [hlen]
        exact UInt32.toNat_ofNat_of_lt' (hlt.trans (by decide))
      · rw [hspelled]
        exact hf.last

/-! ## A model of five tokens -/

/-- The token that follows: an answer to a question, letter by letter. -/
def follows : Token → Token
  | 2 => 3
  | 3 => 4
  | _ => 1

/-- A start token, an end token and three letters; the context holds the tokens decoded, and the likeliest is drawn. -/
def letterBackend : Backend where
  State := List Token
  nCtx _ := 512
  tokenize _ text _ _ := (Int32.ofNat (text.length + 1), 0 :: text.map fun byte => if byte = 0x3f then 2 else 3)
  decode state batch := if batch = [] then (-1, state) else (0, state ++ batch.map BatchToken.token)
  logits state _ := (List.range 5).map fun i => if Int32.ofNat i = follows (state.getLast?.getD 0) then 1 else 0
  repetitionPenalties candidates _ _ := candidates
  temp candidates t := candidates.map fun c => ⟨c.id, c.logit / t⟩
  topK candidates _ := candidates
  topP candidates _ := candidates
  softmax candidates := candidates
  sampleToken state candidates := (((candidates.find? fun c => 0 < c.logit).map Candidate.id).getD 1, state)
  tokenEos := 1
  tokenToPiece token _ := match token with
    | 2 => (1, [0x3f])
    | 3 => (1, [0x4f])
    | 4 => (1, [0x4b])
    | _ => (0, [])
  utf8Error _ := "invalid utf-8 sequence of 1 bytes from index 0"

def letterContext : LlamaContext letterBackend := ⟨[], 325, .default, true⟩

/-- Asked a question, it says OK. -/
theorem generate_sound_ok :
    (letterContext.generate "?" 200).result = .ok ⟨"OK", 2, 200, 10, 2, 325⟩ ∧
    (decodedTokens (letterContext.generate "?" 200).calls).map (fun t => t.pos.toInt) = [0, 1, 2, 3] := by
  have hempty : ∀ state, (letterBackend.decode state []).1 ≠ 0 := fun _ => (by decide : (-1 : Int32) ≠ 0)
  have hs := generate_sound letterBackend hempty letterContext (by decide) "?" 200
  have hlen : (decodedTokens (letterContext.generate "?" 200).calls).length = 4 := by decide +kernel
  exact ⟨by decide +kernel, by rw [hs.positions, hlen]; rfl⟩

end Onde.Llm
