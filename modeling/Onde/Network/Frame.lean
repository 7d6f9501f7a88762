import Onde.Lib.Bytes

/-!
# Framing on a byte stream

* `encodeFrame`: a big-endian `u32` length and the payload;
* `FrameReader`: the incremental reader, which keeps a partial header and body across polls;
* `parse`: what a whole stream means; `results_eq_parse`: polling a socket until the stream ends gives exactly that,
  however the stream is split into reads and whatever reads fail in between.
-/

namespace Onde.Network

open Onde.Lib

def frameHeaderLen : Nat := 4
def maxFramePayload : Nat := 16384

/-- A length header and the payload. -/
def encodeFrame (payload : Bytes) : Except String Bytes :=
  if maxFramePayload < payload.length then
    .error s!"tcp frame payload too large: {payload.length} bytes (max {maxFramePayload})"
  else .ok (beBytes frameHeaderLen payload.length ++ payload)

/-! ## The socket -/

/-- Why a read fails. -/
inductive IoErrorKind where
  | wouldBlock | timedOut | interrupted
  | other (message : String)

/-- The failures after which the read is tried again. -/
def IoErrorKind.retryable : IoErrorKind → Bool
  | .wouldBlock | .timedOut | .interrupted => true
  | .other _ => false

def IoErrorKind.text : IoErrorKind → String
  | .wouldBlock => "operation would block"
  | .timedOut => "timed out"
  | .interrupted => "operation interrupted"
  | .other message => message

/-- What the socket does next: it has bytes, at least one, or it fails a read. -/
inductive SocketEvent where
  | bytes (first : UInt8) (more : Bytes)
  | fail (kind : IoErrorKind)

/-- The events of a socket up to its end. -/
abbrev Socket := List SocketEvent

/-- The bytes the socket still delivers. -/
def stream : Socket → Bytes
  | [] => []
  | .bytes b bs :: s => b :: bs ++ stream s
  | .fail _ :: s => stream s

/-- The bytes and the events that are left. -/
def weight (s : Socket) : Nat := (stream s).length + s.length

/-- No read fails for good. -/
def Retryable (s : Socket) : Prop := ∀ kind, SocketEvent.fail kind ∈ s → kind.retryable = true

/-- Bytes put back in front. -/
def unread : Bytes → Socket → Socket
  | [], s => s
  | b :: bs, s => .bytes b bs :: s

/-- Read at most `n` bytes; no bytes mean the end. -/
def read (n : Nat) : Socket → Except IoErrorKind Bytes × Socket
  | [] => (.ok [], [])
  | .bytes b bs :: s => (.ok ((b :: bs).take n), unread ((b :: bs).drop n) s)
  | .fail kind :: s => (.error kind, s)

theorem stream_unread (bs : Bytes) (s : Socket) : stream (unread bs s) = bs ++ stream s := by
  cases bs <;> rfl

/-- **What a read does.** -/
theorem read_spec (n : Nat) (hn : 0 < n) (s : Socket) :
    (s = [] ∧ read n s = (.ok [], [])) ∨
    (∃ bs s', read n s = (.ok bs, s') ∧ bs ≠ [] ∧ bs.length ≤ n ∧ stream s = bs ++ stream s' ∧ weight s' < weight s ∧
      (Retryable s → Retryable s')) ∨
    (∃ kind s', read n s = (.error kind, s') ∧ stream s' = stream s ∧ weight s' < weight s ∧
      (Retryable s → Retryable s' ∧ kind.retryable = true)) := by
  match s with
  | [] => exact Or.inl ⟨rfl, rfl⟩
  | .fail kind :: s =>
    refine Or.inr (Or.inr ⟨kind, s, rfl, rfl, ?_, fun h => ⟨fun k hk => h k (List.mem_cons_of_mem _ hk),
      h kind List.mem_cons_self⟩⟩)
    simp [weight, stream]
  | .bytes b bs :: s =>
    have hstream : stream (.bytes b bs :: s) = (b :: bs).take n ++ stream (unread ((b :: bs).drop n) s) := by
      rw [stream_unread, ← List.append_assoc, List.take_append_drop]
      rfl
    have hlen : 0 < ((b :: bs).take n).length := by simp only [List.length_take, List.length_cons]; omega
    refine Or.inr (Or.inl
      ⟨_, _, rfl, List.ne_nil_of_length_pos hlen, List.length_take_le _ _, hstream, ?_, fun h => ?_⟩)
    · rw [weight, weight, hstream, List.length_append]
      have : (unread ((b :: bs).drop n) s).length ≤ (SocketEvent.bytes b bs :: s).length := by
        cases (b :: bs).drop n <;> simp [unread]
      omega
    · intro kind hk
      have hk' : SocketEvent.fail kind ∈ s := by
        cases hd : (b :: bs).drop n <;> rw [hd] at hk <;> simpa [unread] using hk
      exact h kind (List.mem_cons_of_mem _ hk')

/-! ## The reader -/

/-- The result of a poll. -/
inductive FramePoll where
  | pending
  | frame (payload : Bytes)
  | eof
  | fatal (message : String)
  deriving DecidableEq

/-- A partial header and a partial body. -/
structure FrameReader where
  header : Bytes
  headerFill : Nat
  body : Bytes
  bodyFill : Nat

namespace FrameReader

def new : FrameReader := ⟨List.replicate frameHeaderLen 0, 0, [], 0⟩

/-- No byte of a frame has been consumed. -/
def betweenFrames (r : FrameReader) : Bool := r.headerFill = 0 ∧ r.body = []

def reset (r : FrameReader) : FrameReader := { r with headerFill := 0, body := [], bodyFill := 0 }

/-- Write bytes into a buffer at an offset. -/
def fillAt (buf : Bytes) (fill : Nat) (bs : Bytes) : Bytes := buf.take fill ++ bs ++ buf.drop (fill + bs.length)

/-- One turn of the loop: go on, or return. -/
inductive Turn where
  | again (r : FrameReader) (s : Socket)
  | done (p : FramePoll) (r : FrameReader) (s : Socket)

/-- The checks on a complete header, before any of the body is read. -/
def headerTurn (r : FrameReader) (s : Socket) : Turn :=
  let declaredRaw := ofBe r.header
  if declaredRaw = 0 then .done (.fatal "tcp frame declares zero length") r.reset s
  else if maxFramePayload < declaredRaw then
    .done (.fatal s!"tcp frame too large: declared {declaredRaw} bytes (max {maxFramePayload})") r.reset s
  else .again { r with body := List.replicate declaredRaw 0 } s

/-- A failed read: wait, or give up. -/
def failTurn (kind : IoErrorKind) (what : String) (r : FrameReader) (s : Socket) : Turn :=
  if kind.retryable then .done .pending r s else .done (.fatal s!"tcp read {what} failed: {kind.text}") r s

/-- One turn of the loop of `poll`. -/
def turn (r : FrameReader) (s : Socket) : Turn :=
  if r.headerFill < frameHeaderLen then
    match read (frameHeaderLen - r.headerFill) s with
    | (.ok [], s) =>
      .done (if r.betweenFrames then .eof else .fatal "tcp frame truncated in header (peer closed mid-frame)") r s
    | (.ok (b :: bs), s) =>
      let r := { r with
        header := fillAt r.header r.headerFill (b :: bs)
        headerFill := r.headerFill + (b :: bs).length }
      if r.headerFill < frameHeaderLen then .again r s else headerTurn r s
    | (.error kind, s) => failTurn kind "header" r s
  else
    match read (r.body.length - r.bodyFill) s with
    | (.ok [], s) => .done (.fatal "tcp frame truncated in payload (peer closed mid-frame)") r s
    | (.ok (b :: bs), s) =>
      let r := { r with
        body := fillAt r.body r.bodyFill (b :: bs)
        bodyFill := r.bodyFill + (b :: bs).length }
      if r.bodyFill = r.body.length then .done (.frame r.body) r.reset s else .again r s
    | (.error kind, s) => failTurn kind "payload" r s

/-! ## What the reader holds -/

/-- The bytes of the current frame read so far. -/
def held (r : FrameReader) : Bytes := r.header.take r.headerFill ++ r.body.take r.bodyFill

/-- The reader is inside a header, or inside the body the header declares. -/
structure Inv (r : FrameReader) : Prop where
  header_len : r.header.length = frameHeaderLen
  fill : (r.headerFill < frameHeaderLen ∧ r.body = [] ∧ r.bodyFill = 0) ∨
    (r.headerFill = frameHeaderLen ∧ 0 < r.body.length ∧ r.body.length ≤ maxFramePayload ∧
      r.body.length = ofBe r.header ∧ r.bodyFill < r.body.length)

theorem inv_new : Inv new := ⟨rfl, Or.inl ⟨by decide, rfl, rfl⟩⟩

theorem Inv.reset {r : FrameReader} (h : Inv r) : Inv r.reset := ⟨h.header_len, Or.inl ⟨Nat.zero_lt_succ 3, rfl, rfl⟩⟩

theorem length_fillAt {buf bs : Bytes} {fill : Nat} (h : fill + bs.length ≤ buf.length) :
    (fillAt buf fill bs).length = buf.length := by
  simp only [fillAt, List.length_append, List.length_take, List.length_drop]
  omega

theorem take_fillAt {buf bs : Bytes} {fill : Nat} (h : fill + bs.length ≤ buf.length) :
    (fillAt buf fill bs).take (fill + bs.length) = buf.take fill ++ bs := by
  have hl : (buf.take fill ++ bs).length = fill + bs.length := by
    rw [List.length_append, List.length_take]
    omega
  rw [fillAt, ← hl, List.take_left]

end FrameReader

/-! ## The reference parse -/

/-- What a whole stream means: the results up to the first that ends it, and the bytes that are not read. -/
def parse (bs : Bytes) : List FramePoll × Bytes :=
  if _h : bs.length < frameHeaderLen then
    ([if bs = [] then .eof else .fatal "tcp frame truncated in header (peer closed mid-frame)"], [])
  else
    let declared := ofBe (bs.take frameHeaderLen)
    let rest := bs.drop frameHeaderLen
    if declared = 0 then ([.fatal "tcp frame declares zero length"], rest)
    else if maxFramePayload < declared then
      ([.fatal s!"tcp frame too large: declared {declared} bytes (max {maxFramePayload})"], rest)
    else if rest.length < declared then
      ([.fatal "tcp frame truncated in payload (peer closed mid-frame)"], [])
    else
      let tail := parse (rest.drop declared)
      (.frame (rest.take declared) :: tail.1, tail.2)
termination_by bs.length
decreasing_by
  have : 0 < bs.length := Nat.lt_of_lt_of_le (Nat.zero_lt_succ 3) (Nat.le_of_not_lt _h)
  simp only [List.length_drop, frameHeaderLen]
  omega

/-- The end of the stream inside a header. -/
theorem parse_short {bs : Bytes} (h : bs.length < frameHeaderLen) : parse bs =
    ([if bs = [] then .eof else .fatal "tcp frame truncated in header (peer closed mid-frame)"], []) := by
  rw [parse, dif_pos h]

section
variable {h p t : Bytes} (hl : h.length = frameHeaderLen)
include hl

theorem parse_header : ¬(h ++ t).length < frameHeaderLen ∧ (h ++ t).take frameHeaderLen = h ∧
    (h ++ t).drop frameHeaderLen = t := by
  refine ⟨?_, ?_, ?_⟩
  · rw [List.length_append]; omega
  · rw [← hl, List.take_left]
  · rw [← hl, List.drop_left]

theorem parse_zero (hz : ofBe h = 0) : parse (h ++ t) = ([.fatal "tcp frame declares zero length"], t) := by
  obtain ⟨h₁, h₂, h₃⟩ := parse_header (t := t) hl
  rw [parse, dif_neg h₁]
  simp only [h₂, h₃, hz, if_true]

theorem parse_large (hz : maxFramePayload < ofBe h) : parse (h ++ t) =
    ([.fatal s!"tcp frame too large: declared {ofBe h} bytes (max {maxFramePayload})"], t) := by
  obtain ⟨h₁, h₂, h₃⟩ := parse_header (t := t) hl
  rw [parse, dif_neg h₁]
  simp only [h₂, h₃, if_neg (Nat.ne_of_gt (Nat.lt_of_le_of_lt (Nat.zero_le _) hz)), if_pos hz]

theorem parse_truncated (h0 : 0 < ofBe h) (hm : ofBe h ≤ maxFramePayload) (ht : t.length < ofBe h) :
    parse (h ++ t) = ([.fatal "tcp frame truncated in payload (peer closed mid-frame)"], []) := by
  obtain ⟨h₁, h₂, h₃⟩ := parse_header (t := t) hl
  rw [parse, dif_neg h₁]
  simp only [h₂, h₃, if_neg (Nat.ne_of_gt h0), if_neg (Nat.not_lt.mpr hm), if_pos ht]

theorem parse_frame (h0 : 0 < p.length) (hm : p.length ≤ maxFramePayload) (hp : p.length = ofBe h) :
    parse (h ++ p ++ t) = (.frame p :: (parse t).1, (parse t).2) := by
  obtain ⟨h₁, h₂, h₃⟩ := parse_header (t := p ++ t) hl
  rw [List.append_assoc, parse, dif_neg h₁]
  simp only [h₂, h₃, ← hp, if_neg (Nat.ne_of_gt h0), if_neg (Nat.not_lt.mpr hm), List.length_append,
    if_neg (Nat.not_lt.mpr (Nat.le_add_right _ _)), List.take_left, List.drop_left]

end

/-! ## Polling -/

namespace FrameReader

/-- A turn that goes on, or returns but for the end of the stream, uses up some of the socket. -/
def Turn.Shrinks (s : Socket) : Turn → Prop
  | .again _ s' => weight s' < weight s
  | .done .pending _ s' => weight s' < weight s
  | .done (.frame _) _ s' => weight s' < weight s
  | .done _ _ _ => True

theorem failTurn_shrinks {kind : IoErrorKind} {what : String} {r : FrameReader} {s s' : Socket}
    (h : weight s' < weight s) : (failTurn kind what r s').Shrinks s := by
  unfold failTurn
  split
  · exact h
  · trivial

theorem headerTurn_shrinks {r : FrameReader} {s s' : Socket} (h : weight s' < weight s) :
    (headerTurn r s').Shrinks s := by
  unfold headerTurn
  dsimp only
  split
  · trivial
  split
  · trivial
  · exact h

theorem weight_read {n : Nat} {s s' : Socket} {b : UInt8} {bs : Bytes} (h : read n s = (.ok (b :: bs), s')) :
    weight s' < weight s := by
  have hn : 0 < n := by
    cases n with
    | zero => cases s with
      | nil => cases h
      | cons e s => cases e <;> cases h
    | succ n => omega
  rcases read_spec n hn s with ⟨_, he⟩ | ⟨_, s₁, he, _, _, _, hw, _⟩ | ⟨_, _, he, _⟩ <;> rw [he] at h <;> cases h
  exact hw

theorem weight_read_error {n : Nat} {s s' : Socket} {kind : IoErrorKind} (h : read n s = (.error kind, s')) :
    weight s' < weight s := by
  match s with
  | [] => cases h
  | .bytes b bs :: s => cases h
  | .fail kind :: s =>
    cases h
    simp [weight, stream]

theorem turn_shrinks (r : FrameReader) (s : Socket) : (turn r s).Shrinks s := by
  unfold turn
  split
  · split
    · split <;> trivial
    · next hread =>
      dsimp only
      split
      · exact weight_read hread
      · exact headerTurn_shrinks (weight_read hread)
    · next hread => exact failTurn_shrinks (weight_read_error hread)
  · split
    · trivial
    · next hread =>
      dsimp only
      split <;> exact weight_read hread
    · next hread => exact failTurn_shrinks (weight_read_error hread)

/-- Turns until one returns. -/
def poll (r : FrameReader) (s : Socket) : FramePoll × FrameReader × Socket :=
  match _h : turn r s with
  | .again r' s' => poll r' s'
  | .done p r' s' => (p, r', s')
termination_by weight s
decreasing_by
  have hs := turn_shrinks r s
  rw [_h] at hs
  exact hs

theorem poll_again {r r' : FrameReader} {s s' : Socket} (h : turn r s = .again r' s') : poll r s = poll r' s' := by
  rw [poll]
  split <;> simp_all

theorem poll_done {r r' : FrameReader} {s s' : Socket} {p : FramePoll} (h : turn r s = .done p r' s') :
    poll r s = (p, r', s') := by
  rw [poll]
  split <;> simp_all

/-- A poll that waits or returns a frame uses up some of the socket. -/
theorem poll_shrinks (r : FrameReader) (s : Socket) :
    (Turn.done (poll r s).1 (poll r s).2.1 (poll r s).2.2).Shrinks s := by
  have hs := turn_shrinks r s
  cases h : turn r s with
  | done p r' s' =>
    rw [poll_done h]
    rwa [h] at hs
  | again r' s' =>
    rw [h] at hs
    have hlt : weight s' < weight s := hs
    have ih := poll_shrinks r' s'
    rw [poll_again h]
    generalize poll r' s' = q at ih
    obtain ⟨p, r', s''⟩ := q
    cases p with
    | pending => exact Nat.lt_trans ih hlt
    | frame _ => exact Nat.lt_trans ih hlt
    | eof => trivial
    | fatal _ => trivial
termination_by weight s

/-- The results of polling until the stream ends, without the waits, and the socket that is left. -/
def results (r : FrameReader) (s : Socket) : List FramePoll × Socket :=
  match _h : poll r s with
  | (.pending, r', s') => results r' s'
  | (.frame p, r', s') =>
    let tail := results r' s'
    (.frame p :: tail.1, tail.2)
  | (p, _, s') => ([p], s')
termination_by weight s
decreasing_by all_goals
  have hs := poll_shrinks r s
  rw [_h] at hs
  exact hs

theorem results_pending {r r' : FrameReader} {s s' : Socket} (h : poll r s = (.pending, r', s')) :
    results r s = results r' s' := by
  rw [results]
  split <;> simp_all

theorem results_frame {r r' : FrameReader} {s s' : Socket} {p : Bytes} (h : poll r s = (.frame p, r', s')) :
    results r s = (.frame p :: (results r' s').1, (results r' s').2) := by
  rw [results]
  split <;> simp_all

theorem results_last {r r' : FrameReader} {s s' : Socket} {p : FramePoll} (h : poll r s = (p, r', s'))
    (hp : p ≠ .pending) (hf : ∀ q, p ≠ .frame q) : results r s = ([p], s') := by
  rw [results]
  split
  · next hq => rw [hq] at h; cases h; exact absurd rfl hp
  · next hq => rw [hq] at h; cases h; exact absurd rfl (hf _)
  · next hq => rw [hq] at h; cases h; rfl

/-- What a result says about the stream from the start of the current frame. -/
def Explains (whole : Bytes) : FramePoll → FrameReader → Socket → Prop
  | .pending, r, s => Inv r ∧ Retryable s ∧ r.held ++ stream s = whole
  | .frame p, r, s => Inv r ∧ Retryable s ∧ r.held = [] ∧
      parse whole = (.frame p :: (parse (stream s)).1, (parse (stream s)).2)
  | .eof, _, s => parse whole = ([.eof], stream s)
  | .fatal m, _, s => parse whole = ([.fatal m], stream s)

/-- What a turn says about it. -/
def Turn.Explains (whole : Bytes) : Turn → Prop
  | .again r s => Inv r ∧ Retryable s ∧ r.held ++ stream s = whole
  | .done p r s => FrameReader.Explains whole p r s

theorem failTurn_explains {kind : IoErrorKind} {what : String} {r : FrameReader} {s : Socket} (hr : Inv r)
    (hs : Retryable s) (hk : kind.retryable = true) : (failTurn kind what r s).Explains (r.held ++ stream s) := by
  rw [failTurn, if_pos hk]
  exact ⟨hr, hs, rfl⟩

/-- **The checks on a complete header.** -/
theorem headerTurn_explains {r : FrameReader} {s : Socket} (hl : r.header.length = frameHeaderLen)
    (hf : r.headerFill = frameHeaderLen) (hbf : r.bodyFill = 0) (hs : Retryable s) :
    (headerTurn r s).Explains (r.header ++ stream s) := by
  unfold headerTurn
  dsimp only
  split
  · next h0 => exact parse_zero hl h0
  split
  · next _ hm => exact parse_large hl hm
  · next h0 hm =>
    refine ⟨⟨hl, Or.inr ⟨hf, ?_, ?_, ?_, ?_⟩⟩, hs, ?_⟩
    · rw [List.length_replicate]; omega
    · rw [List.length_replicate]; omega
    · rw [List.length_replicate]
    · rw [List.length_replicate, hbf]; omega
    · simp [held, hf, ← hl, hbf]

/-- A turn inside the header. -/
theorem turn_explains_header {r : FrameReader} {s : Socket} (hr : Inv r) (hs : Retryable s)
    (hlt : r.headerFill < frameHeaderLen) (hb : r.body = []) (hbf : r.bodyFill = 0) :
    (turn r s).Explains (r.held ++ stream s) := by
  unfold turn
  have hheld : r.held = r.header.take r.headerFill := by simp [held, hb]
  rw [if_pos hlt]
  rcases read_spec (frameHeaderLen - r.headerFill) (by omega) s with
    ⟨rfl, hread⟩ | ⟨bs, s', hread, hne, hle, hstream, _, hret⟩ |
    ⟨kind, s', hread, hstream, _, hret⟩
  · rw [hread]
    have hshort : (r.held ++ stream []).length < frameHeaderLen := by
      rw [hheld, List.length_append, List.length_take]
      simp only [stream, List.length_nil]
      omega
    have hempty : (r.held ++ stream [] = []) ↔ r.betweenFrames = true := by
      have hlen := hr.header_len
      rw [hheld, betweenFrames, hb]
      simp only [stream, List.append_nil, and_true, decide_eq_true_eq]
      rw [← List.length_eq_zero_iff, List.length_take]
      omega
    have hp := parse_short hshort
    dsimp only [Turn.Explains]
    by_cases hbt : r.betweenFrames = true
    · rw [if_pos (hempty.mpr hbt)] at hp
      rw [if_pos hbt]
      exact hp
    · rw [if_neg (fun he => hbt (hempty.mp he))] at hp
      rw [if_neg hbt]
      exact hp
  · rw [hread]
    obtain ⟨b, bs, rfl⟩ := List.exists_cons_of_ne_nil hne
    have hfit : r.headerFill + (b :: bs).length ≤ r.header.length := by rw [hr.header_len]; omega
    have hnew := take_fillAt hfit
    have hlen := (length_fillAt hfit).trans hr.header_len
    dsimp only
    split
    · next hlt' =>
      refine ⟨⟨hlen, Or.inl ⟨hlt', hb, hbf⟩⟩, hret hs, ?_⟩
      simp only [held, hnew, hb, List.take_nil, List.append_nil]
      rw [hstream, List.append_assoc]
    · next hge =>
      have hfull : r.headerFill + (b :: bs).length = frameHeaderLen := by omega
      have hwhole : r.held ++ stream s = fillAt r.header r.headerFill (b :: bs) ++ stream s' := by
        have hall : (fillAt r.header r.headerFill (b :: bs)).take frameHeaderLen =
            fillAt r.header r.headerFill (b :: bs) := List.take_of_length_le (Nat.le_of_eq hlen)
        rw [← hall, ← hfull, hnew, hheld, hstream, List.append_assoc]
      rw [hwhole]
      exact headerTurn_explains hlen hfull hbf (hret hs)
  · rw [hread]
    rw [← hstream]
    exact failTurn_explains hr (hret hs).1 (hret hs).2

/-- A turn inside the body. -/
theorem turn_explains_body {r : FrameReader} {s : Socket} (hr : Inv r) (hs : Retryable s)
    (heq : r.headerFill = frameHeaderLen) (hpos : 0 < r.body.length) (hmax : r.body.length ≤ maxFramePayload)
    (hdecl : r.body.length = ofBe r.header) (hlt : r.bodyFill < r.body.length) :
    (turn r s).Explains (r.held ++ stream s) := by
  unfold turn
  have hheader : r.header.take r.headerFill = r.header :=
    List.take_of_length_le (by rw [heq, hr.header_len])
  have hheld : r.held = r.header ++ r.body.take r.bodyFill := by rw [held, hheader]
  rw [if_neg (by omega)]
  rcases read_spec (r.body.length - r.bodyFill) (by omega) s with
    ⟨rfl, hread⟩ | ⟨bs, s', hread, hne, hle, hstream, _, hret⟩ |
    ⟨kind, s', hread, hstream, _, hret⟩
  · rw [hread]
    have hp := parse_truncated (t := r.body.take r.bodyFill ++ stream []) hr.header_len (by omega) (by omega) (by
      rw [List.length_append, List.length_take]
      simp only [stream, List.length_nil]
      omega)
    rw [hheld, List.append_assoc]
    exact hp
  · rw [hread]
    obtain ⟨b, bs, rfl⟩ := List.exists_cons_of_ne_nil hne
    have hfit : r.bodyFill + (b :: bs).length ≤ r.body.length := by omega
    have hnew := take_fillAt hfit
    have hlen := length_fillAt hfit
    dsimp only
    split
    · next hfull =>
      rw [hlen] at hfull
      have hbody : fillAt r.body r.bodyFill (b :: bs) = r.body.take r.bodyFill ++ (b :: bs) := by
        rw [← hnew, hfull, ← hlen, List.take_length]
      have hp := parse_frame (p := fillAt r.body r.bodyFill (b :: bs)) (t := stream s') hr.header_len
        (by omega) (by omega) (by omega)
      refine ⟨hr.reset, hret hs, rfl, ?_⟩
      rw [hheld, hstream]
      rw [hbody] at hp ⊢
      simpa only [List.append_assoc] using hp
    · next hpart =>
      rw [hlen] at hpart
      refine ⟨⟨hr.header_len, Or.inr ⟨heq, ?_, ?_, ?_, ?_⟩⟩, hret hs, ?_⟩
      · dsimp only; omega
      · dsimp only; omega
      · dsimp only; omega
      · dsimp only; omega
      · simp only [held, hheader, hnew]
        rw [hstream]
        simp only [List.append_assoc]
  · rw [hread]
    rw [← hstream]
    exact failTurn_explains hr (hret hs).1 (hret hs).2

/-- **One turn of the loop.** -/
theorem turn_explains {r : FrameReader} {s : Socket} (hr : Inv r) (hs : Retryable s) :
    (turn r s).Explains (r.held ++ stream s) := by
  rcases hr.fill with ⟨hlt, hb, hbf⟩ | ⟨heq, hpos, hmax, hdecl, hlt⟩
  · exact turn_explains_header hr hs hlt hb hbf
  · exact turn_explains_body hr hs heq hpos hmax hdecl hlt

/-- **One poll.** -/
theorem poll_explains {r : FrameReader} {s : Socket} (hr : Inv r) (hs : Retryable s) :
    Explains (r.held ++ stream s) (poll r s).1 (poll r s).2.1 (poll r s).2.2 := by
  have ht := turn_explains hr hs
  have hw := turn_shrinks r s
  cases h : turn r s with
  | done p r' s' =>
    rw [poll_done h]
    rwa [h] at ht
  | again r' s' =>
    rw [h] at ht hw
    have hlt : weight s' < weight s := hw
    obtain ⟨hr', hs', hwhole⟩ := ht
    rw [poll_again h, ← hwhole]
    exact poll_explains hr' hs'
termination_by weight s

/-- **A whole run of polls.** -/
theorem results_explains {r : FrameReader} {s : Socket} (hr : Inv r) (hs : Retryable s) :
    (results r s).1 = (parse (r.held ++ stream s)).1 ∧ stream (results r s).2 = (parse (r.held ++ stream s)).2 := by
  have hp := poll_explains hr hs
  have hw := poll_shrinks r s
  obtain ⟨p, r', s', hq⟩ : ∃ p r' s', poll r s = (p, r', s') := ⟨_, _, _, rfl⟩
  rw [hq] at hp hw
  cases p with
  | pending =>
    have hlt : weight s' < weight s := hw
    obtain ⟨hr', hs', hwhole⟩ := hp
    rw [results_pending hq, ← hwhole]
    exact results_explains hr' hs'
  | frame p =>
    have hlt : weight s' < weight s := hw
    obtain ⟨hr', hs', hheld, hparse⟩ := hp
    have ih := results_explains hr' hs'
    rw [hheld, List.nil_append] at ih
    rw [results_frame hq, hparse, ih.1, ih.2]
    exact ⟨rfl, rfl⟩
  | eof =>
    have hparse : parse _ = _ := hp
    rw [results_last hq (by simp) (by simp), hparse]
    exact ⟨rfl, rfl⟩
  | fatal m =>
    have hparse : parse _ = _ := hp
    rw [results_last hq (by simp) (by simp), hparse]
    exact ⟨rfl, rfl⟩
termination_by weight s

/-! ## The reader refines the parse -/

/-- The payloads of well-formed frames. -/
def Payloads (ps : List Bytes) : Prop := ∀ p ∈ ps, 1 ≤ p.length ∧ p.length ≤ maxFramePayload

/-- The frames of a list of payloads, one after the other. -/
def encodeFrames (ps : List Bytes) : Except String Bytes := do
  let frames ← ps.mapM encodeFrame
  pure frames.flatten

/-- Parsing frames, then what follows. -/
theorem parse_encodeFrames : ∀ {ps : List Bytes}, Payloads ps → ∃ bs, encodeFrames ps = .ok bs ∧
    ∀ t, parse (bs ++ t) = (ps.map FramePoll.frame ++ (parse t).1, (parse t).2)
  | [], _ => ⟨[], rfl, fun t => by simp⟩
  | p :: ps, h => by
    obtain ⟨h1, hm⟩ := h p List.mem_cons_self
    obtain ⟨bs, hbs, hparse⟩ := parse_encodeFrames fun q hq => h q (List.mem_cons_of_mem _ hq)
    have henc : encodeFrame p = .ok (beBytes frameHeaderLen p.length ++ p) := if_neg (by omega)
    refine ⟨beBytes frameHeaderLen p.length ++ p ++ bs, ?_, fun t => ?_⟩
    · unfold encodeFrames at hbs ⊢
      rw [List.mapM_cons, henc]
      cases hmap : ps.mapM encodeFrame with
      | error err => rw [hmap] at hbs; cases hbs
      | ok frames =>
        rw [hmap] at hbs
        cases hbs
        simp [bind, Except.bind, pure, Except.pure]
    · have hlen : p.length < 256 ^ frameHeaderLen := by
        simp only [maxFramePayload, frameHeaderLen] at *
        omega
      rw [List.append_assoc, parse_frame (length_beBytes _ _) h1 hm (ofBe_beBytes hlen).symm, hparse]
      rfl

/-- **The reader equals the reference parse**, on every stream and for every fragmentation of it. -/
theorem results_eq_parse {s : Socket} (hs : Retryable s) :
    ((results new s).1 = (parse (stream s)).1 ∧ stream (results new s).2 = (parse (stream s)).2) ∧
    (∀ ps bs, Payloads ps → encodeFrames ps = .ok bs →
      (stream s = bs → (results new s).1 = ps.map FramePoll.frame ++ [.eof]) ∧
      (∀ h t, h.length = frameHeaderLen → ofBe h = 0 ∨ maxFramePayload < ofBe h → stream s = bs ++ (h ++ t) →
        ∃ m, (results new s).1 = ps.map FramePoll.frame ++ [.fatal m] ∧ stream (results new s).2 = t) ∧
      (∀ t, t ≠ [] → t.length < frameHeaderLen → stream s = bs ++ t →
        ∃ m, (results new s).1 = ps.map FramePoll.frame ++ [.fatal m]) ∧
      (∀ h t, h.length = frameHeaderLen → 0 < ofBe h → ofBe h ≤ maxFramePayload → t.length < ofBe h →
        stream s = bs ++ (h ++ t) → ∃ m, (results new s).1 = ps.map FramePoll.frame ++ [.fatal m])) := by
  have hmain := results_explains inv_new hs
  have hheld : new.held = [] := rfl
  rw [hheld, List.nil_append] at hmain
  refine ⟨hmain, fun ps bs hps henc => ?_⟩
  obtain ⟨bs', hbs', hparse⟩ := parse_encodeFrames hps
  cases hbs'.symm.trans henc
  rw [hmain.1, hmain.2]
  refine ⟨fun h => ?_, fun h t hl hz hst => ?_, fun t hne hlt hst => ?_, fun h t hl h0 hm hlt hst => ?_⟩
  · have hnil : parse [] = ([.eof], []) := parse_short (Nat.zero_lt_succ 3)
    rw [h, ← List.append_nil bs, hparse, hnil]
  · rw [hst, hparse]
    rcases hz with hz | hz
    · rw [parse_zero hl hz]
      exact ⟨_, rfl, rfl⟩
    · rw [parse_large hl hz]
      exact ⟨_, rfl, rfl⟩
  · rw [hst, hparse, parse_short hlt, if_neg hne]
    exact ⟨_, rfl⟩
  · rw [hst, hparse, parse_truncated hl h0 hm hlt]
    exact ⟨_, rfl⟩

/-- A frame split inside its header, with failed reads in between. -/
def splitSocket : Socket :=
  [.fail .wouldBlock, .bytes 0 [0], .fail .interrupted, .bytes 0 [1, 42], .fail .timedOut]

theorem results_splitSocket : (results new splitSocket).1 = [.frame [42], .eof] := by
  have hs : Retryable splitSocket := by
    intro kind hk
    simp only [splitSocket, List.mem_cons, SocketEvent.fail.injEq, reduceCtorEq, List.not_mem_nil, false_or,
      or_false] at hk
    rcases hk with rfl | rfl | rfl <;> rfl
  have hps : Payloads [[42]] := by
    intro p hp
    rw [List.mem_singleton] at hp
    subst hp
    decide
  exact ((results_eq_parse hs).2 [[42]] [0, 0, 0, 1, 42] hps rfl).1 rfl

end FrameReader

end Onde.Network
