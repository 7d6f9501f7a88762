import Onde.Health.RequestHead
import Onde.Lib.Http
import Onde.Metrics.Snapshot

/-!
# The health endpoint

A connection is a request line and one response.

* `respond`: the status and the body for a request line, and what the request counts;
* `writeResponse_eq`, `readResponse_write`: the response is framed, a client reads its status and body;
* `handleConnectionWithBudget`: a connection from its reads to its response;
* `health_served`: whatever the fragments, a request for the health gets the snapshot and is counted, and nothing else
  is.
-/

namespace Onde.Health

open Onde.Lib Onde.Metrics

/-- The words of a text. -/
def splitWhitespace (s : String) : List String :=
  ((s.toList.splitOnP isWhiteSpace).filter (· ≠ [])).map String.ofList

/-- The bytes of a response. -/
def writeResponse (status body : String) : Bytes :=
  utf8Bytes ("HTTP/1.1 " ++ status ++ "\r\nContent-Type: application/json\r\nContent-Length: " ++
    body.utf8ByteSize.repr ++ "\r\nConnection: close\r\n\r\n" ++ body)

/-- The refusal of a connection beyond the cap. -/
def serveInlineBusy : Bytes := writeResponse "503 Service Unavailable" "\x7b\"error\":\"busy\"\x7d"

/-- The status and the body for a request line; a request for the health is counted before the snapshot is taken. -/
def respond (requestLine : String) (unixNow : UInt64) (metrics : Metrics.NodeMetrics) :
    (String × String) × Metrics.NodeMetrics :=
  let parts := splitWhitespace requestLine
  let method := parts.getD 0 ""
  let path := parts.getD 1 ""
  let isGet := method = "GET"
  let isHealthPath := path = "/health" ∨ path = "/health?"
  if ¬isGet ∧ path = "/health" then
    (("405 Method Not Allowed", "\x7b\"error\":\"method not allowed\"\x7d"), metrics)
  else if isGet ∧ isHealthPath then
    let metrics := metrics.record .recordHealthRequest
    (("200 OK", metrics.snapshotJson unixNow), metrics)
  else if isGet then (("404 Not Found", "\x7b\"error\":\"not found\"\x7d"), metrics)
  else (("405 Method Not Allowed", "\x7b\"error\":\"method not allowed\"\x7d"), metrics)

/-- A connection: what is written to it, and what it counts. -/
def handleConnectionWithBudget (deadline : Nat) (as : List Attempt) (unixNow : UInt64) (metrics : Metrics.NodeMetrics) :
    Option Bytes × Metrics.NodeMetrics :=
  match readRequestHead deadline as with
  | .line requestLine =>
    let ((status, body), metrics) := respond requestLine unixNow metrics
    (some (writeResponse status body), metrics)
  | .tooLarge =>
    (some (writeResponse "431 Request Header Fields Too Large" "\x7b\"error\":\"request too large\"\x7d"), metrics)
  | .dead => (none, metrics)

/-! ## The framing -/

/-- The fields of every response. -/
def fields (body : String) : List (String × String) :=
  [("Content-Type", "application/json"), ("Content-Length", body.utf8ByteSize.repr), ("Connection", "close")]

theorem writeResponse_eq (status body : String) :
    writeResponse status body = Http.encode status (fields body) (utf8Bytes body) := by
  have hcrlf : utf8Bytes "\r\n" = Http.crlf := by decide
  have htype : "\r\nContent-Type: application/json\r\nContent-Length: " =
      "\r\n" ++ ("Content-Type" ++ ": " ++ "application/json") ++ "\r\n" ++ ("Content-Length" ++ ": ") := by decide
  have hclose : "\r\nConnection: close\r\n\r\n" = "\r\n" ++ ("Connection" ++ ": " ++ "close") ++ "\r\n" ++ "\r\n" := by
    decide
  rw [writeResponse, htype, hclose]
  simp only [utf8Bytes_append, hcrlf, Http.encode, Http.head, fields, List.map_cons, List.map_nil, List.flatMap_cons,
    List.flatMap_nil, List.append_assoc, List.append_nil]

/-- A status of the server. -/
def statuses : List String := ["200 OK", "404 Not Found", "405 Method Not Allowed",
  "431 Request Header Fields Too Large", "503 Service Unavailable"]

theorem isLine_statuses : ∀ s ∈ statuses, Http.isLine ("HTTP/1.1 " ++ s) = true := List.all_eq_true.mp (by decide)

theorem isLine_fields (body : String) : ∀ f ∈ fields body, Http.IsLine (f.1 ++ ": " ++ f.2) := by
  have hfixed : Http.isLine ("Content-Type" ++ ": " ++ "application/json") = true ∧
      Http.isLine ("Connection" ++ ": " ++ "close") = true := by decide
  have hname : (utf8Bytes ("Content-Length" ++ ": ")).all (· ≠ 0x0d) = true := by decide
  have hlength : Http.IsLine ("Content-Length" ++ ": " ++ body.utf8ByteSize.repr) := by
    refine ⟨fun h => ?_, fun b hb => ?_⟩
    · exact absurd (String.append_eq_empty_iff.mp h).1 (by decide)
    · rw [utf8Bytes_append] at hb
      refine (List.mem_append.mp hb).elim (fun hb => ?_) (Http.noCr_repr _ b)
      simpa using List.all_eq_true.mp hname b hb
  simp only [fields, List.forall_mem_cons]
  exact ⟨Http.isLine_iff.mp hfixed.1, hlength, Http.isLine_iff.mp hfixed.2, fun _ h => nomatch h⟩

/-- **A client reads the status and the body of a response.** -/
theorem readResponse_write {status : String} (hs : status ∈ statuses) {body : String} {max : Nat}
    (hmax : body.utf8ByteSize ≤ max) (rest : Bytes) :
    Http.readResponse max (writeResponse status body ++ rest) = some (status, utf8Bytes body) := by
  have hnames : ∀ name ∈ ["Content-Type", "Content-Length", "Connection"], ':' ∉ name.toList := by decide
  rw [writeResponse_eq]
  refine Http.readResponse_encode ?_ (fun f hf => hnames f.1 (List.mem_map_of_mem hf)) rfl hmax rest
  refine List.forall_mem_cons.mpr ⟨Http.isLine_iff.mp (isLine_statuses status hs), ?_⟩
  exact List.forall_mem_map.mpr (isLine_fields body)

/-! ## A connection -/

/-- A request line that asks for the health. -/
def AsksHealth (requestLine : String) : Prop :=
  (splitWhitespace requestLine).getD 0 "" = "GET" ∧
    ((splitWhitespace requestLine).getD 1 "" = "/health" ∨ (splitWhitespace requestLine).getD 1 "" = "/health?")

variable {requestLine : String}

theorem respond_health (h : AsksHealth requestLine) (unixNow : UInt64) (m : Metrics.NodeMetrics) :
    respond requestLine unixNow m = (("200 OK", (m.record .recordHealthRequest).snapshotJson unixNow),
      m.record .recordHealthRequest) := by
  unfold respond
  dsimp only
  rw [if_neg (fun hother => hother.1 h.1)]
  exact if_pos h

/-- **Every other request is refused, and counts nothing.** -/
theorem respond_other (h : ¬AsksHealth requestLine) (unixNow : UInt64) (m : Metrics.NodeMetrics) :
    ∃ status body, respond requestLine unixNow m = ((status, body), m) ∧ status ∈ statuses ∧ status ≠ "200 OK" := by
  unfold respond
  dsimp only
  split
  · exact ⟨_, _, rfl, by decide, by decide⟩
  · split
    · next hasks => exact absurd hasks h
    · split
      · exact ⟨_, _, rfl, by decide, by decide⟩
      · exact ⟨_, _, rfl, by decide, by decide⟩

/-- The stream asks for the health: its first line ends within the limit and is such a request. -/
def StreamAsks (stream : Bytes) : Prop :=
  ∃ p, findCrlf (dropBlank stream) = some p ∧ p < maxRequestBytes ∧
    AsksHealth (fromUtf8Lossy ((dropBlank stream).take p))

/-- A connection that does not ask for the health gets a refusal or nothing. -/
theorem handle_other {stream : Bytes} {deadline : Nat} {as : List Attempt} (hd : Delivers chunkLen deadline stream as)
    (hapart : EndsApart stream) (hother : ¬StreamAsks stream) (unixNow : UInt64) (m : Metrics.NodeMetrics) :
    handleConnectionWithBudget deadline as unixNow m = (none, m) ∨
      ∃ status body, handleConnectionWithBudget deadline as unixNow m = (some (writeResponse status body), m) ∧
        status ∈ statuses ∧ status ≠ "200 OK" := by
  have hempty : findCrlf ([] : Bytes) = none := rfl
  have hroom : ([] : Bytes).length ≤ maxRequestBytes := Nat.zero_le _
  unfold handleConnectionWithBudget
  cases hread : readRequestHead deadline as with
  | dead => exact .inl rfl
  | tooLarge => exact .inr ⟨_, _, rfl, by decide, by decide⟩
  | line requestLine =>
    have hline : ¬AsksHealth requestLine := by
      intro hasks
      cases hp : findCrlf (dropBlank stream) with
      | none =>
        rw [readRequestHead, readFrom_endless hd hempty hroom hp] at hread
        split at hread <;> cases hread
      | some p =>
        rcases hapart p hp with hshort | hfar
        · rw [readRequestHead, readFrom_line hd hempty hp hshort] at hread
          cases hread
          exact hother ⟨p, hp, hshort, hasks⟩
        · rw [readRequestHead, readFrom_large hd hempty hroom hp hfar] at hread
          cases hread
    obtain ⟨status, body, hrespond, hstatus, hne⟩ := respond_other hline unixNow m
    refine .inr ⟨status, body, ?_, hstatus, hne⟩
    dsimp only
    rw [hrespond]

/-- **Whatever the fragments**, a request for the health is counted and its response is the snapshot; any other stream
counts nothing, and its response, if it has one, says so. A client reads the status and the body back, and the body
tells every value of the snapshot. -/
theorem health_served {stream : Bytes} {deadline : Nat} {as : List Attempt} (hd : Delivers chunkLen deadline stream as)
    (hapart : EndsApart stream) (unixNow : UInt64) (m : Metrics.NodeMetrics) :
    let out := handleConnectionWithBudget deadline as unixNow m
    let counted := m.record .recordHealthRequest
    (StreamAsks stream → out.2 = counted ∧ ∃ response, out.1 = some response ∧ ∀ max rest,
      (counted.snapshotJson unixNow).utf8ByteSize ≤ max →
        Http.readResponse max (response ++ rest) = some ("200 OK", utf8Bytes (counted.snapshotJson unixNow))) ∧
    (¬StreamAsks stream → out.2 = m ∧ ∀ response, out.1 = some response →
      ∃ status body, status ≠ "200 OK" ∧ ∀ max rest, body.utf8ByteSize ≤ max →
        Http.readResponse max (response ++ rest) = some (status, utf8Bytes body)) ∧
    ∀ (m' : Metrics.NodeMetrics) (now' : UInt64), m'.snapshotJson now' = counted.snapshotJson unixNow →
      m'.snapshot now' = counted.snapshot unixNow := by
  intro out counted
  have hempty : findCrlf ([] : Bytes) = none := rfl
  refine ⟨fun hasks => ?_, fun hother => ?_, fun m' now' => snapshotJson_inj⟩
  · obtain ⟨p, hp, hshort, hline⟩ := hasks
    have hread : readRequestHead deadline as = .line (fromUtf8Lossy ((dropBlank stream).take p)) :=
      readFrom_line hd hempty hp hshort
    have hout : out = (some (writeResponse "200 OK" (counted.snapshotJson unixNow)), counted) := by
      show handleConnectionWithBudget deadline as unixNow m = _
      rw [handleConnectionWithBudget, hread]
      dsimp only
      rw [respond_health hline]
    rw [hout]
    exact ⟨rfl, _, rfl, fun max rest hmax => readResponse_write (by decide) hmax rest⟩
  · have hcases := handle_other hd hapart hother unixNow m
    rcases hcases with hnone | ⟨status, body, hsome, hstatus, hne⟩
    · have hout : out = (none, m) := hnone
      rw [hout]
      exact ⟨rfl, fun response h => by cases h⟩
    · have hout : out = (some (writeResponse status body), m) := hsome
      rw [hout]
      refine ⟨rfl, fun response h => ⟨status, body, hne, fun max rest hmax => ?_⟩⟩
      obtain rfl := Option.some.inj h
      exact readResponse_write hstatus hmax rest

/-- A request, in two reads. -/
def healthRequest : List Attempt :=
  [⟨0, some (utf8Bytes "GET /he")⟩, ⟨1, some (utf8Bytes "alth HTTP/1.1" ++ Http.crlf)⟩]

theorem healthRequest_delivers :
    Delivers chunkLen 10 (utf8Bytes "GET /health HTTP/1.1" ++ Http.crlf) healthRequest := by
  have hsplit : utf8Bytes "GET /health HTTP/1.1" ++ Http.crlf =
      utf8Bytes "GET /he" ++ ((utf8Bytes "alth HTTP/1.1" ++ Http.crlf) ++ []) := by decide
  rw [hsplit]
  exact .read (by decide) (by decide) (by decide)
    (.read (by decide) (by decide) (by decide) (.ends fun a ha => by cases ha))

/-- It is answered with the snapshot of a node that has counted it. -/
theorem health_served_get :
    let m : Metrics.NodeMetrics := ⟨1700000000, fun _ => 0⟩
    let body := (m.record .recordHealthRequest).snapshotJson 1700000060
    ∃ response, (handleConnectionWithBudget 10 healthRequest 1700000060 m).1 = some response ∧
      Http.readResponse body.utf8ByteSize response = some ("200 OK", utf8Bytes body) := by
  intro m body
  have hfind : findCrlf (dropBlank (utf8Bytes "GET /health HTTP/1.1" ++ Http.crlf)) = some 20 := by decide
  have htake : (dropBlank (utf8Bytes "GET /health HTTP/1.1" ++ Http.crlf)).take 20 =
      utf8Bytes "GET /health HTTP/1.1" := by decide
  obtain ⟨hasks, -⟩ := health_served healthRequest_delivers
    (fun p hp => .inl (by rw [← Option.some.inj (hfind.symm.trans hp)]; decide)) 1700000060 m
  obtain ⟨-, response, hout, hread⟩ := hasks ⟨20, hfind, by decide, by
    rw [htake, fromUtf8Lossy_utf8Bytes]
    exact ⟨by decide, .inl (by decide)⟩⟩
  refine ⟨response, hout, ?_⟩
  have hwhole := hread _ [] (Nat.le_refl _)
  rwa [List.append_nil] at hwhole

end Onde.Health
