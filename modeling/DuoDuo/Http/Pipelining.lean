import DuoDuo.Http.HttpServer
import DuoDuo.Http.RequestLine
import DuoDuo.Library.Service
import Mathlib.Data.List.Induction

/-!
# Which requests of a pipelined stream are handled

`onMessage` handles at most one request, so a request that arrives behind another
one in the same read waits for the next read. The number of requests handled is
determined by the segmentation of the stream, and all of them are handled exactly
when enough reads follow the arrival of each.
-/

namespace DuoDuo.Http

open Library

/-- A well-formed request without a body, as a client means it. -/
structure RequestMessage where
  method : Method
  method_known : method ≠ .kInvalid
  /-- The request target. -/
  target : Bytes
  target_space : 32 ∉ target
  target_line : ¬ kCRLF <:+: target
  version : Version
  version_known : version ≠ .kUnknown
  /-- The header fields with everything that follows the colon. -/
  fields : List (Bytes × Bytes)
  fields_colon : ∀ field ∈ fields, 58 ∉ field.1
  fields_line : ∀ field ∈ fields, ¬ kCRLF <:+: field.1 ++ 58 :: field.2

namespace RequestMessage

/-- The request line, without its delimiter. -/
def requestLine (m : RequestMessage) : Bytes :=
  m.method.token ++ 32 :: (m.target ++ 32 :: (ascii "HTTP/1." ++ [m.version.digit]))

/-- A header line, without its delimiter. -/
def headerLine (field : Bytes × Bytes) : Bytes := field.1 ++ 58 :: field.2

/-- The lines of the request, the empty line included. -/
def lines (m : RequestMessage) : List Bytes := m.requestLine :: (m.fields.map headerLine ++ [[]])

/-- Lines on the wire. -/
def terminated (lines : List Bytes) : Bytes := lines.flatMap (· ++ kCRLF)

/-- The bytes of the request. -/
def bytes (m : RequestMessage) : Bytes := terminated m.lines

/-- The headers that the fields denote: the last value of each name, without the
white space around it. -/
def headers (fields : List (Bytes × Bytes)) (init : Bytes → Option Bytes) : Bytes → Option Bytes :=
  fields.foldl (fun headers field =>
    Function.update headers field.1 (some (HttpRequest.trim field.2))) init

/-- The request that the message denotes. -/
def toHttpRequest (m : RequestMessage) : HttpRequest where
  method := m.method
  version := m.version
  path := m.target.takeWhile (· ≠ 63)
  query := m.target.dropWhile (· ≠ 63)
  headers := headers m.fields fun _ => none

end RequestMessage

/-- A request after which neither side closes the connection. -/
structure KeepAliveRequest extends RequestMessage where
  keepAlive : toRequestMessage.toHttpRequest.close = false

namespace HttpContext

/-- The context accepts the lines, and then holds the request. -/
inductive Accepts : HttpContext → List Bytes → HttpRequest → Prop
  | requestLine {ctx : HttpContext} {line : Bytes} {lines : List Bytes} {r req : HttpRequest} :
      ctx.state = .kExpectRequestLine → ¬ kCRLF <:+: line →
      ctx.request.processRequestLine line = (r, true) →
      Accepts { state := .kExpectHeaders, request := r } lines req →
      Accepts ctx (line :: lines) req
  | header {ctx : HttpContext} {line : Bytes} {lines : List Bytes} {req : HttpRequest} :
      ctx.state = .kExpectHeaders → ¬ kCRLF <:+: line → line.idxOf 58 ≠ line.length →
      Accepts { ctx with request := ctx.request.addHeader line (line.idxOf 58) } lines req →
      Accepts ctx (line :: lines) req
  | last {ctx : HttpContext} : ctx.state = .kExpectHeaders → Accepts ctx [[]] ctx.request

/-- An accepting context has not finished its request. -/
theorem Accepts.not_gotAll {ctx : HttpContext} {lines : List Bytes} {req : HttpRequest}
    (h : Accepts ctx lines req) : ctx.gotAll = false := by
  cases h with
  | requestLine hstate | header hstate | last hstate => simp [gotAll, hstate]

end HttpContext

/-- The first line on the wire. -/
theorem RequestMessage.terminated_cons (line : Bytes) (lines : List Bytes) :
    terminated (line :: lines) = line ++ kCRLF ++ terminated lines := by
  simp [terminated]

/-- A cut of a line and what follows it leaves the line whole, or cuts it. -/
theorem splits_line {line tail buf more : Bytes}
    (hbuf : buf ++ more = line ++ kCRLF ++ tail) :
    (∃ rest, buf = line ++ kCRLF ++ rest ∧ rest ++ more = tail) ∨
      ∃ mid, mid ≠ [] ∧ buf ++ mid = line ++ kCRLF := by
  rcases List.append_eq_append_iff.mp hbuf with ⟨mid, hline, hmid⟩ | ⟨rest, hbuf, htail⟩
  · by_cases hnil : mid = []
    · subst hnil
      exact .inl ⟨[], by simpa using hline.symm, by simpa using hmid⟩
    · exact .inr ⟨mid, hnil, hline.symm⟩
  · exact .inl ⟨rest, hbuf, htail.symm⟩

/-- The delimiter is found behind a line that is free of it. -/
theorem findCRLF_line {line : Bytes} (h : ¬ kCRLF <:+: line) (rest : Bytes) :
    findCRLF (line ++ kCRLF ++ rest) = some line.length := by
  rw [List.append_assoc]
  exact search_append_delimiter (by decide) h rest

/-- No delimiter is found in a part of a line. -/
theorem findCRLF_cut {line buf more : Bytes} (h : ¬ kCRLF <:+: line) (hmore : more ≠ [])
    (hbuf : buf ++ more = line ++ kCRLF) : findCRLF buf = none := by
  refine search_eq_none_iff.mpr (not_infix_of_prefix_delimiter (by decide) h
    (r := []) ⟨more, hbuf⟩ ?_)
  have hlen := congrArg List.length hbuf
  have hpos := List.length_pos_iff.mpr hmore
  simp only [List.length_append, kCRLF, List.length_cons, List.length_nil] at hlen
  omega

/-- The line that precedes a delimiter. -/
@[simp] theorem take_line (line rest : Bytes) : (line ++ kCRLF ++ rest).take line.length = line := by
  simp

/-- What follows a line and its delimiter. -/
@[simp] theorem drop_line (line rest : Bytes) :
    (line ++ kCRLF ++ rest).drop (line.length + 2) = rest := by
  rw [← List.drop_drop]
  simp [kCRLF]

namespace HttpContext

open RequestMessage

/-- Without a complete line in the buffer the loop stops and waits. -/
theorem parseLoop_wait {ctx : HttpContext} {buf : Bytes} (fuel : ℕ)
    (hstate : ctx.state = .kExpectRequestLine ∨ ctx.state = .kExpectHeaders)
    (hnone : findCRLF buf = none) : parseLoop (fuel + 1) ctx buf = some ⟨true, ctx, buf⟩ := by
  rcases hstate with hstate | hstate <;> rw [parseLoop, hstate, hnone]

/-- A valid request line is consumed. -/
theorem parseLoop_requestLine {ctx : HttpContext} {line : Bytes} {r : HttpRequest} (fuel : ℕ)
    (rest : Bytes) (hstate : ctx.state = .kExpectRequestLine) (hline : ¬ kCRLF <:+: line)
    (hprocess : ctx.request.processRequestLine line = (r, true)) :
    parseLoop (fuel + 1) ctx (line ++ kCRLF ++ rest) =
      parseLoop fuel { state := .kExpectHeaders, request := r } rest := by
  rw [parseLoop, hstate, findCRLF_line hline]
  simp only [take_line, drop_line, hprocess, if_true]

/-- A header line with a colon is consumed. -/
theorem parseLoop_header {ctx : HttpContext} {line : Bytes} (fuel : ℕ) (rest : Bytes)
    (hstate : ctx.state = .kExpectHeaders) (hline : ¬ kCRLF <:+: line)
    (hcolon : line.idxOf 58 ≠ line.length) :
    parseLoop (fuel + 1) ctx (line ++ kCRLF ++ rest) =
      parseLoop fuel { ctx with request := ctx.request.addHeader line (line.idxOf 58) } rest := by
  rw [parseLoop, hstate, findCRLF_line hline]
  simp only [take_line, drop_line]
  rw [if_pos hcolon]

/-- The empty line ends the request. -/
theorem parseLoop_last {ctx : HttpContext} (fuel : ℕ) (rest : Bytes)
    (hstate : ctx.state = .kExpectHeaders) :
    parseLoop (fuel + 1) ctx (kCRLF ++ rest) =
      some ⟨true, { ctx with state := .kGotAll }, rest⟩ := by
  have hline : findCRLF (kCRLF ++ rest) = some 0 :=
    @findCRLF_line [] (by simp [kCRLF]) rest
  rw [parseLoop, hstate, hline]
  simp [kCRLF]

/-- A buffer that begins with all the lines makes the loop finish the request. -/
theorem Accepts.parseLoop_complete {ctx : HttpContext} {lines : List Bytes} {req : HttpRequest}
    (h : Accepts ctx lines req) (rest : Bytes) {fuel : ℕ}
    (hfuel : (terminated lines ++ rest).length < fuel) :
    parseLoop fuel ctx (terminated lines ++ rest) =
      some ⟨true, { state := .kGotAll, request := req }, rest⟩ := by
  induction h generalizing fuel with
  | @requestLine ctx line lines r req hstate hline hprocess _ ih =>
    obtain ⟨fuel, rfl⟩ : ∃ k, fuel = k + 1 := ⟨fuel - 1, by omega⟩
    rw [terminated_cons, List.append_assoc] at hfuel ⊢
    rw [parseLoop_requestLine fuel _ hstate hline hprocess]
    exact ih (by rw [List.length_append] at hfuel; simp [kCRLF] at hfuel ⊢; omega)
  | @header ctx line lines req hstate hline hcolon _ ih =>
    obtain ⟨fuel, rfl⟩ : ∃ k, fuel = k + 1 := ⟨fuel - 1, by omega⟩
    rw [terminated_cons, List.append_assoc] at hfuel ⊢
    rw [parseLoop_header fuel _ hstate hline hcolon]
    exact ih (by rw [List.length_append] at hfuel; simp [kCRLF] at hfuel ⊢; omega)
  | @last ctx hstate =>
    obtain ⟨fuel, rfl⟩ : ∃ k, fuel = k + 1 := ⟨fuel - 1, by omega⟩
    rw [terminated_cons]
    simpa [terminated] using parseLoop_last fuel rest hstate

/-- With only a part of the lines in the buffer, the loop consumes the complete ones
and waits for the others. -/
theorem Accepts.parseLoop_incomplete {ctx : HttpContext} {lines : List Bytes} {req : HttpRequest}
    (h : Accepts ctx lines req) {buf more : Bytes} (hmore : more ≠ [])
    (hbuf : buf ++ more = terminated lines) {fuel : ℕ} (hfuel : buf.length < fuel) :
    ∃ ctx' buf' lines', parseLoop fuel ctx buf = some ⟨true, ctx', buf'⟩ ∧
      Accepts ctx' lines' req ∧ buf' ++ more = terminated lines' := by
  induction h generalizing fuel buf with
  | @requestLine ctx line lines r req hstate hline hprocess hrest ih =>
    obtain ⟨fuel, rfl⟩ : ∃ k, fuel = k + 1 := ⟨fuel - 1, by omega⟩
    rw [terminated_cons] at hbuf
    rcases splits_line hbuf with ⟨tail, rfl, htail⟩ | ⟨mid, hmid, hpartial⟩
    · rw [parseLoop_requestLine fuel _ hstate hline hprocess]
      exact ih htail (by simp [kCRLF] at hfuel; omega)
    · refine ⟨ctx, buf, line :: lines, parseLoop_wait fuel (.inl hstate)
        (findCRLF_cut hline hmid hpartial), .requestLine hstate hline hprocess hrest, ?_⟩
      rw [hbuf, terminated_cons]
  | @header ctx line lines req hstate hline hcolon hrest ih =>
    obtain ⟨fuel, rfl⟩ : ∃ k, fuel = k + 1 := ⟨fuel - 1, by omega⟩
    rw [terminated_cons] at hbuf
    rcases splits_line hbuf with ⟨tail, rfl, htail⟩ | ⟨mid, hmid, hpartial⟩
    · rw [parseLoop_header fuel _ hstate hline hcolon]
      exact ih htail (by simp [kCRLF] at hfuel; omega)
    · refine ⟨ctx, buf, line :: lines, parseLoop_wait fuel (.inr hstate)
        (findCRLF_cut hline hmid hpartial), .header hstate hline hcolon hrest, ?_⟩
      rw [hbuf, terminated_cons]
  | @last ctx hstate =>
    obtain ⟨fuel, rfl⟩ : ∃ k, fuel = k + 1 := ⟨fuel - 1, by omega⟩
    have hpartial : buf ++ more = [] ++ kCRLF := by simpa [terminated] using hbuf
    exact ⟨ctx, buf, [[]], parseLoop_wait fuel (.inr hstate)
      (findCRLF_cut (by simp [kCRLF]) hmore hpartial), .last hstate, hbuf⟩

end HttpContext

namespace RequestMessage

/-- The request line has the form of one. -/
theorem isRequestLine_requestLine (m : RequestMessage) :
    IsRequestLine m.requestLine m.method m.target m.version :=
  ⟨m.method_known, m.target_space, m.version_known, rfl⟩

/-- The parser reads a request line as it was meant. -/
theorem processRequestLine_requestLine (m : RequestMessage) :
    HttpRequest.processRequestLine {} m.requestLine =
      ({ m.toHttpRequest with headers := fun _ => none }, true) :=
  HttpRequest.processRequestLine_of_isRequestLine m.isRequestLine_requestLine

/-- The request line contains no delimiter. -/
theorem requestLine_free (m : RequestMessage) : ¬ kCRLF <:+: m.requestLine := by
  have htoken : ¬ kCRLF <:+: m.method.token := (Method.token_spec m.method_known).2.1
  have hversion : ¬ kCRLF <:+: ascii "HTTP/1." ++ [m.version.digit] := by
    cases m.version <;> decide
  have hspace : (32 : UInt8) ≠ 13 ∧ (32 : UInt8) ≠ 10 := by decide
  rw [requestLine, kCRLF, delimiter_infix_append_cons hspace.1 hspace.2,
    delimiter_infix_append_cons hspace.1 hspace.2]
  exact not_or.mpr ⟨htoken, not_or.mpr ⟨m.target_line, hversion⟩⟩

/-- Header lines and the empty line are accepted once the request line has been. -/
theorem accepts_fields (fields : List (Bytes × Bytes)) (hcolon : ∀ field ∈ fields, 58 ∉ field.1)
    (hline : ∀ field ∈ fields, ¬ kCRLF <:+: headerLine field) (r : HttpRequest) :
    HttpContext.Accepts { state := .kExpectHeaders, request := r }
      (fields.map headerLine ++ [[]]) { r with headers := headers fields r.headers } := by
  induction fields generalizing r with
  | nil => exact .last rfl
  | cons field fields ih =>
    rw [List.forall_mem_cons] at hcolon hline
    have hidx : (headerLine field).idxOf 58 = field.1.length := idxOf_append hcolon.1 _
    have hdrop : (headerLine field).drop (field.1.length + 1) = field.2 := by
      rw [← List.drop_drop]
      simp [headerLine]
    have hne : (headerLine field).idxOf 58 ≠ (headerLine field).length := by
      rw [hidx]
      simp [headerLine]
    refine .header rfl hline.1 hne ?_
    have hadd : r.addHeader (headerLine field) ((headerLine field).idxOf 58) =
        { r with headers :=
            Function.update r.headers field.1 (some (HttpRequest.trim field.2)) } := by
      rw [hidx, HttpRequest.addHeader, hdrop]
      simp [headerLine]
    simp only [hadd]
    exact ih hcolon.2 hline.2 _

/-- A fresh context accepts the lines of a message. -/
theorem accepts_lines (m : RequestMessage) : HttpContext.Accepts {} m.lines m.toHttpRequest :=
  .requestLine rfl m.requestLine_free m.processRequestLine_requestLine
    (accepts_fields m.fields m.fields_colon m.fields_line _)

end RequestMessage

/-- What is known between two reads: the context accepts the remaining lines of the
first message not yet handled, and the buffered bytes followed by those still to
come are these lines and the messages behind them. -/
def Waiting (conn : HttpConnection) (future : Bytes) : List RequestMessage → Prop
  | [] => conn.context = {} ∧ conn.inputBuffer ++ future = []
  | m :: rest => ∃ lines, HttpContext.Accepts conn.context lines m.toHttpRequest ∧
      conn.inputBuffer ++ future = RequestMessage.terminated lines ++ rest.flatMap (·.bytes)

/-- A connection that has just been opened waits for all messages. -/
theorem Waiting.fresh {conn : HttpConnection} (hcontext : conn.context = {}) {future : Bytes}
    {messages : List RequestMessage}
    (hbytes : conn.inputBuffer ++ future = messages.flatMap (·.bytes)) :
    Waiting conn future messages := by
  cases messages with
  | nil => exact ⟨hcontext, by simpa using hbytes⟩
  | cons m rest =>
    refine ⟨m.lines, hcontext ▸ m.accepts_lines, ?_⟩
    rw [hbytes]
    simp [RequestMessage.bytes]

section Receive

variable (httpCallback : HttpRequest → HttpResponse → HttpResponse)

/-- The user's callback leaves the parser and its record alone. -/
theorem onRequest_frame (conn : HttpConnection) (req : HttpRequest) :
    (onRequest httpCallback conn req).context = conn.context ∧
      (onRequest httpCallback conn req).inputBuffer = conn.inputBuffer ∧
      (onRequest httpCallback conn req).requests = conn.requests ++ [req] := by
  simp only [onRequest, HttpConnection.send, HttpConnection.shutdown]
  split <;> split <;> exact ⟨rfl, rfl, rfl⟩

/-- A read that completes a message has it handled, and only it. -/
theorem Waiting.receive_complete {conn : HttpConnection} {data future : Bytes}
    {m : RequestMessage} {rest : List RequestMessage}
    (h : Waiting conn (data ++ future) (m :: rest))
    (henough : future.length ≤ (rest.flatMap (·.bytes)).length) :
    ∃ conn', receive httpCallback conn data = some conn' ∧
      conn'.requests = conn.requests ++ [m.toHttpRequest] ∧ Waiting conn' future rest := by
  obtain ⟨lines, haccepts, hbytes⟩ := h
  rw [← List.append_assoc] at hbytes
  obtain ⟨tail, htail, hrest⟩ : ∃ tail, conn.inputBuffer ++ data =
      RequestMessage.terminated lines ++ tail ∧ tail ++ future = rest.flatMap (·.bytes) := by
    rcases List.append_eq_append_iff.mp hbytes with ⟨mid, hmid, hfuture⟩ | ⟨tail, htail, hrest⟩
    · have hlength := congrArg List.length hfuture
      rw [List.length_append] at hlength
      obtain rfl : mid = [] := List.eq_nil_of_length_eq_zero (by omega)
      exact ⟨[], by simpa using hmid.symm, by simpa using hfuture⟩
    · exact ⟨tail, htail, hrest.symm⟩
  have hparse : conn.context.parseRequest (conn.inputBuffer ++ data) =
      some ⟨true, { state := .kGotAll, request := m.toHttpRequest }, tail⟩ := by
    rw [HttpContext.parseRequest, htail]
    exact haccepts.parseLoop_complete tail (by omega)
  have hgot : HttpContext.gotAll { state := .kGotAll, request := m.toHttpRequest } = true := rfl
  simp only [receive, onMessage, hparse, Option.bind_eq_bind, Option.bind_some, if_true, hgot]
  obtain ⟨hcontext, hbuffer, hrequests⟩ := onRequest_frame httpCallback
    { conn with
      context := { state := .kGotAll, request := m.toHttpRequest }, inputBuffer := tail }
    m.toHttpRequest
  refine ⟨_, rfl, hrequests, .fresh ?_ ?_⟩
  · simp only [hcontext]
    rfl
  · rw [hbuffer]
    exact hrest

/-- A read that leaves the message incomplete has nothing handled. -/
theorem Waiting.receive_incomplete {conn : HttpConnection} {data future : Bytes}
    {m : RequestMessage} {rest : List RequestMessage}
    (h : Waiting conn (data ++ future) (m :: rest))
    (hshort : (rest.flatMap (·.bytes)).length < future.length) :
    ∃ conn', receive httpCallback conn data = some conn' ∧
      conn'.requests = conn.requests ∧ Waiting conn' future (m :: rest) := by
  obtain ⟨lines, haccepts, hbytes⟩ := h
  rw [← List.append_assoc] at hbytes
  obtain ⟨mid, hmid, hfuture⟩ : ∃ mid, conn.inputBuffer ++ data ++ mid =
      RequestMessage.terminated lines ∧ future = mid ++ rest.flatMap (·.bytes) := by
    rcases List.append_eq_append_iff.mp hbytes with ⟨mid, hmid, hfuture⟩ | ⟨tail, -, hrest⟩
    · exact ⟨mid, hmid.symm, hfuture⟩
    · have hlength := congrArg List.length hrest
      rw [List.length_append] at hlength
      omega
  have hnil : mid ≠ [] := by
    rintro rfl
    simp [hfuture] at hshort
  obtain ⟨ctx, buf, lines', hparse, haccepts', hrest⟩ :=
    haccepts.parseLoop_incomplete hnil hmid (Nat.lt_succ_self _)
  have hgot := haccepts'.not_gotAll
  simp only [receive, onMessage, HttpContext.parseRequest, hparse, Option.bind_eq_bind,
    Option.bind_some, if_true, hgot]
  refine ⟨_, rfl, rfl, lines', haccepts', ?_⟩
  rw [hfuture, ← List.append_assoc, hrest]

/-- A read when all messages have been handled brings nothing. -/
theorem Waiting.receive_idle {conn : HttpConnection} {data future : Bytes}
    (h : Waiting conn (data ++ future) []) :
    ∃ conn', receive httpCallback conn data = some conn' ∧
      conn'.requests = conn.requests ∧ Waiting conn' future [] := by
  obtain ⟨hcontext, hbytes⟩ := h
  simp only [List.append_eq_nil_iff] at hbytes
  obtain ⟨hbuffer, rfl, rfl⟩ := hbytes
  have hparse : conn.context.parseRequest (conn.inputBuffer ++ []) = some ⟨true, {}, []⟩ := by
    rw [hcontext, hbuffer]
    rfl
  simp only [receive, onMessage, hparse, Option.bind_eq_bind, Option.bind_some, if_true]
  exact ⟨_, rfl, rfl, rfl, rfl⟩

end Receive

/-- The position in the stream at which message `i` is complete. -/
def endOf (messages : List RequestMessage) (i : ℕ) : ℕ :=
  ((messages.take (i + 1)).flatMap (·.bytes)).length

/-- The number of bytes received after each read. -/
def totals (reads : List Bytes) : List ℕ :=
  (List.range reads.length).map fun k => (reads.take (k + 1)).flatten.length

/-- The number of reads after which at least `position` bytes have been received. -/
def readsReaching (reads : List Bytes) (position : ℕ) : ℕ :=
  (totals reads).countP (position ≤ ·)

/-- One more read adds one total. -/
theorem totals_append (reads : List Bytes) (data : Bytes) :
    totals (reads ++ [data]) = totals reads ++ [(reads ++ [data]).flatten.length] := by
  rw [totals, List.length_append, List.length_singleton, List.range_succ, List.map_append]
  congr 1
  · apply List.map_congr_left
    intro k hk
    rw [List.mem_range] at hk
    rw [List.take_append_of_le_length (by omega)]
  · rw [List.map_singleton, List.take_of_length_le (by simp)]

/-- The totals grow from read to read. -/
theorem totals_pairwise (reads : List Bytes) : (totals reads).Pairwise (· ≤ ·) := by
  rw [totals, List.pairwise_map]
  refine List.pairwise_lt_range.imp fun {j k} hjk => ?_
  exact ((List.take_prefix_take_left (by omega)).flatten).length_le

/-- Messages complete in order. -/
theorem endOf_mono (messages : List RequestMessage) : Monotone (endOf messages) := by
  intro i j hij
  exact ((List.take_prefix_take_left (by omega)).flatMap _).length_le

/-- A message is complete exactly when no more is to come than the messages behind it. -/
theorem endOf_le_iff {messages : List RequestMessage} {received future : Bytes}
    (hbytes : received ++ future = messages.flatMap (·.bytes)) (i : ℕ) :
    endOf messages i ≤ received.length ↔
      future.length ≤ ((messages.drop (i + 1)).flatMap (·.bytes)).length := by
  have hsplit : messages.flatMap (·.bytes) = (messages.take (i + 1)).flatMap (·.bytes) ++
      (messages.drop (i + 1)).flatMap (·.bytes) := by
    rw [← List.flatMap_append, List.take_append_drop]
  have hlength := congrArg List.length (hbytes.trans hsplit)
  rw [List.length_append, List.length_append] at hlength
  rw [endOf]
  omega

/-- After any part of the stream the connection has handled the messages that
`serve` counts, and waits for the others. -/
theorem foldlM_receive (httpCallback : HttpRequest → HttpResponse → HttpResponse)
    (messages : List RequestMessage) (reads : List Bytes) (future : Bytes)
    (hbytes : reads.flatten ++ future = messages.flatMap (·.bytes)) :
    ∃ conn, reads.foldlM (receive httpCallback) {} = some conn ∧
      conn.requests = (messages.take ((totals reads).foldl
        (serve (endOf messages) messages.length) 0)).map (·.toHttpRequest) ∧
      Waiting conn future (messages.drop ((totals reads).foldl
        (serve (endOf messages) messages.length) 0)) := by
  induction reads using List.reverseRecOn generalizing future with
  | nil => exact ⟨{}, rfl, by simp [totals], .fresh rfl (by simpa [totals] using hbytes)⟩
  | append_singleton reads data ih =>
    obtain ⟨conn, hrun, hrequests, hwaiting⟩ := ih (data ++ future) (by simpa using hbytes)
    rw [totals_append, List.foldl_append, List.foldl_cons, List.foldl_nil, List.foldlM_append, hrun]
    set served := (totals reads).foldl (serve (endOf messages) messages.length) 0
    simp only [List.foldlM_cons, List.foldlM_nil, Option.bind_eq_bind, Option.bind_some,
      Option.pure_def, Option.bind_fun_some]
    by_cases hserved : served < messages.length
    · rw [List.drop_eq_getElem_cons hserved] at hwaiting
      have hcomplete := endOf_le_iff hbytes served
      by_cases hreach : endOf messages served ≤ (reads ++ [data]).flatten.length
      · obtain ⟨conn', hreceive, hrequests', hwaiting'⟩ :=
          hwaiting.receive_complete httpCallback (hcomplete.mp hreach)
        rw [serve, if_pos ⟨hserved, hreach⟩]
        refine ⟨conn', hreceive, ?_, hwaiting'⟩
        rw [hrequests', hrequests, List.take_succ_eq_append_getElem hserved, List.map_append]
        rfl
      · obtain ⟨conn', hreceive, hrequests', hwaiting'⟩ :=
          hwaiting.receive_incomplete httpCallback (by omega)
        rw [serve, if_neg fun h => hreach h.2]
        refine ⟨conn', hreceive, hrequests'.trans hrequests, ?_⟩
        rw [List.drop_eq_getElem_cons hserved]
        exact hwaiting'
    · rw [List.drop_eq_nil_of_le (by omega)] at hwaiting
      obtain ⟨conn', hreceive, hrequests', hwaiting'⟩ := hwaiting.receive_idle httpCallback
      rw [serve, if_neg fun h => hserved h.1]
      refine ⟨conn', hreceive, hrequests'.trans hrequests, ?_⟩
      rw [List.drop_eq_nil_of_le (by omega)]
      exact hwaiting'

/-- All requests of a stream are handled, in order, exactly when each request, once
complete, is followed by as many reads as there are requests from it on, the read
that completes it included. -/
theorem all_handled_iff (httpCallback : HttpRequest → HttpResponse → HttpResponse)
    (requests : List KeepAliveRequest) (reads : List Bytes)
    (hreads : reads.flatten = requests.flatMap (·.bytes)) :
    ∃ conn, reads.foldlM (receive httpCallback) {} = some conn ∧
      (conn.requests = requests.map (·.toHttpRequest) ↔
        ∀ i < requests.length, requests.length - i ≤
          readsReaching reads (endOf (requests.map (·.toRequestMessage)) i)) := by
  have hdenoted : requests.map (·.toHttpRequest) =
      (requests.map (·.toRequestMessage)).map (·.toHttpRequest) := by simp
  have hbytes : reads.flatten ++ [] = (requests.map (·.toRequestMessage)).flatMap (·.bytes) := by
    rw [List.append_nil, hreads, List.flatMap_map]
  have hlength : (requests.map (·.toRequestMessage)).length = requests.length := List.length_map _
  rw [hdenoted]
  generalize requests.map (·.toRequestMessage) = messages at *
  obtain ⟨conn, hrun, hrequests, -⟩ := foldlM_receive httpCallback messages reads [] hbytes
  refine ⟨conn, hrun, ?_⟩
  have hall := foldl_serve_eq_iff (endOf_mono messages) messages.length (totals_pairwise reads)
  have hle := foldl_serve_le (endOf messages) messages.length (totals reads)
  rw [← hlength]
  refine Iff.trans ?_ hall
  rw [hrequests]
  constructor
  · intro heq
    have hcount := congrArg List.length heq
    rw [List.length_map, List.length_map, List.length_take] at hcount
    omega
  · intro heq
    rw [heq, List.take_length]

/-- `GET / HTTP/1.1`, without header fields. -/
def getRoot : KeepAliveRequest where
  method := .kGet
  method_known := by decide
  target := ascii "/"
  target_space := by decide
  target_line := by decide
  version := .kHttp11
  version_known := by decide
  fields := []
  fields_colon := by simp
  fields_line := by simp
  keepAlive := rfl

/-- Two requests that arrive in a read each are both handled. -/
theorem all_handled_iff_separate :
    ∃ conn, [getRoot.bytes, getRoot.bytes].foldlM (receive fun _ resp => resp) {} = some conn ∧
      conn.requests = [getRoot.toHttpRequest, getRoot.toHttpRequest] := by
  obtain ⟨conn, hrun, hall⟩ := all_handled_iff (fun _ resp => resp) [getRoot, getRoot]
    [getRoot.bytes, getRoot.bytes] (by simp)
  exact ⟨conn, hrun, hall.mpr (by decide)⟩

/-- Of two requests that arrive in the same read only the first is handled. -/
theorem getRoot_twice_in_one_read :
    ∃ conn, [getRoot.bytes ++ getRoot.bytes].foldlM (receive fun _ resp => resp) {} = some conn ∧
      conn.requests.length = 1 ∧
      conn.requests ≠ [getRoot.toHttpRequest, getRoot.toHttpRequest] := by
  have hlength : ([getRoot.bytes ++ getRoot.bytes].foldlM (receive fun _ resp => resp) {}).map
      (·.requests.length) = some 1 := by decide
  obtain ⟨conn, hrun, hone⟩ := Option.map_eq_some_iff.mp hlength
  refine ⟨conn, hrun, hone, fun hboth => ?_⟩
  rw [hboth] at hone
  simp at hone

end DuoDuo.Http
