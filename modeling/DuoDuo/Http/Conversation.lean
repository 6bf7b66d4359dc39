import DuoDuo.Http.MessageHandling
import DuoDuo.Http.ResponseReader

/-!
# A conversation as its client sees it

Whatever bytes a client sends, in whatever pieces, it can read what it gets back: the
responses to the requests that the server has found, in their order, up to the first that
closes the connection, and after them the answer to a malformed line if one came first.
-/

namespace DuoDuo.Http

open Library Library.Machine

variable {httpCallback : HttpRequest → HttpResponse → HttpResponse}

/-- The response of the callback to a request. -/
def respond (httpCallback : HttpRequest → HttpResponse → HttpResponse) (req : HttpRequest) :
    HttpResponse :=
  httpCallback req { closeConnection := req.close }

/-- The responses to requests, up to the first that closes the connection. -/
def answers (httpCallback : HttpRequest → HttpResponse → HttpResponse) :
    List HttpRequest → List HttpResponse
  | [] => []
  | req :: reqs =>
    let response := respond httpCallback req
    if response.closeConnection then [response] else response :: answers httpCallback reqs

/-- None of the responses to requests closes the connection. -/
def KeepAlive (httpCallback : HttpRequest → HttpResponse → HttpResponse)
    (reqs : List HttpRequest) : Prop :=
  ∀ req ∈ reqs, (respond httpCallback req).closeConnection = false

/-- While all keep the connection alive, one more request gets one more response. -/
theorem KeepAlive.answers_concat {reqs : List HttpRequest} (h : KeepAlive httpCallback reqs)
    (req : HttpRequest) :
    answers httpCallback (reqs ++ [req]) =
      answers httpCallback reqs ++ [respond httpCallback req] := by
  induction reqs with
  | nil =>
    simp only [List.nil_append, answers]
    split <;> rfl
  | cons first reqs ih =>
    obtain ⟨hfirst, hreqs⟩ := List.forall_mem_cons.mp h
    simp only [List.cons_append, answers, hfirst, ih hreqs]
    rfl

/-- After a response that closes the connection there are no others. -/
theorem answers_concat_of_not_keepAlive {reqs : List HttpRequest}
    (h : ¬ KeepAlive httpCallback reqs) (req : HttpRequest) :
    answers httpCallback (reqs ++ [req]) = answers httpCallback reqs := by
  induction reqs with
  | nil => exact absurd (List.forall_mem_nil _) h
  | cons first reqs ih =>
    rw [List.cons_append, answers, answers]
    cases hfirst : (respond httpCallback first).closeConnection with
    | true => rfl
    | false =>
      have hreqs : ¬ KeepAlive httpCallback reqs := fun hreqs =>
        h (List.forall_mem_cons.mpr ⟨hfirst, hreqs⟩)
      simp only [ih hreqs]

theorem answers_length_le (reqs : List HttpRequest) :
    (answers httpCallback reqs).length ≤ reqs.length := by
  induction reqs with
  | nil => exact le_rfl
  | cons req reqs ih =>
    rw [answers]
    split
    · exact Nat.succ_le_succ (Nat.zero_le _)
    · exact Nat.succ_le_succ ih

/-- Responses that all keep the connection alive, or such responses and one that closes it. -/
theorem answers_cases (reqs : List HttpRequest) :
    (KeepAlive httpCallback reqs ∧
      answers httpCallback reqs = reqs.map (respond httpCallback)) ∨
    ∃ before req after, reqs = before ++ req :: after ∧ KeepAlive httpCallback before ∧
      (respond httpCallback req).closeConnection = true ∧
      answers httpCallback reqs = before.map (respond httpCallback) ++
        [respond httpCallback req] := by
  induction reqs with
  | nil => exact .inl ⟨List.forall_mem_nil _, rfl⟩
  | cons first reqs ih =>
    rw [answers]
    cases hfirst : (respond httpCallback first).closeConnection with
    | true => exact .inr ⟨[], first, reqs, rfl, List.forall_mem_nil _, hfirst, rfl⟩
    | false =>
      rcases ih with ⟨hkeep, hanswers⟩ | ⟨before, req, after, rfl, hkeep, hclose, hanswers⟩
      · exact .inl ⟨List.forall_mem_cons.mpr ⟨hfirst, hkeep⟩, by simp [hanswers]⟩
      · exact .inr ⟨first :: before, req, after, rfl, List.forall_mem_cons.mpr ⟨hfirst, hkeep⟩,
          hclose, by simp [hanswers]⟩

/-- A read makes the server answer a malformed line: the connection is still open, and the
first line in the buffer is then such a line. -/
def HttpConnection.refuses (conn : HttpConnection) (data : Bytes) : Bool :=
  conn.connected && (conn.context.parseRequest (conn.inputBuffer ++ data)).any (!·.ok)

/-- The answer to a malformed line as a client reads it. -/
def refusal : ClientResponse where
  statusCode := 400
  statusMessage := ascii "Bad Request"
  headers := []
  body := []

/-- A line that `processRequestLine` rejects is at the beginning of the buffer. -/
def HttpContext.Stuck (ctx : HttpContext) (buf : Bytes) : Prop :=
  ctx.state = .kExpectRequestLine ∧ ∃ crlf, findCRLF buf = some crlf ∧
    ∀ r : HttpRequest, (r.processRequestLine (buf.take crlf)).2 = false

namespace HttpContext

variable {ctx : HttpContext} {buf : Bytes} {p : Parsed}

/-- A call that fails leaves the malformed line in the buffer. -/
theorem Parses.stuck (h : Parses ctx buf p) (hok : p.ok = false) : p.context.Stuck p.rest := by
  induction h with
  | wait _ _ => cases hok
  | @invalid ctx buf crlf r hstate hcrlf hline =>
    refine ⟨hstate, crlf, hcrlf, fun r' => ?_⟩
    rw [HttpRequest.processRequestLine_accepted r' ctx.request, hline]
  | requestLine _ _ _ _ ih => exact ih hok
  | header _ _ _ _ ih => exact ih hok
  | last _ _ _ => cases hok

/-- There is no way on past a malformed line. -/
theorem Stuck.parses (h : Stuck ctx buf) (more : Bytes) (hp : Parses ctx (buf ++ more) p) :
    p.ok = false := by
  obtain ⟨hstate, crlf, hcrlf, hline⟩ := h
  have hmore := findCRLF_append hcrlf more
  have htake := take_append_of_findCRLF hcrlf more
  cases hp with
  | wait _ hnone =>
    rw [hnone] at hmore
    cases hmore
  | invalid _ _ _ => rfl
  | @requestLine _ _ crlf' r _ _ hcrlf' hline' _ =>
    rw [hmore] at hcrlf'
    cases hcrlf'
    rw [htake] at hline'
    have haccepted := hline ctx.request
    rw [hline'] at haccepted
    cases haccepted
  | header hstate' _ _ _ =>
    rw [hstate] at hstate'
    cases hstate'
  | last hstate' _ _ =>
    rw [hstate] at hstate'
    cases hstate'

/-- A call that fails has not finished a request. -/
theorem Parses.not_gotAll_of_fails (h : Parses ctx buf p) (hok : p.ok = false) :
    p.context.gotAll = false := by
  have hstate := (h.stuck hok).1
  rw [gotAll, hstate]
  rfl

end HttpContext

namespace HttpConnection

/-- What a connection has sent, with whether it has answered a malformed line. -/
inductive Spoke (httpCallback : HttpRequest → HttpResponse → HttpResponse) :
    HttpConnection → Bool → Prop
  /-- Every request has been answered. -/
  | open {conn : HttpConnection} : conn.context.Reading → conn.connected = true →
      KeepAlive httpCallback conn.requests →
      conn.sent = (answers httpCallback conn.requests).flatMap HttpResponse.appendToBuffer →
      Spoke httpCallback conn false
  /-- A response has closed the connection. -/
  | closed {conn : HttpConnection} : conn.context.Reading → conn.connected = false →
      ¬ KeepAlive httpCallback conn.requests →
      conn.sent = (answers httpCallback conn.requests).flatMap HttpResponse.appendToBuffer →
      Spoke httpCallback conn false
  /-- A malformed line has. -/
  | refused {conn : HttpConnection} : conn.context.Stuck conn.inputBuffer →
      conn.connected = false → KeepAlive httpCallback conn.requests →
      conn.sent = (answers httpCallback conn.requests).flatMap HttpResponse.appendToBuffer ++
        badRequest →
      Spoke httpCallback conn true

variable {conn conn' : HttpConnection} {data : Bytes}

/-- An open connection sends the response. -/
theorem answered_of_connected (h : conn.connected = true) :
    conn.answered httpCallback =
      { context := conn.context.reset
        inputBuffer := conn.inputBuffer
        connected := !(respond httpCallback conn.context.request).closeConnection
        sent := conn.sent ++ (respond httpCallback conn.context.request).appendToBuffer
        requests := conn.requests ++ [conn.context.request] } := by
  have hsend : ∀ data, ({ conn with requests := conn.requests ++ [conn.context.request] }).send
      data = { conn with
        requests := conn.requests ++ [conn.context.request], sent := conn.sent ++ data } :=
    fun data => if_pos h
  rw [answered]
  rw [answer, hsend, respond]
  split
  · next hclose => rw [hclose]; rfl
  · next hkeep => rw [Bool.eq_false_iff.mpr hkeep, Bool.not_false, ← h]

/-- A connection that is closed sends nothing. -/
theorem answered_of_not_connected (h : conn.connected = false) :
    conn.answered httpCallback = { conn with
      context := conn.context.reset, requests := conn.requests ++ [conn.context.request] } := by
  have hsend : ∀ data, ({ conn with requests := conn.requests ++ [conn.context.request] }).send
      data = { conn with requests := conn.requests ++ [conn.context.request] } :=
    fun data => if_neg (Bool.eq_false_iff.mp h)
  rw [answered]
  rw [answer, hsend]
  split
  · rw [shutdown, ← h]
  · rfl

/-- The answer to a malformed line. -/
theorem checked_false (conn : HttpConnection) :
    conn.checked false = { conn with
      connected := false
      sent := if conn.connected then conn.sent ++ badRequest else conn.sent } := by
  rw [checked, if_neg Bool.false_ne_true, send]
  split <;> rfl

/-- A request is answered on an open connection. -/
theorem spoke_answered_open (hconnected : conn.connected = true)
    (hkeep : KeepAlive httpCallback conn.requests)
    (hsent : conn.sent =
      (answers httpCallback conn.requests).flatMap HttpResponse.appendToBuffer) :
    Spoke httpCallback (conn.answered httpCallback) false := by
  let req := conn.context.request
  have hsent' : conn.sent ++ (respond httpCallback req).appendToBuffer =
      (answers httpCallback (conn.requests ++ [req])).flatMap HttpResponse.appendToBuffer := by
    rw [hkeep.answers_concat, List.flatMap_append, ← hsent, List.flatMap_singleton]
  rw [answered_of_connected hconnected]
  cases hclose : (respond httpCallback req).closeConnection with
  | false =>
    refine .open (.inl rfl) rfl (fun r hr => ?_) hsent'
    rcases List.mem_append.mp hr with hr | hr
    · exact hkeep r hr
    · rw [List.mem_singleton.mp hr]
      exact hclose
  | true =>
    refine .closed (.inl rfl) rfl (fun hall => ?_) hsent'
    have hreq := hall req (List.mem_append_right _ (List.mem_singleton_self _))
    rw [hclose] at hreq
    cases hreq

/-- A request that is found after a response has closed the connection gets no answer. -/
theorem spoke_answered_closed (hconnected : conn.connected = false)
    (hclosed : ¬ KeepAlive httpCallback conn.requests)
    (hsent : conn.sent =
      (answers httpCallback conn.requests).flatMap HttpResponse.appendToBuffer) :
    Spoke httpCallback (conn.answered httpCallback) false := by
  let req := conn.context.request
  have hclosed' : ¬ KeepAlive httpCallback (conn.requests ++ [req]) := fun hall =>
    hclosed fun r hr => hall r (List.mem_append_left _ hr)
  have hsent' : conn.sent =
      (answers httpCallback (conn.requests ++ [req])).flatMap HttpResponse.appendToBuffer := by
    rw [answers_concat_of_not_keepAlive hclosed]
    exact hsent
  rw [answered_of_not_connected hconnected]
  exact .closed (.inl rfl) hconnected hclosed' hsent'

/-- What a connection has sent after one more read. -/
theorem Spoke.read {refused : Bool} (h : conn.Spoke httpCallback refused)
    (hread : receive httpCallback conn data = some conn') :
    conn'.Spoke httpCallback (refused || conn.refuses data) := by
  have hreading : conn.context.Reading := by
    cases h with
    | «open» hreading _ _ _ => exact hreading
    | closed hreading _ _ _ => exact hreading
    | refused hstuck _ _ _ => exact .inl hstuck.1
  obtain ⟨⟨ok, context, rest⟩, -, hp⟩ := HttpContext.exists_parses_of_reading hreading
    (Nat.lt_succ_self (conn.inputBuffer ++ data).length)
  have hrefuses : conn.refuses data = (conn.connected && !ok) := by
    rw [refuses, hp.parseRequest_eq]
    rfl
  have honMessage : receive httpCallback conn data = _ := onMessage_of_parses hp
  rw [hread, Option.some.injEq] at honMessage
  have hnot := hp.not_gotAll_of_fails
  rw [hrefuses, honMessage]
  cases ok with
  | false =>
    have hstuck : context.Stuck rest := hp.stuck rfl
    have hgot : context.gotAll = false := hnot rfl
    rw [checked_false, if_neg (by simp [hgot])]
    cases h with
    | «open» _ hconnected hkeep hsent =>
      rw [hconnected, if_pos rfl, hsent]
      exact .refused hstuck rfl hkeep rfl
    | closed _ hconnected hclosed hsent =>
      rw [hconnected, if_neg Bool.false_ne_true]
      exact .closed (.inl hstuck.1) rfl hclosed hsent
    | refused _ hconnected hkeep hsent =>
      rw [hconnected, if_neg Bool.false_ne_true]
      exact .refused hstuck rfl hkeep hsent
  | true =>
    rw [Bool.not_true, Bool.and_false, Bool.or_false]
    have hread' := hp.reading_or
    dsimp only at hread' ⊢
    rw [checked, if_pos rfl]
    cases h with
    | «open» _ hconnected hkeep hsent =>
      split
      · exact spoke_answered_open hconnected hkeep hsent
      · next hgot => exact .open (hread'.resolve_left hgot) hconnected hkeep hsent
    | closed _ hconnected hclosed hsent =>
      split
      · exact spoke_answered_closed hconnected hclosed hsent
      · next hgot => exact .closed (hread'.resolve_left hgot) hconnected hclosed hsent
    | refused hstuck _ _ _ => cases hstuck.parses data hp

/-- What a connection has sent after reads. -/
theorem Spoke.run {trace : List (HttpConnection × Bytes)} {refused : Bool}
    (hrun : (machine httpCallback).Run conn trace conn') (h : conn.Spoke httpCallback refused) :
    conn'.Spoke httpCallback (refused || trace.any fun e => e.1.refuses e.2) := by
  induction hrun generalizing refused with
  | nil => rwa [List.any_nil, Bool.or_false]
  | cons hread _ ih =>
    rw [List.any_cons, ← Bool.or_assoc]
    exact ih (h.read hread)

end HttpConnection

/-- The refusal is read back. -/
theorem readResponse_badRequest : readResponse badRequest = some (refusal, []) := by
  have hline : ∀ line ∈ [ascii "HTTP/1.1 400 Bad Request"], line ≠ [] ∧ ¬ kCRLF <:+: line := by
    decide
  have hstatus : readStatus (ascii "HTTP/1.1 400 Bad Request") =
      some (400, ascii "Bad Request") :=
    HttpResponse.readStatus_statusLine ⟨400, ascii "Bad Request", true, [], []⟩
  have hstream : badRequest =
      RequestMessage.terminated ([ascii "HTTP/1.1 400 Bad Request"] ++ [[]]) ++ [] := by
    simp [badRequest, RequestMessage.terminated]
  have hlines := readLines_terminated hline [] (readLines_fuel _ [])
  rw [readResponse, hstream]
  simp only [hlines, Option.bind_eq_bind, Option.bind_some, List.head?_cons, hstatus,
    List.tail_cons, List.mapM_nil, Option.pure_def]
  rfl

theorem KeepAlive.answers_eq {reqs : List HttpRequest} (h : KeepAlive httpCallback reqs) :
    answers httpCallback reqs = reqs.map (respond httpCallback) := by
  rcases answers_cases reqs with ⟨-, hanswers⟩ | ⟨before, req, after, rfl, -, hclose, -⟩
  · exact hanswers
  · have hkeep := h req (List.mem_append_right _ List.mem_cons_self)
    rw [hclose] at hkeep
    cases hkeep

/-- The answers to requests are read back. -/
theorem reads_answers (hwell : ∀ req, (respond httpCallback req).WellFormed)
    (reqs : List HttpRequest) :
    Reads ((answers httpCallback reqs).flatMap HttpResponse.appendToBuffer)
      ((answers httpCallback reqs).map HttpResponse.toClient) := by
  have hkept : ∀ {reqs : List HttpRequest}, KeepAlive httpCallback reqs →
      ∀ resp ∈ reqs.map (respond httpCallback),
        resp.WellFormed ∧ resp.closeConnection = false := by
    intro reqs hkeep resp hresp
    obtain ⟨req, hreq, rfl⟩ := List.mem_map.mp hresp
    exact ⟨hwell req, hkeep req hreq⟩
  rcases answers_cases reqs with
    ⟨hkeep, hanswers⟩ | ⟨before, req, after, -, hkeep, hclose, hanswers⟩
  · have hreads := Reads.append (hkept hkeep) .nil
    rwa [List.append_nil, List.append_nil, ← hanswers] at hreads
  · rw [hanswers, List.flatMap_append, List.map_append, List.flatMap_singleton, List.map_singleton]
    refine Reads.append (hkept hkeep) (.cons ?_ ((hwell req).readResponse_close hclose) .nil)
    exact HttpResponse.appendToBuffer_ne_nil _

/-- What a connection has sent is read back. -/
theorem HttpConnection.Spoke.reads {conn : HttpConnection} {refused : Bool}
    (hwell : ∀ req, (respond httpCallback req).WellFormed) (h : conn.Spoke httpCallback refused) :
    Reads conn.sent ((answers httpCallback conn.requests).map HttpResponse.toClient ++
      if refused then [refusal] else []) := by
  cases h with
  | «open» _ _ _ hsent =>
    rw [hsent, if_neg Bool.false_ne_true, List.append_nil]
    exact reads_answers hwell _
  | closed _ _ _ hsent =>
    rw [hsent, if_neg Bool.false_ne_true, List.append_nil]
    exact reads_answers hwell _
  | refused _ _ hkeep hsent =>
    rw [hsent, if_pos rfl, hkeep.answers_eq]
    refine Reads.append ?_ (.cons (by decide) readResponse_badRequest .nil)
    intro resp hresp
    obtain ⟨req, hreq, rfl⟩ := List.mem_map.mp hresp
    exact ⟨hwell req, hkeep req hreq⟩

/-- The conversation is over when a response or a malformed line has closed the connection. -/
theorem HttpConnection.Spoke.connected_iff {conn : HttpConnection} {refused : Bool}
    (h : conn.Spoke httpCallback refused) :
    conn.connected = false ↔ ¬ KeepAlive httpCallback conn.requests ∨ refused = true := by
  cases h with
  | «open» _ hconnected hkeep _ => simp [hconnected, hkeep]
  | closed _ hconnected hclosed _ => simp [hconnected, hclosed]
  | refused _ hconnected _ _ => simp [hconnected]

/-- A client has fuel enough with one response more than there are requests. -/
theorem HttpConnection.Spoke.readResponses_eq {conn : HttpConnection} {refused : Bool}
    (h : conn.Spoke httpCallback refused) (hwell : ∀ req, (respond httpCallback req).WellFormed) :
    readResponses (conn.requests.length + 1) conn.sent =
      some ((answers httpCallback conn.requests).map HttpResponse.toClient ++
        if refused then [refusal] else []) := by
  have hlength : (answers httpCallback conn.requests).length ≤ _ := answers_length_le _
  refine (h.reads hwell).readResponses_eq ?_
  rw [List.length_append, List.length_map]
  split
  · exact Nat.succ_le_succ hlength
  · exact Nat.le_succ_of_le hlength

/-- Whatever a client sends, in whatever pieces, the server goes on, and what it has sent can
be read back as the responses to the requests that it has found, in their order, up to the
first that closes the connection, followed by the answer to a malformed line exactly when such
a line came while the connection was open. -/
theorem readResponses_conversation (hwell : ∀ req, (respond httpCallback req).WellFormed)
    (reads : List Bytes) :
    ∃ trace conn, (HttpConnection.machine httpCallback).Run {} trace conn ∧
      trace.map Prod.snd = reads ∧
      readResponses (conn.requests.length + 1) conn.sent =
        some ((answers httpCallback conn.requests).map HttpResponse.toClient ++
          if trace.any fun e => e.1.refuses e.2 then [refusal] else []) := by
  have hruns : ∀ conn : HttpConnection, conn.context.Reading → ∃ trace conn',
      (HttpConnection.machine httpCallback).Run conn trace conn' ∧ trace.map Prod.snd = reads := by
    induction reads with
    | nil => exact fun conn _ => ⟨[], conn, .nil conn, rfl⟩
    | cons data reads ih =>
      intro conn hreading
      obtain ⟨p, conn₁, hp, hread, hcontext, -⟩ :=
        HttpConnection.receive_spec httpCallback hreading data
      have hreading₁ : conn₁.context.Reading := by
        rw [hcontext]
        split
        · exact .inl rfl
        · next hgot => exact hp.reading_or.resolve_left hgot
      obtain ⟨trace, conn', hrun, htrace⟩ := ih conn₁ hreading₁
      exact ⟨(conn, data) :: trace, conn', .cons hread hrun, congrArg _ htrace⟩
  obtain ⟨trace, conn, hrun, htrace⟩ := hruns {} (.inl rfl)
  have hspoke : HttpConnection.Spoke httpCallback {} false :=
    .open (.inl rfl) rfl (List.forall_mem_nil _) rfl
  have hspoke' := hspoke.run hrun
  rw [Bool.false_or] at hspoke'
  exact ⟨trace, conn, hrun, htrace, hspoke'.readResponses_eq hwell⟩

/-- A callback that greets every client. -/
def greet (_ : HttpRequest) (resp : HttpResponse) : HttpResponse :=
  { resp with statusCode := 200, statusMessage := ascii "OK", body := ascii "hello" }

/-- A request and a malformed line, of which each comes in two pieces. -/
def badSecond : List Bytes :=
  [ascii "GET / HTT", ascii "P/1.1\r\nHost: a\r\n\r\nPUSH", ascii " / HTTP/1.1\r\n", ascii "x"]

theorem readResponses_conversation_badSecond :
    ∃ trace conn, (HttpConnection.machine greet).Run {} trace conn ∧
      trace.map Prod.snd = badSecond ∧
      readResponses (conn.requests.length + 1) conn.sent =
        some ((answers greet conn.requests).map HttpResponse.toClient ++
          if trace.any fun e => e.1.refuses e.2 then [refusal] else []) := by
  have hwell : ∀ close, (greet {} { closeConnection := close }).WellFormed := by
    intro close
    cases close <;> exact ⟨by decide, by decide, by decide, by decide⟩
  have hrespond : ∀ req, (respond greet req).WellFormed := fun req => hwell req.close
  exact readResponses_conversation hrespond badSecond

end DuoDuo.Http
