import DuoDuo.Http.Conversation
import DuoDuo.Net.OutputIntegrity

/-!
# What arrives at the client

The server over the output side of a `TcpConnection`. Each call of `::write` takes as much as
the kernel likes, the rest waits in the output buffer, and the write side is closed once the
buffer is empty. Below the kernel's answers the server is the one that sends at once, and so
what the client gets is the conversation, and its end comes after all of it.
-/

namespace DuoDuo.Http

open Library Library.Machine Net

variable {httpCallback : HttpRequest → HttpResponse → HttpResponse}

/-- A connection of the server with its output side. -/
structure Session where
  /-- The context attached to the connection. -/
  context : HttpContext := {}
  /-- The readable bytes of `inputBuffer_`. -/
  inputBuffer : Bytes := []
  /-- The requests for which `onRequest` has been called, in order. -/
  requests : List HttpRequest := []
  /-- The rest of the connection, and the history of its output. -/
  wire : Wire

namespace Session

/-- `TcpConnection::send` on the thread of the loop. -/
def send (s : Session) (data : Bytes) (answer : ℕ → WriteResult) : Session :=
  if s.wire.conn.state = .kConnected then
    { s with wire := s.wire.record (s.wire.conn.sendInLoop data (answer data.length)) [data] }
  else s

/-- `TcpConnection::shutdown` on the thread of the loop. -/
def shutdown (s : Session) : Session :=
  { s with wire := s.wire.record { conn := s.wire.conn.shutdown } [] }

/-- `HttpServer::onRequest`. -/
def onRequest (httpCallback : HttpRequest → HttpResponse → HttpResponse) (s : Session)
    (req : HttpRequest) (answer : ℕ → WriteResult) : Session :=
  let response := httpCallback req { closeConnection := req.close }
  let s := { s with requests := s.requests ++ [req] }.send response.appendToBuffer answer
  if response.closeConnection then s.shutdown else s

/-- `HttpServer::onMessage`. -/
def onMessage (httpCallback : HttpRequest → HttpResponse → HttpResponse) (s : Session)
    (answer : ℕ → WriteResult) : Option Session := do
  let parsed ← s.context.parseRequest s.inputBuffer
  let s := { s with context := parsed.context, inputBuffer := parsed.rest }
  let s := if parsed.ok then s else (s.send badRequest answer).shutdown
  if s.context.gotAll then
    let s := onRequest httpCallback s s.context.request answer
    return { s with context := s.context.reset }
  else
    return s

/-- `TcpConnection::handleClose`, after which the channel is removed. -/
def handleClose (s : Session) : Session :=
  let conn := s.wire.conn
  let closed := { conn with state := .kDisconnected, channel := conn.channel.disableAll }
  { s with wire := s.wire.record { conn := closed } [] }

/-- `TcpConnection::handleWrite`. -/
def handleWrite (s : Session) (answer : WriteResult) : Session :=
  { s with wire := s.wire.record (s.wire.conn.handleWrite answer) [] }

/-- The events of the channel of a connection. -/
inductive Event
  /-- `handleRead` reads bytes, and `::write` answers by the length. -/
  | read (data : Bytes) (answer : ℕ → WriteResult)
  /-- `handleRead` reads the end of the stream. -/
  | readEnd
  /-- `handleWrite`. -/
  | write (answer : WriteResult)

/-- The sessions that begin when a connection is established, on a healthy socket. -/
def machine (httpCallback : HttpRequest → HttpResponse → HttpResponse) :
    Machine Session Event where
  init s := ∃ fd, s = {
    wire := ⟨TcpConnection.connectEstablished { channel := { fd := fd } }, [], []⟩ }
  step s event s' :=
    match event with
    | .read data answer => s.wire.conn.state ≠ .kDisconnected ∧
        (∀ len, (answer len).Healthy len) ∧
        onMessage httpCallback { s with inputBuffer := s.inputBuffer ++ data } answer = some s'
    | .readEnd => s.wire.conn.state ≠ .kDisconnected ∧ s' = s.handleClose
    | .write answer => answer.Healthy s.wire.conn.outputBuffer.length ∧ s' = s.handleWrite answer

/-- A read makes the server answer a malformed line. -/
def refuses (s : Session) : Event → Bool
  | .read data _ => s.wire.conn.state = .kConnected &&
      (s.context.parseRequest (s.inputBuffer ++ data)).any (!·.ok)
  | _ => false

/-- The connection that sends at once. -/
def view (s : Session) : HttpConnection where
  context := s.context
  inputBuffer := s.inputBuffer
  connected := s.wire.conn.state = .kConnected
  sent := s.wire.sent.flatten
  requests := s.requests

variable {s s' : Session} {answer : ℕ → WriteResult}

theorem view_send (s : Session) (data : Bytes) (answer : ℕ → WriteResult) :
    (s.send data answer).view = s.view.send data := by
  rw [send, HttpConnection.send]
  by_cases hstate : s.wire.conn.state = .kConnected
  · have hconnected : s.view.connected = true := decide_eq_true hstate
    rw [if_pos hstate, if_pos hconnected]
    simp [view, Wire.record]
  · have hconnected : ¬ s.view.connected = true := by simp [view, hstate]
    rw [if_neg hstate, if_neg hconnected]

theorem view_shutdown (s : Session) : s.shutdown.view = s.view.shutdown := by
  have hstate : s.wire.conn.shutdown.state ≠ .kConnected := by
    rw [TcpConnection.shutdown_state]
    split
    · nofun
    · assumption
  simp [view, shutdown, HttpConnection.shutdown, Wire.record, hstate]

theorem view_onRequest (s : Session) (req : HttpRequest) (answer : ℕ → WriteResult) :
    (s.onRequest httpCallback req answer).view = Http.onRequest httpCallback s.view req := by
  let response := httpCallback req { closeConnection := req.close }
  have hsend := view_send { s with requests := s.requests ++ [req] } response.appendToBuffer answer
  rw [onRequest, Http.onRequest]
  split
  · rw [view_shutdown, hsend]
    rfl
  · exact hsend

/-- What the kernel takes makes no difference to the conversation. -/
theorem view_onMessage (s : Session) (answer : ℕ → WriteResult) :
    (s.onMessage httpCallback answer).map view = Http.onMessage httpCallback s.view := by
  rw [onMessage, Http.onMessage]
  cases hparse : s.context.parseRequest s.inputBuffer with
  | none =>
    have hparse' : s.view.context.parseRequest s.view.inputBuffer = none := hparse
    rw [hparse']
    rfl
  | some p =>
    have hparse' : s.view.context.parseRequest s.view.inputBuffer = some p := hparse
    rw [hparse']
    simp only [Option.bind_eq_bind, Option.bind_some]
    have hchecked : (if p.ok then ({ s with context := p.context, inputBuffer := p.rest } : Session)
        else (({ s with context := p.context, inputBuffer := p.rest } : Session).send badRequest
          answer).shutdown).view =
        if p.ok then { s.view with context := p.context, inputBuffer := p.rest }
        else (({ s.view with context := p.context, inputBuffer := p.rest } : HttpConnection).send
          badRequest).shutdown := by
      split
      · rfl
      · rw [view_shutdown, view_send]
        rfl
    rw [← hchecked]
    generalize (if p.ok then ({ s with context := p.context, inputBuffer := p.rest } : Session)
      else _) = after
    have honRequest : (after.onRequest httpCallback after.context.request answer).view = _ :=
      view_onRequest after after.context.request answer
    have hgot : after.view.context.gotAll = after.context.gotAll := rfl
    rw [hgot]
    split
    · exact congrArg (fun conn : HttpConnection =>
        some { conn with context := conn.context.reset }) honRequest
    · rfl

/-- Whether the end of the stream has been sent is known from the state and the buffer. -/
structure Lively (s : Session) : Prop where
  state : s.wire.conn.state = .kConnected ∨ s.wire.conn.state = .kDisconnecting
  intact : s.wire.Intact
  fin : s.wire.conn.writeClosed = true ↔
    s.wire.conn.state = .kDisconnecting ∧ s.wire.conn.outputBuffer = []

theorem Lively.send (h : s.Lively) (data : Bytes) (hanswer : ∀ len, (answer len).Healthy len) :
    (s.send data answer).Lively := by
  rw [Session.send]
  split
  · next hstate =>
    have hne : s.wire.conn.state ≠ .kDisconnected := by simp [hstate]
    refine ⟨.inl ?_, h.intact.sendInLoop (hanswer data.length) hne, ?_⟩
    · simpa [Wire.record] using hstate
    · have hopen := h.fin
      simp only [hstate, Wire.record, TcpConnection.sendInLoop_state,
        TcpConnection.sendInLoop_writeClosed] at hopen ⊢
      simpa using hopen
  · exact h

theorem Lively.shutdown (h : s.Lively) : s.shutdown.Lively := by
  have hinterest := h.intact.interest
  have hfin := h.fin
  have hempty : s.wire.conn.channel.isWriting = false ↔ s.wire.conn.outputBuffer = [] := by
    rw [← Bool.not_eq_true, hinterest, Nat.not_lt, Nat.le_zero, List.length_eq_zero_iff]
  have hintact : s.shutdown.wire.Intact := by
    apply h.intact.of_same <;> unfold TcpConnection.shutdown <;> split <;> simp
  refine ⟨.inr ?_, hintact, ?_⟩
  · have hstate := s.wire.conn.shutdown_state
    rcases h.state with hopen | hclosing
    · exact hstate.trans (if_pos hopen)
    · rw [hclosing] at hstate
      exact hstate
  · have hclosed : s.shutdown.wire.conn = s.wire.conn.shutdown := rfl
    rw [hclosed, TcpConnection.shutdown]
    rcases h.state with hopen | hclosing
    · rw [if_pos hopen, TcpConnection.shutdownInLoop]
      dsimp only
      split
      · next hwriting =>
        have hne : s.wire.conn.outputBuffer ≠ [] := List.length_pos_iff.mp (hinterest.mp hwriting)
        simpa [hopen, hne] using hfin
      · next hwriting => simpa using hempty.mp (Bool.eq_false_iff.mpr hwriting)
    · have hnot : s.wire.conn.state ≠ .kConnected := by simp [hclosing]
      rw [if_neg hnot]
      exact hfin

/-- `handleWrite` closes the write side when it has emptied the buffer. -/
theorem handleWrite_fin {c : TcpConnection} {answer : WriteResult}
    (hinterest : c.channel.isWriting = true ↔ 0 < c.outputBuffer.length)
    (hfin : c.writeClosed = true ↔ c.state = .kDisconnecting ∧ c.outputBuffer = []) :
    (c.handleWrite answer).conn.writeClosed = true ↔
      c.state = .kDisconnecting ∧ (c.handleWrite answer).conn.outputBuffer = [] := by
  rw [TcpConnection.handleWrite]
  split
  · next hwriting =>
    have hne : c.outputBuffer ≠ [] := List.length_pos_iff.mp (hinterest.mp hwriting)
    have hopen : c.writeClosed = false := by simpa [hne] using hfin
    dsimp only
    split
    · split
      · next hleft =>
        by_cases hstate : c.state = .kDisconnecting
        · rw [List.length_drop] at hleft
          have hle : c.outputBuffer.length ≤ answer.nwrote := by omega
          simpa [hstate, TcpConnection.shutdownInLoop] using hle
        · simp [hstate, hopen]
      · next hleft =>
        have hleft' : c.outputBuffer.drop answer.nwrote ≠ [] := fun hnil => hleft (by simp [hnil])
        simp [hopen, hleft']
    · exact hfin
  · exact hfin

theorem Lively.handleWrite {answer : WriteResult} (h : s.Lively)
    (hanswer : answer.Healthy s.wire.conn.outputBuffer.length) :
    (s.handleWrite answer).Lively := by
  have hstate : (s.handleWrite answer).wire.conn.state = s.wire.conn.state :=
    TcpConnection.handleWrite_state _ _
  refine ⟨hstate ▸ h.state, h.intact.handleWrite hanswer, ?_⟩
  rw [hstate]
  exact handleWrite_fin h.intact.interest h.fin

theorem Lively.onRequest (h : s.Lively) (req : HttpRequest)
    (hanswer : ∀ len, (answer len).Healthy len) :
    (s.onRequest httpCallback req answer).Lively := by
  have hrequest : { s with requests := s.requests ++ [req] }.Lively := ⟨h.state, h.intact, h.fin⟩
  have hsend := hrequest.send
    (httpCallback req { closeConnection := req.close }).appendToBuffer hanswer
  rw [Session.onRequest]
  split
  · exact hsend.shutdown
  · exact hsend

theorem Lively.onMessage (h : s.Lively) (hanswer : ∀ len, (answer len).Healthy len)
    (hmessage : s.onMessage httpCallback answer = some s') : s'.Lively := by
  obtain ⟨p, -, hmessage⟩ := Option.bind_eq_some_iff.mp hmessage
  have hparsed : ({ s with context := p.context, inputBuffer := p.rest } : Session).Lively :=
    ⟨h.state, h.intact, h.fin⟩
  have hchecked : (if p.ok then ({ s with context := p.context, inputBuffer := p.rest } : Session)
      else (({ s with context := p.context, inputBuffer := p.rest } : Session).send badRequest
        answer).shutdown).Lively := by
    split
    · exact hparsed
    · exact (hparsed.send badRequest hanswer).shutdown
  dsimp only at hmessage
  generalize (if p.ok then ({ s with context := p.context, inputBuffer := p.rest } : Session)
    else _) = after at hmessage hchecked
  split at hmessage
  · have hanswered : (after.onRequest httpCallback after.context.request answer).Lively :=
      hchecked.onRequest after.context.request hanswer
    cases hmessage
    exact ⟨hanswered.state, hanswered.intact, hanswered.fin⟩
  · cases hmessage
    exact hchecked

/-- What has been sent, and whether it includes the answer to a malformed line. A connection
that has been closed no longer follows the one that sends at once. -/
structure Delivers (httpCallback : HttpRequest → HttpResponse → HttpResponse) (s : Session)
    (refused : Bool) : Prop where
  stream : s.wire.written ++ s.wire.conn.outputBuffer = s.wire.sent.flatten
  fin : s.wire.conn.writeClosed = true → s.wire.conn.outputBuffer = []
  spoke : ∃ conn : HttpConnection, conn.Spoke httpCallback refused ∧
    conn.requests = s.requests ∧ conn.sent = s.wire.sent.flatten ∧
    (s.wire.conn.state ≠ .kDisconnected → conn = s.view)
  lively : s.wire.conn.state ≠ .kDisconnected → s.Lively
  idle : s.wire.conn.state = .kDisconnected → s.wire.conn.channel.isWriting = false

/-- A session in which every event has been handled delivers the conversation. -/
theorem Delivers.of_lively {refused : Bool} (h : s.Lively)
    (hspoke : s.view.Spoke httpCallback refused) : s.Delivers httpCallback refused where
  stream := h.intact.stream
  fin hclosed := (h.fin.mp hclosed).2
  spoke := ⟨s.view, hspoke, rfl, rfl, fun _ => rfl⟩
  lively _ := h
  idle hstate := by
    rcases h.state with hopen | hclosing
    · cases hopen.symm.trans hstate
    · cases hclosing.symm.trans hstate

/-- Every event keeps it. -/
theorem Delivers.step {refused : Bool} {event : Event} (h : s.Delivers httpCallback refused)
    (hstep : (machine httpCallback).step s event s') :
    s'.Delivers httpCallback (refused || s.refuses event) := by
  obtain ⟨conn, hspoke, hrequests, hsent, hview⟩ := h.spoke
  cases event with
  | read data answer =>
    obtain ⟨hstate, hanswer, hmessage⟩ := hstep
    have hlively := h.lively hstate
    have hreceived : { s with inputBuffer := s.inputBuffer ++ data }.Lively :=
      ⟨hlively.state, hlively.intact, hlively.fin⟩
    have hread : receive httpCallback s.view data = some s'.view := by
      have hcommutes : Option.map view _ = receive httpCallback s.view data :=
        view_onMessage { s with inputBuffer := s.inputBuffer ++ data } answer
      rw [hmessage] at hcommutes
      exact hcommutes.symm
    have hrefuses : s.refuses (.read data answer) = s.view.refuses data := rfl
    rw [hview hstate] at hspoke
    rw [hrefuses]
    exact .of_lively (hreceived.onMessage hanswer hmessage) (hspoke.read hread)
  | readEnd =>
    obtain ⟨-, rfl⟩ := hstep
    have hrefuses : s.refuses .readEnd = false := rfl
    rw [hrefuses, Bool.or_false]
    refine ⟨?_, h.fin, ⟨conn, hspoke, hrequests, ?_, fun hne => absurd rfl hne⟩,
      fun hne => absurd rfl hne, fun _ => ?_⟩
    · simpa [handleClose, Wire.record] using h.stream
    · simpa [handleClose, Wire.record] using hsent
    · simp [handleClose, Wire.record, Channel.disableAll, Channel.isWriting, kNoneEvent]
  | write answer =>
    obtain ⟨hanswer, rfl⟩ := hstep
    have hrefuses : s.refuses (.write answer) = false := rfl
    rw [hrefuses, Bool.or_false]
    by_cases hstate : s.wire.conn.state = .kDisconnected
    · have hidle : ¬ s.wire.conn.channel.isWriting = true := by simp [h.idle hstate]
      have hsame : s.handleWrite answer = s := by
        simp [Session.handleWrite, TcpConnection.handleWrite, hidle, Wire.record]
      rw [hsame]
      exact h
    · have hlively := (h.lively hstate).handleWrite hanswer
      refine .of_lively hlively ?_
      have hsame : (s.handleWrite answer).view = s.view := by
        simp [Session.handleWrite, view, Wire.record]
      rw [hsame, ← hview hstate]
      exact hspoke

/-- A whole run keeps it. -/
theorem Delivers.run {trace : List (Session × Event)} {refused : Bool}
    (hrun : (machine httpCallback).Run s trace s') (h : s.Delivers httpCallback refused) :
    s'.Delivers httpCallback (refused || trace.any fun e => e.1.refuses e.2) := by
  induction hrun generalizing refused with
  | nil => rwa [List.any_nil, Bool.or_false]
  | cons hstep _ ih =>
    rw [List.any_cons, ← Bool.or_assoc]
    exact ih (h.step hstep)

/-- A new session has delivered nothing. -/
theorem Delivers.init (h : (machine httpCallback).init s) : s.Delivers httpCallback false := by
  obtain ⟨fd, rfl⟩ := h
  refine .of_lively ⟨.inl rfl, ⟨rfl, ?_⟩, ?_⟩ (.open (.inl rfl) rfl (List.forall_mem_nil _) rfl)
  · have hidle : ({ fd := fd } : Channel).isWriting = false := by
      simp [Channel.isWriting_eq_testBit, kNoneEvent]
    simp [TcpConnection.connectEstablished, hidle]
  · simp [TcpConnection.connectEstablished]

/-- A client gets the conversation, and its end only after all of it. What the kernel has taken
and what is still in the output buffer can be read back as the responses to the requests, up
to the first that closes the connection, and the answer to a malformed line if one came before.
The write side is closed only when nothing is left in the buffer, and while the connection is
not closed altogether, exactly when besides that the conversation is over. -/
theorem delivered_of_run {trace : List (Session × Event)}
    (hwell : ∀ req, (respond httpCallback req).WellFormed) (hinit : (machine httpCallback).init s)
    (hrun : (machine httpCallback).Run s trace s') :
    readResponses (s'.requests.length + 1) (s'.wire.written ++ s'.wire.conn.outputBuffer) =
        some ((answers httpCallback s'.requests).map HttpResponse.toClient ++
          if trace.any fun e => e.1.refuses e.2 then [refusal] else []) ∧
      (s'.wire.conn.writeClosed = true → s'.wire.conn.outputBuffer = []) ∧
      (s'.wire.conn.state ≠ .kDisconnected → (s'.wire.conn.writeClosed = true ↔
        s'.wire.conn.outputBuffer = [] ∧ (¬ KeepAlive httpCallback s'.requests ∨
          trace.any (fun e => e.1.refuses e.2) = true))) := by
  have h := (Delivers.init hinit).run hrun
  rw [Bool.false_or] at h
  obtain ⟨conn, hspoke, hrequests, hsent, hview⟩ := h.spoke
  refine ⟨?_, h.fin, fun hstate => ?_⟩
  · rw [h.stream, ← hsent, ← hrequests]
    exact hspoke.readResponses_eq hwell
  · have hlively := h.lively hstate
    have hover := hspoke.connected_iff
    have hconnected : conn.connected = false ↔ s'.wire.conn.state = .kDisconnecting := by
      rw [hview hstate]
      rcases hlively.state with hopen | hclosing
      · simp [view, hopen]
      · simp [view, hclosing]
    rw [hlively.fin, ← hconnected, hover, hrequests, and_comm]

/-- A session that has just begun. -/
def established : Session :=
  { wire := ⟨TcpConnection.connectEstablished { channel := { fd := 7 } }, [], []⟩ }

/-- A kernel that takes at most ten bytes at once. -/
def tenBytes (len : ℕ) : WriteResult := .count (min 10 len)

/-- A request that closes the connection, of whose response the kernel takes ten bytes, and
then no more for now. -/
theorem delivered_of_run_tenBytes : ∃ trace s, (machine greet).Run established trace s ∧
    trace.length = 2 ∧ s.wire.written.length = 10 ∧
      readResponses (s.requests.length + 1) (s.wire.written ++ s.wire.conn.outputBuffer) =
        some ((answers greet s.requests).map HttpResponse.toClient ++
          if trace.any fun e => e.1.refuses e.2 then [refusal] else []) ∧
      (s.wire.conn.writeClosed = true → s.wire.conn.outputBuffer = []) ∧
      (s.wire.conn.state ≠ .kDisconnected → (s.wire.conn.writeClosed = true ↔
        s.wire.conn.outputBuffer = [] ∧ (¬ KeepAlive greet s.requests ∨
          trace.any (fun e => e.1.refuses e.2) = true))) := by
  have hwell : ∀ close, (greet {} { closeConnection := close }).WellFormed := by
    intro close
    cases close <;> exact ⟨by decide, by decide, by decide, by decide⟩
  have hrespond : ∀ req, (respond greet req).WellFormed := fun req => hwell req.close
  have hhealthy : ∀ len, (tenBytes len).Healthy len := fun len => min_le_right 10 len
  obtain ⟨s, hmessage, hwritten⟩ : ∃ s, onMessage greet { established with
      inputBuffer := ascii "GET / HTTP/1.0\r\n\r\n" } tenBytes = some s ∧
      s.wire.written.length = 10 := by
    refine ⟨_, rfl, ?_⟩
    decide
  have hstep :
      (machine greet).step established (.read (ascii "GET / HTTP/1.0\r\n\r\n") tenBytes) s :=
    ⟨by decide, hhealthy, hmessage⟩
  have hstep' : (machine greet).step s (.write (.failed .EWOULDBLOCK))
      (s.handleWrite (.failed .EWOULDBLOCK)) := ⟨rfl, rfl⟩
  have hrun := Run.cons hstep (.cons hstep' (.nil _))
  refine ⟨_, _, hrun, rfl, ?_, delivered_of_run hrespond ⟨7, rfl⟩ hrun⟩
  have hwrote : (s.wire.conn.handleWrite (.failed .EWOULDBLOCK)).wrote = [] := by
    rw [TcpConnection.handleWrite]
    split <;> rfl
  rwa [Session.handleWrite, Wire.record, hwrote, List.append_nil]

end Session

end DuoDuo.Http
