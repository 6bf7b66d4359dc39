import DuoDuo.Buffer.FdContents
import DuoDuo.Http.HttpServer
import DuoDuo.Http.PooledParsing

/-!
# Connections that share a pool of buffers

The threads of a server keep the input of their connections, and their responses, in
buffers of one arena. Between any two calls to the arena another thread may call it. Each
connection parses and answers what was read for it, as if its buffer were a list of bytes,
as long as every request to the arena is served with the right pointer.
-/

namespace DuoDuo.Http

open Library Library.Machine Buffer Buffer.BufferPool

/-- The strings that `appendToBuffer` hands to `writeBytes`. -/
def HttpResponse.strings (resp : HttpResponse) : List Bytes :=
  [ascii "HTTP/1.1 " ++ ascii (toString resp.statusCode) ++ ascii " ", resp.statusMessage, kCRLF] ++
  (if resp.closeConnection then [ascii "Connection: close" ++ kCRLF]
    else [ascii "Content-Length: " ++ ascii (toString resp.body.length) ++ kCRLF,
      ascii "Connection: Keep-Alive" ++ kCRLF]) ++
  resp.headers.flatMap (fun header => [header.1, ascii ": ", header.2, kCRLF]) ++
  [kCRLF, resp.body]

/-- The strings are the bytes of the response. -/
theorem HttpResponse.flatten_strings (resp : HttpResponse) :
    resp.strings.flatten = resp.appendToBuffer := by
  have hheaders : (resp.headers.flatMap fun header =>
      [header.1, ascii ": ", header.2, kCRLF]).flatten =
        resp.headers.flatMap fun header => header.1 ++ ascii ": " ++ header.2 ++ kCRLF := by
    simp [List.flatMap_def, List.flatten_flatten, Function.comp_def]
  rw [strings, appendToBuffer, List.flatten_append, List.flatten_append, List.flatten_append,
    hheaders]
  split <;> simp

/-- Where the loop of a connection is. -/
inductive Handler
  /-- The loop waits until the socket is readable. -/
  | polling
  /-- The loop of `parseRequest`. -/
  | parsing
  /-- `onRequest`, where the callback has returned. -/
  | responding (response : HttpResponse)
  /-- `appendToBuffer`, for the buffer in a place of the pool, with what it still writes. -/
  | appending (i : ℕ) (response : HttpResponse) (strings : List Bytes)
  /-- The end of `onRequest`, where its buffer is destroyed. -/
  | leaving (i : ℕ)
  /-- `handleClose` has been called. -/
  | closed
  /-- The connection has been destroyed. -/
  | destroyed

/-- A connection of the server. -/
structure PooledConnection where
  /-- The thread of its loop. -/
  thread : ℕ
  /-- The place of `inputBuffer_` in the pool. -/
  input : ℕ
  handler : Handler := .polling
  /-- The context attached to the connection. -/
  context : HttpContext := {}
  /-- `state_` is `kConnected`. -/
  connected : Bool := true
  /-- The bytes passed on by `TcpConnection::send`. -/
  sent : Bytes := []
  /-- The requests for which `onRequest` has been called, in order. -/
  requests : List HttpRequest := []
  /-- What was read from the socket. -/
  reads : List Bytes := []

namespace PooledConnection

/-- `TcpConnection::send`. -/
def send (conn : PooledConnection) (data : Bytes) : PooledConnection :=
  if conn.connected then { conn with sent := conn.sent ++ data } else conn

/-- `TcpConnection::shutdown`. -/
def shutdown (conn : PooledConnection) : PooledConnection := { conn with connected := false }

/-- The places of the buffers of a connection. -/
def slots (conn : PooledConnection) : List ℕ :=
  match conn.handler with
  | .polling | .parsing | .responding _ | .closed => [conn.input]
  | .appending i _ _ | .leaving i => [conn.input, i]
  | .destroyed => []

/-- The connection with the answer to a malformed request line. -/
def checked (conn : PooledConnection) (ok : Bool) : PooledConnection :=
  if ok then conn else (conn.send badRequest).shutdown

/-- What `onMessage` does when `parseRequest` has returned, up to the return of the callback. -/
def parsed (httpCallback : HttpRequest → HttpResponse → HttpResponse) (conn : PooledConnection)
    (ok : Bool) : PooledConnection :=
  let conn := conn.checked ok
  if conn.context.gotAll then
    let req := conn.context.request
    { conn with
      requests := conn.requests ++ [req]
      handler := .responding (httpCallback req { closeConnection := req.close }) }
  else { conn with handler := .polling }

/-- The call of `appendToBuffer` that comes next. -/
def appendTurn (conn : PooledConnection) (memoryLeft : Bool) : Option Turn :=
  match conn.handler with
  | .appending i _ (string :: _) =>
    some ⟨conn.thread, memoryLeft, .grow i (.writeBytes string 0 string.length)⟩
  | _ => none

end PooledConnection

/-- The arena with the buffers, and the connections. -/
structure PooledServer where
  pool : BufferPool
  connections : List PooledConnection := []

namespace PooledServer

/-- What happens. A connection is named by its place. -/
inductive Action
  /-- A connection is made for the loop of a thread. -/
  | accept (thread : ℕ) (memoryLeft : Bool) (recycled : Region)
  /-- `handleRead`. -/
  | read (c : ℕ) (memoryLeft : Bool) (received : Except ℤ Bytes)
  | parse (c : ℕ)
  /-- `Buffer buf(16384)` in `onRequest`. -/
  | makeBuffer (c : ℕ) (memoryLeft : Bool) (recycled : Region)
  | append (c : ℕ) (memoryLeft : Bool)
  | send (c : ℕ)
  | leave (c : ℕ)
  | destroy (c : ℕ)
  /-- A call of any thread for a buffer that is not one of these. -/
  | other (turn : Turn)

/-- `Buffer(16384)`, whose capacity is not limited. -/
def newBuffer (thread : ℕ) (memoryLeft : Bool) (recycled : Region) : Turn :=
  ⟨thread, memoryLeft, .poolBuffer 16384 (2 ^ 31 - 1) recycled⟩

/-- The pool after a call that returns. An exception passes through the loop, and ends the
program. -/
def call (pool : BufferPool) (turn : Turn) : Option BufferPool :=
  match pool.next PoolConfig.default.sizeClass turn with
  | some (.ok (), pool) => some pool
  | _ => none

/-- A call that returns is a step of the pool. -/
theorem next_of_call {pool pool' : BufferPool} {turn : Turn} (h : call pool turn = some pool') :
    pool.next PoolConfig.default.sizeClass turn = some (.ok (), pool') := by
  rw [call] at h
  split at h
  · next heq =>
    cases h
    exact heq
  · cases h

/-- The place of the buffer that a call is about. -/
def slot : Call → Option ℕ
  | .poolBuffer _ _ _ => none
  | .grow i _ => some i
  | .retrieve i _ => some i
  | .deallocate i => some i

/-- The pool when a connection has retrieved bytes from a buffer, if it does. -/
def retrieve (pool : BufferPool) (conn : PooledConnection) (i : ℕ) : Option ℕ → Option BufferPool
  | none => some pool
  | some len => call pool ⟨conn.thread, true, .retrieve i len⟩

/-- What a connection does, on the pool and on itself. -/
def act (httpCallback : HttpRequest → HttpResponse → HttpResponse) (pool : BufferPool)
    (conn : PooledConnection) : Action → Option (BufferPool × PooledConnection)
  | .read _ memoryLeft received =>
    match conn.handler, pool.readFd PoolConfig.default.sizeClass conn.thread conn.input memoryLeft
        received with
    | .polling, some (.ok (.ok 0), pool) => some (pool, { conn with handler := .closed })
    | .polling, some (.ok (.ok _), pool) =>
      some (pool, { conn with handler := .parsing, reads := conn.reads ++ [delivered received] })
    -- `handleError` only reports
    | .polling, some (.ok (.error _), pool) => some (pool, conn)
    | _, _ => none
  | .parse _ =>
    match conn.handler with
    | .parsing => do
      let buf ← (pool.buffers[conn.input]?).join
      let it ← conn.context.iterate ⟨buf, pool.memory⟩
      let pool ← retrieve pool conn conn.input it.retrieved
      let conn := { conn with context := it.context }
      match it.returns with
      | none => some (pool, conn)
      | some ok => some (pool, conn.parsed httpCallback ok)
    | _ => none
  | .makeBuffer _ memoryLeft recycled =>
    match conn.handler with
    | .responding response => do
      let pool' ← call pool (newBuffer conn.thread memoryLeft recycled)
      some (pool', { conn with
        handler := .appending pool.buffers.length response response.strings })
    | _ => none
  | .append _ memoryLeft =>
    match conn.handler with
    | .appending i response (_ :: strings) => do
      let turn ← conn.appendTurn memoryLeft
      let pool ← call pool turn
      some (pool, { conn with handler := .appending i response strings })
    | _ => none
  | .send _ =>
    match conn.handler with
    | .appending i response [] => do
      let buf ← (pool.buffers[i]?).join
      -- `send` retrieves what it passes on
      let pool' ← retrieve pool conn i (if conn.connected then some buf.readableBytes else none)
      let conn := conn.send (Filled.readable ⟨buf, pool.memory⟩)
      let conn := if response.closeConnection then conn.shutdown else conn
      some (pool', { conn with handler := .leaving i })
    | _ => none
  | .leave _ =>
    match conn.handler with
    | .leaving i => do
      let pool ← call pool ⟨conn.thread, true, .deallocate i⟩
      some (pool, { conn with handler := .polling, context := conn.context.reset })
    | _ => none
  | .destroy _ =>
    match conn.handler with
    | .polling | .closed => do
      let pool ← call pool ⟨conn.thread, true, .deallocate conn.input⟩
      some (pool, { conn with handler := .destroyed })
    | _ => none
  | .accept _ _ _ | .other _ => none

/-- The connection that acts. -/
def Action.connection : Action → Option ℕ
  | .read c _ _ | .parse c | .makeBuffer c _ _ | .append c _ | .send c | .leave c | .destroy c =>
    some c
  | .accept _ _ _ | .other _ => none

/-- One step. -/
def next (httpCallback : HttpRequest → HttpResponse → HttpResponse) (s : PooledServer)
    (a : Action) : Option PooledServer :=
  match a with
  | .accept thread memoryLeft recycled => do
    let pool ← call s.pool (newBuffer thread memoryLeft recycled)
    some ⟨pool, s.connections ++ [{ thread, input := s.pool.buffers.length }]⟩
  | .other turn =>
    if ∀ conn ∈ s.connections, ∀ i ∈ slot turn.call, i ∉ conn.slots then
      (s.pool.next PoolConfig.default.sizeClass turn).map fun p => { s with pool := p.2 }
    else none
  | a => do
    let c ← a.connection
    let conn ← s.connections[c]?
    let (pool, conn) ← act httpCallback s.pool conn a
    some ⟨pool, s.connections.set c conn⟩

/-- The connections of the threads of a server, which begins without any. -/
def machine (httpCallback : HttpRequest → HttpResponse → HttpResponse) (threads : ℕ) :
    Machine PooledServer Action :=
  .ofNext (fun s => ∃ memory, s = ⟨.init PoolConfig.default.sizeClass threads memory, []⟩)
    (next httpCallback)

/-- What an action asks the arena for is served with the right pointer. -/
def ServedRight (s : PooledServer) : Action → Prop
  | .accept thread memoryLeft recycled =>
    BufferPool.ServedRight .default s.pool (newBuffer thread memoryLeft recycled)
  | .read c _ received => ∀ conn ∈ s.connections[c]?,
    ReadServedRight .default s.pool conn.thread conn.input (delivered received).length
  | .makeBuffer c memoryLeft recycled => ∀ conn ∈ s.connections[c]?,
    BufferPool.ServedRight .default s.pool (newBuffer conn.thread memoryLeft recycled)
  | .append c memoryLeft => ∀ conn ∈ s.connections[c]?, ∀ turn ∈ conn.appendTurn memoryLeft,
    BufferPool.ServedRight .default s.pool turn
  | .other turn => BufferPool.ServedRight .default s.pool turn
  | .parse _ | .send _ | .leave _ | .destroy _ => True

instance (s : PooledServer) (a : Action) : Decidable (ServedRight s a) :=
  match a with
  | .accept _ _ _ => inferInstanceAs (Decidable (BufferPool.ServedRight _ _ _))
  | .read _ _ _ => inferInstanceAs (Decidable (∀ conn ∈ _, ReadServedRight _ _ _ _ _))
  | .makeBuffer _ _ _ => inferInstanceAs (Decidable (∀ conn ∈ _, BufferPool.ServedRight _ _ _))
  | .append _ _ =>
    inferInstanceAs (Decidable (∀ conn ∈ _, ∀ turn ∈ _, BufferPool.ServedRight _ _ _))
  | .other _ => inferInstanceAs (Decidable (BufferPool.ServedRight _ _ _))
  | .parse _ | .send _ | .leave _ | .destroy _ => inferInstanceAs (Decidable True)

end PooledServer

end DuoDuo.Http
