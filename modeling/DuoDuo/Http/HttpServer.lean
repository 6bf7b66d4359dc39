import DuoDuo.Http.HttpContext

/-!
# Serving the requests of one connection

`HttpServer::onMessage` and `HttpServer::onRequest` on the part of a connection
that they use: the parsing context, the input buffer, and the bytes handed to
`TcpConnection::send`. The user's callback is an arbitrary function from the
request and the prepared response to the response.
-/

namespace DuoDuo.Http

/-- `HttpResponse`. -/
structure HttpResponse where
  /-- `statusCode_`. -/
  statusCode : ℕ := 0
  /-- `statusMessage_`. -/
  statusMessage : Bytes := []
  /-- `closeConnection_`. -/
  closeConnection : Bool
  /-- `headers_`, in the order of the map. -/
  headers : List (Bytes × Bytes) := []
  /-- `body_`. -/
  body : Bytes := []

/-- The bytes that `HttpResponse::appendToBuffer` writes. -/
def HttpResponse.appendToBuffer (resp : HttpResponse) : Bytes :=
  ascii "HTTP/1.1 " ++ ascii (toString resp.statusCode) ++ ascii " " ++
  resp.statusMessage ++ kCRLF ++
  (if resp.closeConnection then ascii "Connection: close" ++ kCRLF
    else ascii "Content-Length: " ++ ascii (toString resp.body.length) ++ kCRLF ++
      ascii "Connection: Keep-Alive" ++ kCRLF) ++
  resp.headers.flatMap (fun header => header.1 ++ ascii ": " ++ header.2 ++ kCRLF) ++
  kCRLF ++ resp.body

/-- `defaultHttpCallback`. -/
def defaultHttpCallback (_ : HttpRequest) (resp : HttpResponse) : HttpResponse :=
  { resp with statusCode := 404, statusMessage := ascii "Not Found", closeConnection := true }

/-- A connection of the server. -/
structure HttpConnection where
  /-- The context attached to the connection. -/
  context : HttpContext := {}
  /-- The readable bytes of `inputBuffer_`. -/
  inputBuffer : Bytes := []
  /-- `state_` is `kConnected`. -/
  connected : Bool := true
  /-- The bytes passed on by `TcpConnection::send`. -/
  sent : Bytes := []
  /-- The requests for which `onRequest` has been called, in order. -/
  requests : List HttpRequest := []

namespace HttpConnection

/-- `TcpConnection::send`. -/
def send (conn : HttpConnection) (data : Bytes) : HttpConnection :=
  if conn.connected then { conn with sent := conn.sent ++ data } else conn

/-- `TcpConnection::shutdown`. -/
def shutdown (conn : HttpConnection) : HttpConnection := { conn with connected := false }

end HttpConnection

/-- The decision of `onRequest` to close the connection after the response. -/
def HttpRequest.close (req : HttpRequest) : Bool :=
  let connection := req.getHeader (ascii "Connection")
  connection = ascii "close" ||
    (req.version = .kHttp10 && connection ≠ ascii "Keep-Alive")

/-- `HttpServer::onRequest`. -/
def onRequest (httpCallback : HttpRequest → HttpResponse → HttpResponse) (conn : HttpConnection)
    (req : HttpRequest) : HttpConnection :=
  let response := httpCallback req { closeConnection := req.close }
  let conn := { conn with requests := conn.requests ++ [req] }.send response.appendToBuffer
  if response.closeConnection then conn.shutdown else conn

/-- The answer to a malformed request line. -/
def badRequest : Bytes := ascii "HTTP/1.1 400 Bad Request" ++ kCRLF ++ kCRLF

/-- `HttpServer::onMessage`. -/
def onMessage (httpCallback : HttpRequest → HttpResponse → HttpResponse)
    (conn : HttpConnection) : Option HttpConnection := do
  let parsed ← conn.context.parseRequest conn.inputBuffer
  let conn := { conn with context := parsed.context, inputBuffer := parsed.rest }
  let conn := if parsed.ok then conn else (conn.send badRequest).shutdown
  if conn.context.gotAll then
    let conn := onRequest httpCallback conn conn.context.request
    return { conn with context := conn.context.reset }
  else
    return conn

/-- One read: the bytes are appended to the input buffer, and `onMessage` is called. -/
def receive (httpCallback : HttpRequest → HttpResponse → HttpResponse) (conn : HttpConnection)
    (data : Bytes) : Option HttpConnection :=
  onMessage httpCallback { conn with inputBuffer := conn.inputBuffer ++ data }

end DuoDuo.Http
