import DuoDuo.Library.Search
import Mathlib.Data.List.DropRight
import Mathlib.Logic.Function.Basic
import Mathlib.Tactic.Common

/-!
# The HTTP request parser

`HttpRequest` and `HttpContext`, with the parsing loop of `parseRequest` over the
readable bytes of the input buffer. Character pointers into the buffer become
positions in a list. The loop has no bound in the source, so it runs here with
fuel, and `none` stands for a call that has not returned.
-/

namespace DuoDuo.Http

open Library

/-- A string of characters. -/
abbrev Bytes := List UInt8

/-- The characters of an ASCII text. -/
def ascii (s : String) : Bytes := s.toList.map Char.toUInt8

/-- `Buffer::kCRLF`. -/
def kCRLF : Bytes := [13, 10]

/-- `Buffer::findCRLF`, as a position. -/
def findCRLF (buf : Bytes) : Option ℕ := search kCRLF buf

/-- `isspace` in the C locale. -/
def isspace (c : UInt8) : Bool := c = 32 || (9 ≤ c && c ≤ 13)

/-- `HttpRequest::Method`. -/
inductive Method
  | kInvalid
  | kGet
  | kPost
  | kHead
  | kPut
  | kDelete
  deriving DecidableEq, Repr

/-- `HttpRequest::Version`. -/
inductive Version
  | kUnknown
  | kHttp10
  | kHttp11
  deriving DecidableEq, Repr

/-- A request under construction. -/
structure HttpRequest where
  /-- `method_`. -/
  method : Method := .kInvalid
  /-- `version_`. -/
  version : Version := .kUnknown
  /-- `path_`. -/
  path : Bytes := []
  /-- `query_`, with its question mark. -/
  query : Bytes := []
  /-- `headers_`. -/
  headers : Bytes → Option Bytes := fun _ => none
  /-- The assertion of `setMethod` has failed on this connection. -/
  assertionFailed : Bool := false

namespace HttpRequest

/-- The method named by a token, as `setMethod` compares it. -/
def methodOf (m : Bytes) : Method :=
  if m = ascii "GET" then .kGet
  else if m = ascii "POST" then .kPost
  else if m = ascii "HEAD" then .kHead
  else if m = ascii "PUT" then .kPut
  else if m = ascii "DELETE" then .kDelete
  else .kInvalid

/-- `HttpRequest::setMethod`, returning whether the method is known. -/
def setMethod (r : HttpRequest) (m : Bytes) : HttpRequest × Bool :=
  ({ r with
      method := methodOf m
      assertionFailed := r.assertionFailed || r.method ≠ .kInvalid },
    methodOf m ≠ .kInvalid)

/-- The value of a header line, without the white space around it. -/
def trim (value : Bytes) : Bytes := (value.dropWhile isspace).rdropWhile isspace

/-- `HttpRequest::addHeader`, for the line from `start` to `end` with a colon at `colon`. -/
def addHeader (r : HttpRequest) (line : Bytes) (colon : ℕ) : HttpRequest :=
  { r with
    headers := Function.update r.headers (line.take colon) (some (trim (line.drop (colon + 1)))) }

/-- `HttpRequest::getHeader`. -/
def getHeader (r : HttpRequest) (field : Bytes) : Bytes := (r.headers field).getD []

/-- `setPath` and `setQuery`, as `processRequestLine` calls them on the target. -/
def setTarget (r : HttpRequest) (target : Bytes) : HttpRequest :=
  let question := target.idxOf 63
  if question ≠ target.length then
    { r with path := target.take question, query := target.drop question }
  else { r with path := target }

/-- The end of `processRequestLine`, which compares and sets the version. -/
def setVersion (r : HttpRequest) (version : Bytes) : HttpRequest × Bool :=
  if version.length = 8 ∧ version.take 7 = ascii "HTTP/1." then
    if version.getLast? = some 49 then ({ r with version := .kHttp11 }, true)
    else if version.getLast? = some 48 then ({ r with version := .kHttp10 }, true)
    else (r, false)
  else (r, false)

/-- `HttpContext::processRequestLine`, on the request of the context. -/
def processRequestLine (r : HttpRequest) (line : Bytes) : HttpRequest × Bool :=
  let space := line.idxOf 32
  if space ≠ line.length then
    let (r, known) := r.setMethod (line.take space)
    if known then
      let start := line.drop (space + 1)
      let space := start.idxOf 32
      if space ≠ start.length then
        (r.setTarget (start.take space)).setVersion (start.drop (space + 1))
      else (r, false)
    else (r, false)
  else (r, false)

end HttpRequest

/-- `HttpContext::HttpRequestParseState`. -/
inductive HttpRequestParseState
  | kExpectRequestLine
  | kExpectHeaders
  | kExpectBody
  | kGotAll
  deriving DecidableEq, Repr

/-- The parsing state of a connection. -/
structure HttpContext where
  /-- `state_`. -/
  state : HttpRequestParseState := .kExpectRequestLine
  /-- `request_`. -/
  request : HttpRequest := {}

namespace HttpContext

/-- `HttpContext::gotAll`. -/
def gotAll (ctx : HttpContext) : Bool := ctx.state = .kGotAll

/-- `HttpContext::reset`. The record of a failed assertion is kept. -/
def reset (ctx : HttpContext) : HttpContext :=
  { state := .kExpectRequestLine
    request := { assertionFailed := ctx.request.assertionFailed } }

/-- The result of `parseRequest`, the context that it leaves, and the bytes that
remain in the buffer. -/
structure Parsed where
  ok : Bool
  context : HttpContext
  rest : Bytes

/-- The loop of `parseRequest`. -/
def parseLoop : ℕ → HttpContext → Bytes → Option Parsed
  | 0, _, _ => none
  | fuel + 1, ctx, buf =>
    match ctx.state, findCRLF buf with
    | .kExpectRequestLine, some crlf =>
      let (request, ok) := ctx.request.processRequestLine (buf.take crlf)
      if ok then parseLoop fuel { state := .kExpectHeaders, request } (buf.drop (crlf + 2))
      else some ⟨false, { ctx with request }, buf⟩
    | .kExpectRequestLine, none => some ⟨true, ctx, buf⟩
    | .kExpectHeaders, some crlf =>
      let line := buf.take crlf
      let colon := line.idxOf 58
      if colon ≠ line.length then
        parseLoop fuel { ctx with request := ctx.request.addHeader line colon }
          (buf.drop (crlf + 2))
      else some ⟨true, { ctx with state := .kGotAll }, buf.drop (crlf + 2)⟩
    | .kExpectHeaders, none => some ⟨true, ctx, buf⟩
    -- neither state has a branch that stops the loop
    | .kExpectBody, _ => parseLoop fuel ctx buf
    | .kGotAll, _ => parseLoop fuel ctx buf

/-- `HttpContext::parseRequest`. Every iteration that goes on consumes a line, so the
length of the buffer bounds the iterations of a call that returns. -/
def parseRequest (ctx : HttpContext) (buf : Bytes) : Option Parsed :=
  parseLoop (buf.length + 1) ctx buf

end HttpContext

end DuoDuo.Http
