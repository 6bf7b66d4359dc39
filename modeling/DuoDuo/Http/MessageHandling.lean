import DuoDuo.Http.HeaderEnd
import DuoDuo.Http.ParserCalls

/-!
# What one call of `onMessage` does

`onMessage` parses what is in the buffer, answers a malformed line, and answers the request
if one is complete. Each part changes the connection in its own way, and so the state after
a call is known once the result of `parseRequest` is.
-/

namespace DuoDuo.Http

open Library Library.Machine

variable {httpCallback : HttpRequest → HttpResponse → HttpResponse}

/-- What is left of `onMessage` when the callback has returned, but for the context. -/
def HttpConnection.answer (conn : HttpConnection) (response : HttpResponse) : HttpConnection :=
  let conn := conn.send response.appendToBuffer
  if response.closeConnection then conn.shutdown else conn

/-- The connection when `parseRequest` has returned, with the answer to a malformed line. -/
def HttpConnection.checked (conn : HttpConnection) (ok : Bool) : HttpConnection :=
  if ok then conn else (conn.send badRequest).shutdown

theorem HttpConnection.checked_context (conn : HttpConnection) (ok : Bool) :
    (conn.checked ok).context = conn.context := by
  simp only [checked, send, shutdown]
  split
  · rfl
  · split <;> rfl

/-- The connection when a request has been answered. -/
def HttpConnection.answered (httpCallback : HttpRequest → HttpResponse → HttpResponse)
    (conn : HttpConnection) : HttpConnection :=
  let req := conn.context.request
  { HttpConnection.answer { conn with requests := conn.requests ++ [req] }
      (httpCallback req { closeConnection := req.close }) with context := conn.context.reset }

/-- `onMessage` when the result of `parseRequest` is known. -/
theorem onMessage_of_parses {conn : HttpConnection} {ok : Bool} {context : HttpContext}
    {rest : Bytes} (h : HttpContext.Parses conn.context conn.inputBuffer ⟨ok, context, rest⟩) :
    onMessage httpCallback conn =
      let conn := HttpConnection.checked { conn with context, inputBuffer := rest } ok
      some (if context.gotAll then conn.answered httpCallback else conn) := by
  have hcontext : (HttpConnection.checked { conn with context, inputBuffer := rest } ok).context =
      context := HttpConnection.checked_context _ ok
  simp only [onMessage, h.parseRequest_eq, Option.bind_eq_bind, Option.bind_some]
  rw [← HttpConnection.checked]
  generalize HttpConnection.checked _ ok = c at *
  subst hcontext
  cases hgot : c.context.gotAll with
  | false => rfl
  | true =>
    have hframe := (onRequest_frame httpCallback c c.context.request).1
    rw [if_pos rfl, if_pos rfl, hframe]
    rfl

/-- A request that is not complete is being read. -/
theorem HttpContext.Parses.reading_or {ctx : HttpContext} {buf : Bytes} {p : Parsed}
    (h : Parses ctx buf p) : p.context.gotAll = true ∨ p.context.Reading := by
  induction h with
  | wait hreading _ => exact .inr hreading
  | invalid hstate _ _ => exact .inr (.inl hstate)
  | requestLine _ _ _ _ ih => exact ih
  | header _ _ _ _ ih => exact ih
  | last _ _ _ => exact .inl rfl

end DuoDuo.Http
