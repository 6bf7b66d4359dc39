import DuoDuo.Http.Incremental
import DuoDuo.Buffer.ByteQueue

/-!
# Parsing in the buffer

`parseRequest` works on pointers into the buffer, and retrieves a line when it has been
processed. One iteration of its loop, for a buffer and its memory, fails in no assertion and
does to the bytes that the buffer shows what the loop over these bytes does.
-/

namespace DuoDuo.Buffer.Filled

open Library Http

variable {s : Filled}

/-- `beginWrite`. -/
def beginWrite (s : Filled) : Addr := s.buf.tmpBuf.add s.buf.writerIndex

/-- `findCRLF`, as a pointer. -/
def findCRLF (s : Filled) : Option Addr := (Http.findCRLF s.readable).map s.buf.peek.add

/-- The characters from `peek()` up to a pointer. -/
def upTo (s : Filled) (stop : Addr) : Bytes :=
  BlockMemory.read s.memory s.buf.peek (stop.2 - s.buf.peek.2)

/-- What `retrieveUntil` hands to `retrieve`; `none` is the failure of an assertion. -/
def lengthUntil (s : Filled) (stop : Addr) : Option ℕ :=
  if s.buf.peek.2 ≤ stop.2 ∧ stop.2 ≤ s.beginWrite.2 then some (stop.2 - s.buf.peek.2) else none

theorem length_readable (s : Filled) : s.readable.length = s.buf.readableBytes :=
  BlockMemory.length_read _ _ _

/-- The line before a delimiter, and the length to be retrieved behind it. -/
theorem line_of_findCRLF {crlf : ℕ} (h : Http.findCRLF s.readable = some crlf) :
    s.findCRLF = some (s.buf.peek.add crlf) ∧
      s.upTo (s.buf.peek.add crlf) = s.readable.take crlf ∧
      s.lengthUntil ((s.buf.peek.add crlf).add 2) = some (crlf + 2) ∧
      crlf + 2 ≤ s.buf.readableBytes := by
  have hle : crlf + 2 ≤ s.buf.readableBytes := by
    rw [← s.length_readable]
    exact HttpContext.findCRLF_le h
  refine ⟨?_, ?_, ?_, hle⟩
  · rw [findCRLF, h]
    rfl
  · rw [upTo, Addr.add, Nat.add_sub_cancel_left, readable, BlockMemory.take_read _ _ (by omega)]
  · have hstop : ((s.buf.peek.add crlf).add 2).2 = s.buf.peek.2 + (crlf + 2) := by
      dsimp only [Addr.add]
      omega
    have hend : s.buf.peek.2 + (crlf + 2) ≤ s.beginWrite.2 := by
      rw [PoolByteBuf.readableBytes] at hle
      dsimp only [PoolByteBuf.peek, beginWrite, Addr.add]
      omega
    rw [lengthUntil, hstop, if_pos ⟨Nat.le_add_right _ _, hend⟩, Nat.add_sub_cancel_left]

end DuoDuo.Buffer.Filled

namespace DuoDuo.Http.HttpContext

open Buffer

/-- What an iteration of the loop of `parseRequest` leaves. -/
structure Iteration where
  context : HttpContext
  /-- The number of bytes that are retrieved. -/
  retrieved : Option ℕ
  /-- The value of `ok`, when the loop ends. -/
  returns : Option Bool

/-- One iteration of the loop of `parseRequest`; `none` is the failure of an assertion. -/
def iterate (ctx : HttpContext) (s : Filled) : Option Iteration :=
  match ctx.state, s.findCRLF with
  | .kExpectRequestLine, some crlf =>
    let (request, ok) := ctx.request.processRequestLine (s.upTo crlf)
    if ok then
      (s.lengthUntil (crlf.add 2)).map fun len =>
        ⟨{ state := .kExpectHeaders, request }, some len, none⟩
    else some ⟨{ ctx with request }, none, some false⟩
  | .kExpectRequestLine, none => some ⟨ctx, none, some true⟩
  | .kExpectHeaders, some crlf =>
    let line := s.upTo crlf
    let colon := line.idxOf 58
    (s.lengthUntil (crlf.add 2)).map fun len =>
      if colon ≠ line.length then
        ⟨{ ctx with request := ctx.request.addHeader line colon }, some len, none⟩
      else ⟨{ ctx with state := .kGotAll }, some len, some true⟩
  | .kExpectHeaders, none => some ⟨ctx, none, some true⟩
  | .kExpectBody, _ => some ⟨ctx, none, none⟩
  | .kGotAll, _ => some ⟨ctx, none, none⟩

/-- The bytes that an iteration leaves. -/
def Iteration.rest (it : Iteration) (bytes : Bytes) : Bytes := bytes.drop (it.retrieved.getD 0)

/-- An iteration does what the loop over the bytes does next. -/
structure Iteration.Follows (it : Iteration) (ctx : HttpContext) (bytes : Bytes) : Prop where
  retrieved : ∀ n ∈ it.retrieved, n ≤ bytes.length
  goesOn : it.returns = none → it.context.Reading ∧
    ∀ p, Parses it.context (it.rest bytes) p → Parses ctx bytes p
  returns : ∀ ok ∈ it.returns, Parses ctx bytes ⟨ok, it.context, it.rest bytes⟩

/-- While a request is being read, an iteration fails in no assertion, and does what the loop
over the bytes that the buffer shows does next. -/
theorem Reading.iterate {ctx : HttpContext} (h : ctx.Reading) (s : Filled) :
    ∃ it, ctx.iterate s = some it ∧ it.Follows ctx s.readable := by
  cases hcrlf : Http.findCRLF s.readable with
  | none =>
    have hnone : s.findCRLF = none := by
      rw [Filled.findCRLF, hcrlf]
      rfl
    refine ⟨⟨ctx, none, some true⟩, ?_, nofun, nofun, ?_⟩
    · rcases h with hstate | hstate <;> rw [HttpContext.iterate, hstate, hnone]
    · rintro _ ⟨⟩
      exact .wait h hcrlf
  | some crlf =>
    obtain ⟨hfind, hline, hlength, hle⟩ := Filled.line_of_findCRLF hcrlf
    have hbound : ∀ n ∈ some (crlf + 2), n ≤ s.readable.length := by
      rintro _ ⟨⟩
      rw [s.length_readable]
      exact hle
    rcases h with hstate | hstate
    · cases hprocess : ctx.request.processRequestLine (s.readable.take crlf) with
      | mk request ok =>
        cases ok with
        | false =>
          refine ⟨⟨{ ctx with request }, none, some false⟩, ?_, nofun, nofun, ?_⟩
          · rw [HttpContext.iterate, hstate, hfind]
            simp only [hline, hprocess]
            rfl
          · rintro _ ⟨⟩
            exact .invalid hstate hcrlf hprocess
        | true =>
          refine ⟨⟨{ state := .kExpectHeaders, request }, some (crlf + 2), none⟩, ?_, hbound,
            fun _ => ⟨.inr rfl, fun p hp => .requestLine hstate hcrlf hprocess hp⟩, nofun⟩
          rw [HttpContext.iterate, hstate, hfind]
          simp only [hline, hprocess, hlength]
          rfl
    · by_cases hcolon : (s.readable.take crlf).idxOf 58 = (s.readable.take crlf).length
      · refine ⟨⟨{ ctx with state := .kGotAll }, some (crlf + 2), some true⟩, ?_, hbound, nofun, ?_⟩
        · rw [HttpContext.iterate, hstate, hfind]
          simp only [hline, hlength, hcolon, ne_eq, not_true, if_false, Option.map_some]
        · rintro _ ⟨⟩
          exact .last hstate hcrlf hcolon
      · refine ⟨⟨{ ctx with
            request := ctx.request.addHeader (s.readable.take crlf)
              ((s.readable.take crlf).idxOf 58) }, some (crlf + 2), none⟩, ?_, hbound,
          fun _ => ⟨.inr hstate, fun p hp => .header hstate hcrlf hcolon hp⟩, nofun⟩
        rw [HttpContext.iterate, hstate, hfind]
        simp only [hline, hlength, ne_eq, hcolon, not_false_eq_true, if_true, Option.map_some]

end DuoDuo.Http.HttpContext
