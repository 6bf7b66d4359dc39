import DuoDuo.Http.Incremental
import DuoDuo.Http.Pipelining
import DuoDuo.Http.RequestLine
import DuoDuo.Library.Machine

/-!
# Calls of the parser on one context

A context is parsed, reset and parsed again for as long as its connection lives. The
loop of `parseRequest` has no branch for a finished request, so it returns exactly when
the context does not hold one. A request line that is rejected after its method has been
stored stays in the buffer, so the next read makes `setMethod` fail its assertion.
-/

namespace DuoDuo.Http

open Library

namespace HttpContext

/-- A result of the loop, with whatever fuel, has a derivation. -/
theorem Parses.of_parseLoop {fuel : ℕ} {ctx : HttpContext} {buf : Bytes} {p : Parsed}
    (h : parseLoop fuel ctx buf = some p) : Parses ctx buf p := by
  induction fuel generalizing ctx buf with
  | zero => simp [parseLoop] at h
  | succ fuel ih =>
    rw [parseLoop] at h
    cases hstate : ctx.state with
    | kExpectRequestLine =>
      cases hcrlf : findCRLF buf with
      | none =>
        simp only [hstate, hcrlf] at h
        exact Option.some.inj h ▸ .wait (.inl hstate) hcrlf
      | some crlf =>
        simp only [hstate, hcrlf] at h
        cases hprocess : ctx.request.processRequestLine (buf.take crlf) with
        | mk r ok =>
          rw [hprocess] at h
          cases ok with
          | false => exact Option.some.inj h ▸ hstate ▸ .invalid hstate hcrlf hprocess
          | true => exact .requestLine hstate hcrlf hprocess (ih h)
    | kExpectHeaders =>
      cases hcrlf : findCRLF buf with
      | none =>
        simp only [hstate, hcrlf] at h
        exact Option.some.inj h ▸ .wait (.inr hstate) hcrlf
      | some crlf =>
        simp only [hstate, hcrlf] at h
        split at h
        · next hcolon => exact .header hstate hcrlf hcolon (ih (hstate ▸ h))
        · next hcolon =>
          exact Option.some.inj h ▸ .last hstate hcrlf (not_not.mp hcolon)
    | kExpectBody =>
      simp only [hstate] at h
      have hreading := (ih h).reading
      simp [Reading, hstate] at hreading
    | kGotAll =>
      simp only [hstate] at h
      have hreading := (ih h).reading
      simp [Reading, hstate] at hreading

/-- A call that returns leaves the context in a state in which it does not expect a body. -/
theorem Parses.not_body {ctx : HttpContext} {buf : Bytes}
    {p : Parsed} (h : Parses ctx buf p) : p.context.state ≠ .kExpectBody := by
  induction h with
  | wait hreading _ => rcases hreading with hstate | hstate <;> simp [hstate]
  | invalid hstate _ _ => simp [hstate]
  | requestLine _ _ _ _ ih => exact ih
  | header _ _ _ _ ih => exact ih
  | last => simp

/-- The loop returns exactly when a request is being read. -/
theorem exists_parseLoop_iff {ctx : HttpContext} (buf : Bytes) :
    (∃ fuel p, parseLoop fuel ctx buf = some p) ↔ ctx.Reading := by
  constructor
  · rintro ⟨fuel, p, h⟩
    exact (Parses.of_parseLoop h).reading
  · intro h
    obtain ⟨p, hp, -⟩ := exists_parses_of_reading h (Nat.lt_succ_self buf.length)
    exact ⟨_, p, hp⟩

end HttpContext

/-- A context and its buffer between two calls. -/
structure ParserUse where
  /-- The context. -/
  context : HttpContext := {}
  /-- The readable bytes of the buffer. -/
  buffer : Bytes := []
  /-- A call of `parseRequest` has been made that never returns. -/
  hung : Bool := false

/-- What the owner of a context does with it. -/
inductive ParserCall
  | append (data : Bytes)
  | parseRequest
  | reset

namespace ParserUse

open HttpContext

/-- One call. No call follows one that never returns. -/
inductive Step : ParserUse → ParserCall → ParserUse → Prop
  | append {u : ParserUse} (data : Bytes) : u.hung = false →
      Step u (.append data) { u with buffer := u.buffer ++ data }
  | reset {u : ParserUse} : u.hung = false → Step u .reset { u with context := u.context.reset }
  | returns {u : ParserUse} {fuel : ℕ} {p : Parsed} : u.hung = false →
      parseLoop fuel u.context u.buffer = some p →
      Step u .parseRequest { u with context := p.context, buffer := p.rest }
  | hangs {u : ParserUse} : u.hung = false →
      (∀ fuel, parseLoop fuel u.context u.buffer = none) →
      Step u .parseRequest { u with hung := true }

/-- All orders of calls on a new context. -/
def machine : Machine ParserUse ParserCall where
  init u := u = {}
  step := Step

/-- All calls have returned, and the context does not expect a body. -/
structure Inv (u : ParserUse) : Prop where
  returned : u.hung = false
  body : u.context.state ≠ .kExpectBody

/-- The call is not a call of `parseRequest` on a finished request. -/
def ParsesUnfinished (u : ParserUse) (call : ParserCall) : Prop :=
  call = .parseRequest → u.context.gotAll = false

/-- A parser that is not finished is reading. -/
theorem Inv.reading_iff {u : ParserUse} (h : u.Inv) :
    u.context.Reading ↔ u.context.gotAll = false := by
  have hbody := h.body
  cases hstate : u.context.state <;> simp_all [Reading, gotAll]

/-- Calls that do not parse a finished request return. -/
theorem Inv.step {u v : ParserUse} {call : ParserCall} (h : u.Inv)
    (hcall : u.ParsesUnfinished call) (hstep : Step u call v) : v.Inv := by
  cases hstep with
  | append data hrun => exact ⟨hrun, h.body⟩
  | reset hrun => exact ⟨hrun, by simp [HttpContext.reset]⟩
  | returns hrun hloop => exact ⟨hrun, (Parses.of_parseLoop hloop).not_body⟩
  | hangs hrun hnone =>
    obtain ⟨fuel, p, hp⟩ := (exists_parseLoop_iff u.buffer).mpr (h.reading_iff.mpr (hcall rfl))
    simp [hnone fuel] at hp

/-- A call that parses a finished request never returns. -/
theorem Inv.hangs {u v : ParserUse} {call : ParserCall} (h : u.Inv)
    (hcall : ¬ u.ParsesUnfinished call) (hstep : Step u call v) : v.hung ≠ false := by
  rw [ParsesUnfinished, Classical.not_imp] at hcall
  obtain ⟨rfl, hfinished⟩ := hcall
  cases hstep with
  | returns hrun hloop =>
    exact absurd (h.reading_iff.mp ((exists_parseLoop_iff _).mp ⟨_, _, hloop⟩)) hfinished
  | hangs => simp

/-- In every order of calls on a new context all calls return exactly when `parseRequest`
is never called on a finished request, between the call that finishes it and `reset`. -/
theorem allReturn_iff_parsesUnfinished {u : ParserUse} {trace : List (ParserUse × ParserCall)}
    (h : machine.Run {} trace u) :
    (∀ v ∈ Machine.visited trace u, v.hung = false) ↔
      ∀ q ∈ trace, q.1.ParsesUnfinished q.2 :=
  h.forall_visited_iff (C := ParsesUnfinished) (I := Inv) (fun _ hI => hI.returned)
    (fun _ _ _ hI hC hstep => hI.step hC hstep) (fun _ _ _ hI hC hstep => hI.hangs hC hstep)
    ⟨rfl, by simp⟩

/-- A context that holds the finished request `GET / HTTP/1.1`. -/
def finished : ParserUse where
  context := {
    state := .kGotAll
    request := { method := .kGet, version := .kHttp11, path := ascii "/" } }

/-- The calls that finish that request. -/
theorem finished_run : machine.Run {}
    [({}, .append (ascii "GET / HTTP/1.1" ++ kCRLF ++ kCRLF)),
      ({ buffer := ascii "GET / HTTP/1.1" ++ kCRLF ++ kCRLF }, .parseRequest)] finished := by
  have hloop : parseLoop 3 {} (ascii "GET / HTTP/1.1" ++ kCRLF ++ kCRLF) =
      some ⟨true, finished.context, []⟩ := rfl
  exact .cons (.append _ rfl) (.cons (.returns rfl hloop) (.nil _))

/-- After `reset` the context can be parsed again. -/
theorem allReturn_iff_parsesUnfinished_reset :
    machine.Run finished [(finished, .reset), ({}, .parseRequest)] {} ∧
      ∀ v ∈ Machine.visited
        [(({} : ParserUse), .append (ascii "GET / HTTP/1.1" ++ kCRLF ++ kCRLF)),
          ({ buffer := ascii "GET / HTTP/1.1" ++ kCRLF ++ kCRLF }, .parseRequest),
          (finished, .reset), ({}, ParserCall.parseRequest)] ({} : ParserUse), v.hung = false := by
  have hloop : parseLoop 1 {} [] = some ⟨true, {}, []⟩ := rfl
  have hrest : machine.Run finished [(finished, .reset), ({}, .parseRequest)] {} :=
    .cons (.reset rfl) (.cons (.returns rfl hloop) (.nil _))
  refine ⟨hrest, (allReturn_iff_parsesUnfinished (finished_run.append hrest)).mpr ?_⟩
  simp [ParsesUnfinished, gotAll]

/-- Without it `parseRequest` never returns. -/
theorem not_allReturn : ¬ ∀ (trace : List (ParserUse × ParserCall)) (u : ParserUse),
    machine.Run {} trace u → ∀ v ∈ Machine.visited trace u, v.hung = false := by
  intro hall
  have hnone : ∀ fuel, parseLoop fuel finished.context finished.buffer = none := by
    intro fuel
    by_contra hsome
    obtain ⟨p, hp⟩ := Option.ne_none_iff_exists'.mp hsome
    exact absurd (Parses.of_parseLoop hp).reading (by simp [Reading, finished])
  have hrun := finished_run.append (.cons (.hangs rfl hnone) (.nil _))
  exact absurd (hall _ _ hrun _ (List.mem_append_right _ (List.mem_singleton.mpr rfl))) (by decide)

end ParserUse

namespace HttpContext

/-- Header lines leave the method and the assertion of `setMethod` alone. -/
theorem Parses.headers_frame {ctx : HttpContext} {buf : Bytes} {p : Parsed}
    (h : Parses ctx buf p) (hstate : ctx.state = .kExpectHeaders) :
    p.context.state ≠ .kExpectRequestLine ∧
      p.context.request.assertionFailed = ctx.request.assertionFailed := by
  induction h with
  | wait => exact ⟨by simp [hstate], rfl⟩
  | invalid hstate' => simp [hstate] at hstate'
  | requestLine hstate' => simp [hstate] at hstate'
  | header _ _ _ _ ih => exact ih hstate
  | last => exact ⟨by simp, rfl⟩

/-- A call for which a complete request line has arrived goes on to the headers, or
rejects the line and leaves it in the buffer. -/
theorem Parses.requestLine_frame {ctx : HttpContext} {buf : Bytes} {p : Parsed} {crlf : ℕ}
    (h : Parses ctx buf p) (hstate : ctx.state = .kExpectRequestLine)
    (hcrlf : findCRLF buf = some crlf) :
    p.context.request.assertionFailed =
        (ctx.request.processRequestLine (buf.take crlf)).1.assertionFailed ∧
      ((ctx.request.processRequestLine (buf.take crlf)).2 = true ∧
          p.context.state ≠ .kExpectRequestLine ∨
        (ctx.request.processRequestLine (buf.take crlf)).2 = false ∧
          p.context = { ctx with request := (ctx.request.processRequestLine (buf.take crlf)).1 } ∧
          p.rest = buf) := by
  cases h with
  | wait _ hnone => simp [hcrlf] at hnone
  | invalid _ hcrlf' hprocess =>
    obtain rfl := Option.some.inj (hcrlf.symm.trans hcrlf')
    rw [hprocess]
    exact ⟨rfl, .inr ⟨rfl, rfl, rfl⟩⟩
  | requestLine _ hcrlf' hprocess hrest =>
    obtain rfl := Option.some.inj (hcrlf.symm.trans hcrlf')
    obtain ⟨hnot, hflag⟩ := hrest.headers_frame rfl
    rw [hprocess]
    exact ⟨hflag, .inl ⟨rfl, hnot⟩⟩
  | header hstate' => simp [hstate] at hstate'
  | last hstate' => simp [hstate] at hstate'

/-- A call that returns leaves a request being read, or a finished one. -/
theorem Parses.reading_or_gotAll {ctx : HttpContext} {buf : Bytes} {p : Parsed}
    (h : Parses ctx buf p) : p.context.Reading ∨ p.context.gotAll = true := by
  have hbody := h.not_body
  cases hstate : p.context.state <;> simp_all [Reading, gotAll]

end HttpContext

namespace HttpConnection

open HttpContext

variable (httpCallback : HttpRequest → HttpResponse → HttpResponse)

/-- All sequences of reads on a new connection. -/
def machine : Machine HttpConnection Bytes :=
  .ofNext (· = {}) (receive httpCallback)

/-- A read is one call of the parser, and a reset if it finished a request. -/
theorem receive_spec {conn : HttpConnection} (hreading : conn.context.Reading) (data : Bytes) :
    ∃ p conn', Parses conn.context (conn.inputBuffer ++ data) p ∧
      receive httpCallback conn data = some conn' ∧
      conn'.context = (if p.context.gotAll then p.context.reset else p.context) ∧
      conn'.inputBuffer = p.rest := by
  obtain ⟨p, hloop, hp⟩ :=
    exists_parses_of_reading hreading (Nat.lt_succ_self (conn.inputBuffer ++ data).length)
  have hparse : conn.context.parseRequest (conn.inputBuffer ++ data) = some p := hloop
  refine ⟨p, ?_⟩
  simp only [receive, onMessage, hparse, Option.bind_eq_bind, Option.bind_some]
  set answered : HttpConnection :=
    if p.ok then { conn with context := p.context, inputBuffer := p.rest }
    else (({ conn with context := p.context, inputBuffer := p.rest } : HttpConnection).send
      badRequest).shutdown with hanswered
  have hcontext : answered.context = p.context := by
    rw [hanswered]
    split
    · rfl
    · simp only [send, shutdown]
      split <;> rfl
  have hbuffer : answered.inputBuffer = p.rest := by
    rw [hanswered]
    split
    · rfl
    · simp only [send, shutdown]
      split <;> rfl
  obtain ⟨hcontext', hbuffer', -⟩ :=
    onRequest_frame httpCallback answered answered.context.request
  by_cases hgot : p.context.gotAll = true
  · rw [hcontext, if_pos hgot, if_pos hgot]
    refine ⟨_, hp, rfl, ?_, ?_⟩
    · rw [← hcontext, hcontext']
    · rw [← hbuffer, ← hcontext]
      exact hbuffer'
  · rw [hcontext, if_neg hgot, if_neg hgot]
    exact ⟨_, hp, rfl, hcontext, hbuffer⟩

/-- The assertion of `setMethod` has held so far, and no method is stored where the next
request line is awaited. -/
structure Clean (conn : HttpConnection) : Prop where
  reading : conn.context.Reading
  method : conn.context.state = .kExpectRequestLine → conn.context.request.method = .kInvalid
  asserted : conn.context.request.assertionFailed = false

/-- The assertion has held, but a rejected request line is in the buffer and its method is
stored. -/
structure Spoiled (conn : HttpConnection) : Prop where
  state : conn.context.state = .kExpectRequestLine
  method : conn.context.request.method ≠ .kInvalid
  asserted : conn.context.request.assertionFailed = false
  line : ∃ crlf, findCRLF conn.inputBuffer = some crlf ∧ 32 ∈ conn.inputBuffer.take crlf

/-- The read completes a request line that begins with a known method and a space and is
not a request line of the grammar. -/
def Spoils (conn : HttpConnection) (data : Bytes) : Prop :=
  conn.context.state = .kExpectRequestLine ∧ ∃ line rest method start,
    conn.inputBuffer ++ data = line ++ kCRLF ++ rest ∧ ¬ kCRLF <:+: line ∧
    method ≠ .kInvalid ∧ line = Method.token method ++ 32 :: start ∧
    ¬ ∃ method target version, IsRequestLine line method target version

variable {httpCallback}

/-- What a call leaves of a request that has got beyond its request line is clean, with
the reset. -/
theorem Clean.of_parses {conn : HttpConnection} {ctx : HttpContext} {buf : Bytes} {p : Parsed}
    (hp : Parses ctx buf p) (hstate : p.context.state ≠ .kExpectRequestLine)
    (hasserted : p.context.request.assertionFailed = false)
    (hcontext : conn.context = if p.context.gotAll then p.context.reset else p.context) :
    conn.Clean := by
  split at hcontext
  · refine ⟨?_, ?_, ?_⟩ <;> rw [hcontext]
    · exact .inl rfl
    · exact fun _ => rfl
    · exact hasserted
  · next hgot =>
    refine ⟨?_, ?_, ?_⟩ <;> rw [hcontext]
    · exact hp.reading_or_gotAll.resolve_right hgot
    · exact fun h => absurd h hstate
    · exact hasserted

/-- A read spoils a connection exactly when the parser stores the method of the line and
does not accept the line. -/
theorem spoils_iff {conn : HttpConnection} {data line : Bytes} {crlf : ℕ}
    (hstate : conn.context.state = .kExpectRequestLine)
    (hcrlf : findCRLF (conn.inputBuffer ++ data) = some crlf)
    (htake : (conn.inputBuffer ++ data).take crlf = line) :
    conn.Spoils data ↔ 32 ∈ line ∧ HttpRequest.methodOf (line.take (line.idxOf 32)) ≠ .kInvalid ∧
      ¬ ∃ method target version, IsRequestLine line method target version := by
  constructor
  · rintro ⟨-, line', rest, method, start, hbytes, hfree, hmethod, hline, hgrammar⟩
    rw [hbytes, findCRLF_line hfree] at hcrlf
    obtain rfl := Option.some.inj hcrlf
    rw [hbytes, take_line] at htake
    subst htake
    obtain ⟨hspace, -, hknown⟩ := Method.token_spec hmethod
    refine ⟨by simp [hline], ?_, hgrammar⟩
    have hidx : line'.idxOf 32 = method.token.length := by rw [hline, idxOf_append hspace]
    have htoken : line'.take method.token.length = method.token := by simp [hline]
    rw [hidx, htoken, hknown]
    exact hmethod
  · rintro ⟨hspace, hmethod, hgrammar⟩
    obtain ⟨hfree, hbytes⟩ := line_of_findCRLF hcrlf
    rw [htake] at hfree hbytes
    obtain ⟨-, hline⟩ := exists_split_of_idxOf (c := 32) (l := line)
      ((List.idxOf_lt_length_of_mem hspace).ne)
    rw [← HttpRequest.token_methodOf hmethod] at hline
    exact ⟨hstate, line, _, _, _, hbytes, hfree, hmethod, hline, hgrammar⟩

/-- A read keeps a connection clean, or it is one that spoils it. -/
theorem Clean.read {conn conn' : HttpConnection} {data : Bytes} (h : conn.Clean)
    (hread : receive httpCallback conn data = some conn') :
    conn'.Clean ∧ ¬ conn.Spoils data ∨ conn'.Spoiled ∧ conn.Spoils data := by
  obtain ⟨p, conn₁, hp, hread', hcontext, hbuffer⟩ := receive_spec httpCallback h.reading data
  obtain rfl := Option.some.inj (hread.symm.trans hread')
  rcases h.reading with hstate | hstate
  · cases hcrlf : findCRLF (conn.inputBuffer ++ data) with
    | none =>
      have hwait := hp.unique (.wait h.reading hcrlf)
      rw [hwait] at hcontext
      have hgot : conn.context.gotAll = false := by simp [gotAll, hstate]
      rw [hgot, if_neg Bool.false_ne_true] at hcontext
      refine .inl ⟨⟨hcontext ▸ h.reading, hcontext ▸ h.method, hcontext ▸ h.asserted⟩, ?_⟩
      rintro ⟨-, line, rest, -, -, hbytes, hfree, -⟩
      rw [hbytes, findCRLF_line hfree] at hcrlf
      simp at hcrlf
    | some crlf =>
      have hframe := hp.requestLine_frame hstate hcrlf
      rw [spoils_iff hstate hcrlf rfl]
      generalize htake : (conn.inputBuffer ++ data).take crlf = line at hframe ⊢
      obtain ⟨hmethod, hflag⟩ :=
        HttpRequest.processRequestLine_method conn.context.request line
      have hasserted :
          (conn.context.request.processRequestLine line).1.assertionFailed = false := by
        simpa [h.asserted, h.method hstate] using hflag
      rw [h.method hstate] at hmethod
      rw [hasserted, HttpRequest.processRequestLine_eq_true_iff,
        HttpRequest.processRequestLine_eq_false_iff] at hframe
      obtain ⟨hflag, ⟨hgrammar, hnot⟩ | ⟨hgrammar, hleft, hrest⟩⟩ := hframe
      · refine .inl ⟨.of_parses hp hnot hflag hcontext, ?_⟩
        rintro ⟨-, -, hrejected⟩
        exact hrejected hgrammar
      · have hgot : p.context.gotAll = false := by simp [hleft, gotAll, hstate]
        rw [hgot, if_neg Bool.false_ne_true, hleft] at hcontext
        rw [hrest] at hbuffer
        by_cases hknown : 32 ∈ line ∧
          HttpRequest.methodOf (line.take (line.idxOf 32)) ≠ .kInvalid
        · refine .inr ⟨⟨?_, ?_, ?_, crlf, ?_⟩, hknown.1, hknown.2, hgrammar⟩
          · rw [hcontext]
            exact hstate
          · rw [hcontext]
            simpa only [hmethod, if_pos hknown.1] using hknown.2
          · rw [hcontext]
            exact hasserted
          · rw [hbuffer]
            exact ⟨hcrlf, htake ▸ hknown.1⟩
        · refine .inl ⟨⟨?_, fun _ => ?_, ?_⟩, fun hspoils => hknown ⟨hspoils.1, hspoils.2.1⟩⟩
          · rw [hcontext]
            exact .inl hstate
          · rw [hcontext, hmethod]
            by_contra hother
            split at hother
            · next hspace => exact hknown ⟨hspace, hother⟩
            · exact hother rfl
          · rw [hcontext]
            exact hasserted
  · obtain ⟨hnot, hflag⟩ := hp.headers_frame hstate
    refine .inl ⟨.of_parses hp hnot (hflag.trans h.asserted) hcontext, fun hspoils => ?_⟩
    simp [Spoils, hstate] at hspoils

/-- A read on a spoiled connection makes the assertion of `setMethod` fail. -/
theorem Spoiled.read {conn conn' : HttpConnection} {data : Bytes} (h : conn.Spoiled)
    (hread : receive httpCallback conn data = some conn') :
    conn'.context.request.assertionFailed = true := by
  obtain ⟨p, conn₁, hp, hread', hcontext, -⟩ := receive_spec httpCallback (.inl h.state) data
  obtain rfl := Option.some.inj (hread.symm.trans hread')
  obtain ⟨crlf, hcrlf, hspace⟩ := h.line
  have hflag := (hp.requestLine_frame h.state (findCRLF_append hcrlf data)).1
  rw [take_append_of_findCRLF hcrlf, (HttpRequest.processRequestLine_method _ _).2] at hflag
  have hfailed : p.context.request.assertionFailed = true := by
    rw [hflag]
    simp [hspace, h.method]
  rw [hcontext]
  split
  · exact hfailed
  · exact hfailed

/-- Whatever is read on a connection, the assertion of `setMethod` holds exactly when no
read but the last completes a request line that begins with a known method and is not a
request line: the line is rejected, and the next read parses it again. -/
theorem methodUnset_iff_not_spoils {trace : List (HttpConnection × Bytes)}
    {conn : HttpConnection} (h : (machine httpCallback).Run {} trace conn) :
    (∀ t ∈ Machine.visited trace conn, t.context.request.assertionFailed = false) ↔
      ∀ q ∈ trace.dropLast, ¬ q.1.Spoils q.2 := by
  refine h.forall_visited_iff_dropLast (C := fun conn data => ¬ conn.Spoils data) (I := Clean)
    (D := Spoiled) ?_ ?_ ?_ ?_ ?_
  · rintro t (ht | ht)
    · exact ht.asserted
    · exact ht.asserted
  · intro s data t hs hnot hread
    exact (hs.read hread).elim And.left fun hspoiled => absurd hspoiled.2 hnot
  · intro s data t hs hnot hread
    exact (hs.read hread).elim (fun hclean => absurd hclean.2 hnot) And.left
  · intro s data t hs hread hasserted
    simp [hs.read hread] at hasserted
  · exact ⟨.inl rfl, fun _ => rfl, rfl⟩

/-- The reads of a list are those of a run. -/
theorem run_of_foldlM {reads : List Bytes} {conn : HttpConnection}
    (h : reads.foldlM (receive httpCallback) {} = some conn) :
    (machine httpCallback).Run {} (Machine.traceOf (receive httpCallback) {} reads) conn :=
  .of_foldlM h

/-- A request is answered, a line with an unknown method is rejected, and a chunk that comes
behind it makes the parser reject the line again: the assertion holds throughout. -/
theorem methodUnset_iff_not_spoils_unknownMethod :
    ∃ conn₁ conn₂ conn, (machine defaultHttpCallback).Run {}
        [({}, ascii "GET / HTTP/1.1" ++ kCRLF ++ kCRLF),
          (conn₁, ascii "BREW / HTTP/1.1" ++ kCRLF), (conn₂, ascii "x")] conn ∧
      conn.requests.length = 1 ∧
      conn.inputBuffer = ascii "BREW / HTTP/1.1" ++ kCRLF ++ ascii "x" ∧
      ∀ t ∈ Machine.visited
        [({}, ascii "GET / HTTP/1.1" ++ kCRLF ++ kCRLF),
          (conn₁, ascii "BREW / HTTP/1.1" ++ kCRLF), (conn₂, ascii "x")] conn,
        t.context.request.assertionFailed = false := by
  have hreads : ((receive defaultHttpCallback {} (ascii "GET / HTTP/1.1" ++ kCRLF ++ kCRLF)).bind
      fun conn₁ => (receive defaultHttpCallback conn₁ (ascii "BREW / HTTP/1.1" ++ kCRLF)).bind
      fun conn₂ => (receive defaultHttpCallback conn₂ (ascii "x")).map
      fun conn => (conn₁.context.state, conn₁.inputBuffer, conn.requests.length,
        conn.inputBuffer)) =
      some (.kExpectRequestLine, [], 1, ascii "BREW / HTTP/1.1" ++ kCRLF ++ ascii "x") := by
    decide
  obtain ⟨conn₁, hfirst, hreads⟩ := Option.bind_eq_some_iff.mp hreads
  obtain ⟨conn₂, hsecond, hreads⟩ := Option.bind_eq_some_iff.mp hreads
  obtain ⟨conn, hthird, hreads⟩ := Option.map_eq_some_iff.mp hreads
  simp only [Prod.mk.injEq] at hreads
  obtain ⟨hstate, hbuffer, hcount, hrest⟩ := hreads
  have hrun : (machine defaultHttpCallback).Run {}
      [({}, ascii "GET / HTTP/1.1" ++ kCRLF ++ kCRLF),
        (conn₁, ascii "BREW / HTTP/1.1" ++ kCRLF), (conn₂, ascii "x")] conn :=
    .cons hfirst (.cons hsecond (.cons hthird (.nil _)))
  refine ⟨conn₁, conn₂, conn, hrun, hcount, hrest, (methodUnset_iff_not_spoils hrun).mpr ?_⟩
  rw [List.dropLast_cons_cons, List.dropLast_cons_cons, List.dropLast_singleton,
    List.forall_mem_cons, List.forall_mem_singleton]
  constructor
  · -- the line of the first request is of the grammar
    rw [spoils_iff rfl (show findCRLF _ = some 14 by decide) rfl]
    rintro ⟨-, -, hgrammar⟩
    exact hgrammar ⟨.kGet, ascii "/", .kHttp11, by decide, by decide, by decide, rfl⟩
  · -- the method of the second line is not a known one
    have hcrlf : findCRLF (conn₁.inputBuffer ++ (ascii "BREW / HTTP/1.1" ++ kCRLF)) = some 15 := by
      rw [hbuffer]
      decide
    rw [spoils_iff hstate hcrlf rfl, hbuffer]
    rintro ⟨-, hmethod, -⟩
    exact hmethod (by decide)

/-- After a request line with an unknown version the next chunk makes the assertion fail. -/
theorem not_methodUnset : ¬ ∀ (trace : List (HttpConnection × Bytes)) (conn : HttpConnection),
    (machine defaultHttpCallback).Run {} trace conn →
      ∀ t ∈ Machine.visited trace conn, t.context.request.assertionFailed = false := by
  intro hall
  have hfailed : ([ascii "GET / HTTP/2.0" ++ kCRLF, ascii "x"].foldlM
      (receive defaultHttpCallback) {}).map (·.context.request.assertionFailed) = some true := by
    decide
  obtain ⟨conn, hrun, hone⟩ := Option.map_eq_some_iff.mp hfailed
  have hlast := hall _ conn (run_of_foldlM hrun) conn
    (List.mem_append_right _ (List.mem_singleton.mpr rfl))
  simp [hone] at hlast

end HttpConnection

end DuoDuo.Http
