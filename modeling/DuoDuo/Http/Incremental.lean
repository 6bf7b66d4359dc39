import DuoDuo.Http.HttpContext

/-!
# Parsing a stream as it arrives

The bytes of a request may arrive in any pieces. What the parser has consumed
before a piece is a sequence of complete lines, and what it leaves in the buffer
contains no delimiter or is not going to be parsed again. So parsing after every
piece gives what parsing the whole stream gives. The loop of `parseRequest` is
described by its derivations, in which the fuel of the model does not occur.
-/

namespace DuoDuo.Http.HttpContext

open Library

/-- The context is one for which `parseRequest` is meant: a request has begun and is
not finished. -/
def Reading (ctx : HttpContext) : Prop :=
  ctx.state = .kExpectRequestLine ∨ ctx.state = .kExpectHeaders

/-- The loop of `parseRequest`, started with the given context and buffer, returns. -/
inductive Parses : HttpContext → Bytes → Parsed → Prop
  /-- No complete line is in the buffer. -/
  | wait {ctx : HttpContext} {buf : Bytes} : ctx.Reading → findCRLF buf = none →
      Parses ctx buf ⟨true, ctx, buf⟩
  /-- The request line is invalid, and stays in the buffer. -/
  | invalid {ctx : HttpContext} {buf : Bytes} {crlf : ℕ} {r : HttpRequest} :
      ctx.state = .kExpectRequestLine → findCRLF buf = some crlf →
      ctx.request.processRequestLine (buf.take crlf) = (r, false) →
      Parses ctx buf ⟨false, { ctx with request := r }, buf⟩
  /-- The request line is valid. -/
  | requestLine {ctx : HttpContext} {buf : Bytes} {crlf : ℕ} {r : HttpRequest} {p : Parsed} :
      ctx.state = .kExpectRequestLine → findCRLF buf = some crlf →
      ctx.request.processRequestLine (buf.take crlf) = (r, true) →
      Parses { state := .kExpectHeaders, request := r } (buf.drop (crlf + 2)) p →
      Parses ctx buf p
  /-- A line with a colon is a header. -/
  | header {ctx : HttpContext} {buf : Bytes} {crlf : ℕ} {p : Parsed} :
      ctx.state = .kExpectHeaders → findCRLF buf = some crlf →
      (buf.take crlf).idxOf 58 ≠ (buf.take crlf).length →
      Parses { ctx with
        request := ctx.request.addHeader (buf.take crlf) ((buf.take crlf).idxOf 58) }
        (buf.drop (crlf + 2)) p →
      Parses ctx buf p
  /-- A line without one ends the request. -/
  | last {ctx : HttpContext} {buf : Bytes} {crlf : ℕ} :
      ctx.state = .kExpectHeaders → findCRLF buf = some crlf →
      (buf.take crlf).idxOf 58 = (buf.take crlf).length →
      Parses ctx buf ⟨true, { ctx with state := .kGotAll }, buf.drop (crlf + 2)⟩

/-- A delimiter in the buffer lies within it. -/
theorem findCRLF_le {buf : Bytes} {crlf : ℕ} (h : findCRLF buf = some crlf) :
    crlf + 2 ≤ buf.length :=
  search_add_length_le h

/-- A buffer with a complete line begins with it. -/
theorem line_of_findCRLF {buf : Bytes} {crlf : ℕ} (h : findCRLF buf = some crlf) :
    ¬ kCRLF <:+: buf.take crlf ∧ buf = buf.take crlf ++ kCRLF ++ buf.drop (crlf + 2) :=
  ⟨not_infix_take_of_search (by decide) h, split_of_search h⟩

/-- A delimiter stays where it is when more arrives. -/
theorem findCRLF_append {buf : Bytes} {crlf : ℕ} (h : findCRLF buf = some crlf) (more : Bytes) :
    findCRLF (buf ++ more) = some crlf :=
  search_append h more

/-- The line before a delimiter stays the same when more arrives. -/
theorem take_append_of_findCRLF {buf : Bytes} {crlf : ℕ} (h : findCRLF buf = some crlf)
    (more : Bytes) : (buf ++ more).take crlf = buf.take crlf :=
  List.take_append_of_le_length (by have hle := findCRLF_le h; omega)

/-- What follows a line grows by what arrives. -/
theorem drop_append_of_findCRLF {buf : Bytes} {crlf : ℕ} (h : findCRLF buf = some crlf)
    (more : Bytes) : (buf ++ more).drop (crlf + 2) = buf.drop (crlf + 2) ++ more :=
  List.drop_append_of_le_length (findCRLF_le h)

/-- With fuel for every line in the buffer the loop computes a derivation. -/
theorem exists_parses_of_reading {ctx : HttpContext} {buf : Bytes} {fuel : ℕ} (h : ctx.Reading)
    (hfuel : buf.length < fuel) : ∃ p, parseLoop fuel ctx buf = some p ∧ Parses ctx buf p := by
  induction fuel generalizing ctx buf with
  | zero => omega
  | succ fuel ih =>
    cases hcrlf : findCRLF buf with
    | none =>
      refine ⟨_, ?_, .wait h hcrlf⟩
      rcases h with hstate | hstate <;> rw [parseLoop, hstate, hcrlf]
    | some crlf =>
      have hle := findCRLF_le hcrlf
      have hdrop : (buf.drop (crlf + 2)).length < fuel := by
        rw [List.length_drop]
        omega
      rcases h with hstate | hstate
      · cases hprocess : ctx.request.processRequestLine (buf.take crlf) with
        | mk r ok =>
          cases ok with
          | false =>
            refine ⟨_, ?_, .invalid hstate hcrlf hprocess⟩
            rw [parseLoop, hstate, hcrlf]
            simp only [hprocess]
            rfl
          | true =>
            have hreading : Reading { state := .kExpectHeaders, request := r } := .inr rfl
            obtain ⟨p, hloop, hp⟩ := ih hreading hdrop
            refine ⟨p, ?_, .requestLine hstate hcrlf hprocess hp⟩
            rw [parseLoop, hstate, hcrlf]
            simpa only [hprocess, if_true] using hloop
      · by_cases hcolon : (buf.take crlf).idxOf 58 = (buf.take crlf).length
        · refine ⟨_, ?_, .last hstate hcrlf hcolon⟩
          rw [parseLoop, hstate, hcrlf]
          simp only [hcolon, ne_eq, not_true, if_false]
        · have hreading : Reading { ctx with
              request := ctx.request.addHeader (buf.take crlf) ((buf.take crlf).idxOf 58) } :=
            .inr hstate
          obtain ⟨p, hloop, hp⟩ := ih hreading hdrop
          refine ⟨p, ?_, .header hstate hcrlf hcolon hp⟩
          rw [hstate] at hloop
          rw [parseLoop, hstate, hcrlf]
          simpa only [ne_eq, hcolon, not_false_eq_true, if_true] using hloop

/-- The loop has one result. -/
theorem Parses.unique {ctx : HttpContext} {buf : Bytes} {p q : Parsed} (hp : Parses ctx buf p)
    (hq : Parses ctx buf q) : p = q := by
  induction hp with
  | wait _ hnone => cases hq <;> simp_all
  | invalid hstate hcrlf hprocess => cases hq <;> simp_all
  | requestLine hstate hcrlf hprocess _ ih =>
    cases hq with
    | requestLine _ hcrlf' hprocess' hq =>
      simp_all
    | _ => simp_all
  | header hstate hcrlf hcolon _ ih =>
    cases hq with
    | header _ hcrlf' _ hq =>
      simp_all
    | _ => simp_all
  | last hstate hcrlf hcolon => cases hq <;> simp_all

/-- The loop is entered with a request that is being read. -/
theorem Parses.reading {ctx : HttpContext} {buf : Bytes} {p : Parsed} (hp : Parses ctx buf p) :
    ctx.Reading := by
  cases hp with
  | wait hreading _ => exact hreading
  | invalid hstate _ _ => exact .inl hstate
  | requestLine hstate _ _ _ => exact .inl hstate
  | header hstate _ _ _ => exact .inr hstate
  | last hstate _ _ => exact .inr hstate

/-- The call is the last one for this request: it returned false, or the request is
complete. -/
def Parsed.Final (p : Parsed) : Prop := p.ok = false ∨ p.context.gotAll = true

instance (p : Parsed) : Decidable p.Final := by
  unfold Parsed.Final
  infer_instance

/-- A call that is not the last leaves a request being read, and no complete line. -/
theorem Parses.waiting {ctx : HttpContext} {buf : Bytes} {p : Parsed} (hp : Parses ctx buf p)
    (hfinal : ¬ p.Final) : p.ok = true ∧ Parses p.context p.rest p := by
  induction hp with
  | wait hreading hnone => exact ⟨rfl, .wait hreading hnone⟩
  | invalid => exact absurd (.inl rfl) hfinal
  | requestLine _ _ _ _ ih => exact ih hfinal
  | header _ _ _ _ ih => exact ih hfinal
  | last => exact absurd (.inr rfl) hfinal

/-- What the last call did does not depend on what arrives afterwards. -/
theorem Parses.append_final {ctx : HttpContext} {buf : Bytes} {p : Parsed}
    (hp : Parses ctx buf p) (hfinal : p.Final) (more : Bytes) :
    Parses ctx (buf ++ more) ⟨p.ok, p.context, p.rest ++ more⟩ := by
  induction hp with
  | wait hreading _ =>
    rcases hreading with hstate | hstate <;> simp [Parsed.Final, gotAll, hstate] at hfinal
  | invalid hstate hcrlf hprocess =>
    refine .invalid hstate (findCRLF_append hcrlf more) ?_
    rw [take_append_of_findCRLF hcrlf, hprocess]
  | requestLine hstate hcrlf hprocess _ ih =>
    rw [← take_append_of_findCRLF hcrlf more] at hprocess
    refine .requestLine hstate (findCRLF_append hcrlf more) hprocess ?_
    rw [drop_append_of_findCRLF hcrlf]
    exact ih hfinal
  | header hstate hcrlf hcolon _ ih =>
    refine .header hstate (findCRLF_append hcrlf more) ?_ ?_
    · rwa [take_append_of_findCRLF hcrlf]
    · rw [take_append_of_findCRLF hcrlf, drop_append_of_findCRLF hcrlf]
      exact ih hfinal
  | last hstate hcrlf hcolon =>
    rw [← drop_append_of_findCRLF hcrlf]
    refine .last hstate (findCRLF_append hcrlf more) ?_
    rwa [take_append_of_findCRLF hcrlf]

/-- A call that is not the last consumed complete lines only: the bytes that arrive
next are parsed as if they had been there. -/
theorem Parses.append_waiting {ctx : HttpContext} {buf more : Bytes} {p q : Parsed}
    (hp : Parses ctx buf p) (hfinal : ¬ p.Final) (hq : Parses p.context (p.rest ++ more) q) :
    Parses ctx (buf ++ more) q := by
  induction hp with
  | wait => exact hq
  | invalid => exact absurd (.inl rfl) hfinal
  | requestLine hstate hcrlf hprocess _ ih =>
    rw [← take_append_of_findCRLF hcrlf more] at hprocess
    refine .requestLine hstate (findCRLF_append hcrlf more) hprocess ?_
    rw [drop_append_of_findCRLF hcrlf]
    exact ih hfinal hq
  | header hstate hcrlf hcolon _ ih =>
    refine .header hstate (findCRLF_append hcrlf more) ?_ ?_
    · rwa [take_append_of_findCRLF hcrlf]
    · rw [take_append_of_findCRLF hcrlf, drop_append_of_findCRLF hcrlf]
      exact ih hfinal hq
  | last => exact absurd (.inr rfl) hfinal

/-- The chunks of a stream appended to the buffer one after another, with a call of
`parseRequest` after each, up to the first call that returns false or completes the
request. The chunks left then are appended to what that call did not consume. -/
def feed (ctx : HttpContext) (buf : Bytes) : List Bytes → Option Parsed
  | [] => some ⟨true, ctx, buf⟩
  | chunk :: chunks =>
    match ctx.parseRequest (buf ++ chunk) with
    | none => none
    | some p =>
      if p.Final then some ⟨p.ok, p.context, p.rest ++ chunks.flatten⟩
      else feed p.context p.rest chunks

/-- From a state in which no complete line is left, feeding the chunks is parsing them
all at once. -/
theorem feed_of_parses {ctx : HttpContext} {buf : Bytes} (chunks : List Bytes)
    (hstill : Parses ctx buf ⟨true, ctx, buf⟩) :
    ∃ p, feed ctx buf chunks = some p ∧ Parses ctx (buf ++ chunks.flatten) p := by
  induction chunks generalizing ctx buf with
  | nil => exact ⟨_, rfl, by simpa using hstill⟩
  | cons chunk chunks ih =>
    obtain ⟨p, hparse, hp⟩ :=
      exists_parses_of_reading hstill.reading (Nat.lt_succ_self (buf ++ chunk).length)
    have hcall : ctx.parseRequest (buf ++ chunk) = some p := hparse
    rw [List.flatten_cons, ← List.append_assoc]
    by_cases hfinal : p.Final
    · refine ⟨_, ?_, hp.append_final hfinal chunks.flatten⟩
      simp only [feed, hcall]
      exact if_pos hfinal
    · obtain ⟨hok, hwaiting⟩ := hp.waiting hfinal
      obtain ⟨ok, context, rest⟩ := p
      subst hok
      obtain ⟨q, hfeed, hq⟩ := ih hwaiting
      refine ⟨q, ?_, hp.append_waiting hfinal hq⟩
      simp only [feed, hcall]
      exact (if_neg hfinal).trans hfeed

/-- Parsing a stream as it arrives, in whatever chunks, is parsing it at once: both
return, with the same verdict, the same request and the same bytes not consumed. -/
theorem feed_eq_parseRequest (chunks : List Bytes) :
    ∃ p, parseRequest {} chunks.flatten = some p ∧ feed {} [] chunks = some p := by
  have hstill : Parses {} [] ⟨true, {}, []⟩ := .wait (.inl rfl) (by decide)
  obtain ⟨p, hfeed, hp⟩ := feed_of_parses chunks hstill
  obtain ⟨q, hparse, hq⟩ :=
    exists_parses_of_reading hstill.reading (Nat.lt_succ_self chunks.flatten.length)
  have hsame : q = p := hq.unique hp
  exact ⟨p, hsame ▸ hparse, hfeed⟩

end DuoDuo.Http.HttpContext
