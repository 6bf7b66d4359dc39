import DuoDuo.Http.Incremental
import DuoDuo.Http.Pipelining

/-!
# Where the headers of a request end

`parseRequest` takes a line without a colon for the end of the headers. The empty
line has no colon, so a block of header lines that is closed by an empty line ends
where it should. A line that has characters and no colon ends the block too early.

What a header line stands for is said here without the parser: a field up to the first
colon, and a value with white space around it.
-/

namespace DuoDuo.Http

open RequestMessage

/-- A complete line with a field and a value. -/
structure IsHeaderLine (line : Bytes) : Prop where
  free : ¬ kCRLF <:+: line
  colon : 58 ∈ line

/-- A line stands for a field and a value: the field is what is in front of the first colon,
and the value what is behind it, without the white space around it. -/
structure IsHeader (line field value : Bytes) : Prop where
  field_free : 58 ∉ field
  split : ∃ before after, line = field ++ 58 :: (before ++ value ++ after) ∧
    (∀ c ∈ before, isspace c) ∧ ∀ c ∈ after, isspace c
  head : ∀ c ∈ value.head?, ¬ isspace c
  last : ∀ c ∈ value.getLast?, ¬ isspace c

/-- What header lines contribute to a request: every line has a field and a value, a field
has the value of the last line that names it, and nothing else of the request changes. -/
structure Contributes (r r' : HttpRequest) (lines : List Bytes) : Prop where
  read : ∀ line ∈ lines, ∃ field value, IsHeader line field value
  stored : ∀ earlier line later field value, lines = earlier ++ line :: later →
    IsHeader line field value → (∀ line' ∈ later, ∀ value', ¬ IsHeader line' field value') →
    r'.headers field = some value
  kept : ∀ field, (∀ line ∈ lines, ∀ value, ¬ IsHeader line field value) →
    r'.headers field = r.headers field
  frame : r' = { r with headers := r'.headers }

namespace HttpRequest

/-- The request with the fields and values of the lines, each split at its first colon. -/
def addHeaders (r : HttpRequest) (lines : List Bytes) : HttpRequest :=
  lines.foldl (fun r line => r.addHeader line (line.idxOf 58)) r

/-- White space around a value is trimmed, and nothing of the value. -/
theorem trim_append {before value after : Bytes} (hbefore : ∀ c ∈ before, isspace c)
    (hafter : ∀ c ∈ after, isspace c) (hhead : ∀ c ∈ value.head?, ¬ isspace c)
    (hlast : ∀ c ∈ value.getLast?, ¬ isspace c) :
    trim (before ++ value ++ after) = value := by
  have hfront : (before ++ value ++ after).dropWhile isspace =
      (value ++ after).dropWhile isspace := by
    rw [List.append_assoc, List.dropWhile_append_of_pos hbefore]
  rw [trim, hfront]
  cases value with
  | nil =>
    have hall : after.dropWhile isspace = [] := List.dropWhile_eq_nil_iff.mpr hafter
    simp [hall]
  | cons c value =>
    have hc : isspace c = false := by simpa using hhead c rfl
    have hkept : (c :: value ++ after).dropWhile isspace = c :: value ++ after := by simp [hc]
    rw [hkept, List.rdropWhile, List.reverse_append,
      List.dropWhile_append_of_pos (by simpa using hafter)]
    have hback : ((c :: value).reverse).dropWhile isspace = (c :: value).reverse := by
      rw [List.dropWhile_eq_self_iff]
      intro hpos
      rw [List.getElem_reverse]
      exact hlast _ (by rw [List.getLast?_eq_getElem?]; simp)
    rw [hback, List.reverse_reverse]

/-- What is trimmed is white space, at the two ends. -/
theorem trim_spec (l : Bytes) :
    (∃ before after, l = before ++ trim l ++ after ∧ (∀ c ∈ before, isspace c) ∧
      ∀ c ∈ after, isspace c) ∧
    (∀ c ∈ (trim l).head?, ¬ isspace c) ∧ ∀ c ∈ (trim l).getLast?, ¬ isspace c := by
  have hfront : l = l.takeWhile isspace ++ l.dropWhile isspace :=
    List.takeWhile_append_dropWhile.symm
  have hback : l.dropWhile isspace =
      trim l ++ (l.dropWhile isspace).rtakeWhile isspace :=
    List.rdropWhile_append_rtakeWhile.symm
  refine ⟨⟨l.takeWhile isspace, (l.dropWhile isspace).rtakeWhile isspace, ?_, ?_, ?_⟩, ?_, ?_⟩
  · rwa [List.append_assoc, ← hback]
  · exact fun c hc => List.mem_takeWhile_imp hc
  · exact fun c hc => List.mem_rtakeWhile_imp hc
  · intro c hc
    have hhead := List.head?_dropWhile_not isspace l
    rw [hback, List.head?_append, Option.mem_def.mp hc] at hhead
    simpa using hhead
  · intro c hc
    have hne : trim l ≠ [] := by
      rintro hnil
      simp [hnil] at hc
    have hlast := List.rdropWhile_last_not isspace (l.dropWhile isspace) hne
    rw [List.getLast?_eq_some_getLast hne, Option.mem_some_iff] at hc
    exact hc ▸ hlast

end HttpRequest

/-- The parser splits a header line at its first colon. -/
theorem isHeader_iff {line field value : Bytes} (hcolon : 58 ∈ line) :
    IsHeader line field value ↔ line.take (line.idxOf 58) = field ∧
      HttpRequest.trim (line.drop (line.idxOf 58 + 1)) = value := by
  constructor
  · rintro ⟨hfree, ⟨before, after, rfl, hbefore, hafter⟩, hhead, hlast⟩
    have hidx : (field ++ 58 :: (before ++ value ++ after)).idxOf 58 = field.length :=
      idxOf_append hfree _
    rw [hidx]
    refine ⟨by simp, ?_⟩
    rw [List.drop_append, List.drop_eq_nil_of_le (Nat.le_succ _)]
    simpa using HttpRequest.trim_append hbefore hafter hhead hlast
  · rintro ⟨rfl, rfl⟩
    obtain ⟨hfree, hline⟩ :=
      exists_split_of_idxOf (List.idxOf_lt_length_of_mem hcolon).ne
    obtain ⟨⟨before, after, hvalue, hbefore, hafter⟩, hhead, hlast⟩ :=
      HttpRequest.trim_spec (line.drop (line.idxOf 58 + 1))
    exact ⟨hfree, ⟨before, after, by rwa [← hvalue], hbefore, hafter⟩, hhead, hlast⟩

/-- The headers that the parser stores are those of the lines. -/
theorem HttpRequest.contributes_addHeaders (r : HttpRequest) {lines : List Bytes}
    (hlines : ∀ line ∈ lines, IsHeaderLine line) : Contributes r (r.addHeaders lines) lines := by
  induction lines using List.reverseRecOn with
  | nil => exact ⟨by simp, by simp, fun _ _ => rfl, rfl⟩
  | append_singleton lines last ih =>
    rw [List.forall_mem_append, List.forall_mem_singleton] at hlines
    obtain ⟨hlines, -, hcolon⟩ := hlines
    obtain ⟨hread, hstored, hkept, hframe⟩ := ih hlines
    -- the last line overrides what the lines before it have stored for its field
    have hlast := (isHeader_iff hcolon).mpr ⟨rfl, rfl⟩
    have hheaders : (r.addHeaders (lines ++ [last])).headers =
        Function.update (r.addHeaders lines).headers (last.take (last.idxOf 58))
          (some (HttpRequest.trim (last.drop (last.idxOf 58 + 1)))) := by
      simp [HttpRequest.addHeaders, HttpRequest.addHeader]
    have hother : ∀ field, (∀ value, ¬ IsHeader last field value) →
        (r.addHeaders (lines ++ [last])).headers field = (r.addHeaders lines).headers field := by
      intro field hnot
      rw [hheaders, Function.update_of_ne]
      rintro rfl
      exact hnot _ hlast
    refine ⟨?_, ?_, ?_, ?_⟩
    · rw [List.forall_mem_append, List.forall_mem_singleton]
      exact ⟨hread, _, _, hlast⟩
    · intro earlier line later field value hsplit hheader hlater
      rcases List.eq_nil_or_concat later with rfl | ⟨later, line', rfl⟩
      · obtain ⟨rfl, hline⟩ := List.append_inj' hsplit rfl
        obtain rfl := List.singleton_inj.mp hline
        obtain ⟨rfl, rfl⟩ := (isHeader_iff hcolon).mp hheader
        rw [hheaders, Function.update_self]
      · rw [List.concat_eq_append, ← List.cons_append, ← List.append_assoc] at hsplit
        obtain ⟨rfl, hline⟩ := List.append_inj' hsplit rfl
        obtain rfl := List.singleton_inj.mp hline
        rw [List.concat_eq_append, List.forall_mem_append, List.forall_mem_singleton] at hlater
        rw [hother field hlater.2]
        exact hstored _ _ _ _ _ rfl hheader hlater.1
    · intro field hnone
      rw [List.forall_mem_append, List.forall_mem_singleton] at hnone
      rw [hother field hnone.2, hkept field hnone.1]
    · calc r.addHeaders (lines ++ [last])
          = { r.addHeaders lines with headers := (r.addHeaders (lines ++ [last])).headers } := by
            simp [HttpRequest.addHeaders, HttpRequest.addHeader]
        _ = { r with headers := (r.addHeaders (lines ++ [last])).headers } := by rw [hframe]

/-- Lines on the wire are read back. -/
theorem terminated_injective {lines lines' : List Bytes} (h : ∀ line ∈ lines, ¬ kCRLF <:+: line)
    (h' : ∀ line ∈ lines', ¬ kCRLF <:+: line) (heq : terminated lines = terminated lines') :
    lines = lines' := by
  induction lines generalizing lines' with
  | nil =>
    cases lines' with
    | nil => rfl
    | cons line' lines' => simp [terminated, kCRLF] at heq
  | cons line lines ih =>
    cases lines' with
    | nil => simp [terminated, kCRLF] at heq
    | cons line' lines' =>
      rw [List.forall_mem_cons] at h h'
      rw [terminated_cons, terminated_cons] at heq
      have hlength : line.length = line'.length := by
        have hfind := findCRLF_line h.1 (terminated lines)
        rw [heq, findCRLF_line h'.1] at hfind
        exact (Option.some.inj hfind).symm
      rw [List.append_assoc, List.append_assoc] at heq
      obtain ⟨rfl, hrest⟩ := List.append_inj heq hlength
      rw [ih h.2 h'.2 (List.append_cancel_left hrest)]

/-- The lines of a buffer up to the first one without a colon, if it is complete. -/
theorem exists_headerLines (buf : Bytes) :
    ∃ lines rest, buf = terminated lines ++ rest ∧ (∀ line ∈ lines, IsHeaderLine line) ∧
      (findCRLF rest = none ∨ ∃ line rest', rest = line ++ kCRLF ++ rest' ∧
        ¬ kCRLF <:+: line ∧ 58 ∉ line) := by
  induction hlength : buf.length using Nat.strong_induction_on generalizing buf with
  | _ n ih =>
    cases hcrlf : findCRLF buf with
    | none => exact ⟨[], buf, rfl, by simp, .inl hcrlf⟩
    | some crlf =>
      obtain ⟨hfree, hbuf⟩ := HttpContext.line_of_findCRLF hcrlf
      by_cases hcolon : 58 ∈ buf.take crlf
      · have hle := HttpContext.findCRLF_le hcrlf
        obtain ⟨lines, rest, hrest, hlines, hend⟩ :=
          ih (n - (crlf + 2)) (by omega) (buf.drop (crlf + 2)) (by rw [List.length_drop, hlength])
        refine ⟨buf.take crlf :: lines, rest, ?_, ?_, hend⟩
        · rw [terminated_cons, List.append_assoc, ← hrest]
          exact hbuf
        · rw [List.forall_mem_cons]
          exact ⟨⟨hfree, hcolon⟩, hlines⟩
      · exact ⟨[], buf, rfl, by simp, .inr ⟨_, _, hbuf, hfree, hcolon⟩⟩

namespace HttpContext

variable {ctx : HttpContext}

/-- Header lines are consumed one after another. -/
theorem Parses.of_headerLines (hstate : ctx.state = .kExpectHeaders) {lines : List Bytes}
    (hlines : ∀ line ∈ lines, IsHeaderLine line) {rest : Bytes} {p : Parsed}
    (h : Parses { ctx with request := ctx.request.addHeaders lines } rest p) :
    Parses ctx (terminated lines ++ rest) p := by
  induction lines generalizing ctx with
  | nil => exact h
  | cons line lines ih =>
    rw [List.forall_mem_cons] at hlines
    obtain ⟨⟨hfree, hcolon⟩, hlines⟩ := hlines
    rw [terminated_cons, List.append_assoc]
    refine .header hstate (findCRLF_line hfree _) ?_ ?_
    · rw [take_line]
      exact (List.idxOf_lt_length_of_mem hcolon).ne
    · rw [take_line, drop_line]
      exact ih hstate hlines h

/-- The first line without a colon ends the request. -/
theorem parses_line (hstate : ctx.state = .kExpectHeaders) {lines : List Bytes}
    (hlines : ∀ line ∈ lines, IsHeaderLine line) {line : Bytes} (hfree : ¬ kCRLF <:+: line)
    (hcolon : 58 ∉ line) (rest : Bytes) :
    Parses ctx (terminated lines ++ (line ++ kCRLF ++ rest))
      ⟨true, { state := .kGotAll, request := ctx.request.addHeaders lines }, rest⟩ := by
  refine .of_headerLines hstate hlines ?_
  have hlast := @Parses.last { ctx with request := ctx.request.addHeaders lines } _ _ hstate
    (findCRLF_line hfree rest)
  rw [take_line, drop_line] at hlast
  exact hlast (List.idxOf_eq_length hcolon)

/-- Without another complete line the headers are not finished. -/
theorem parses_wait (hstate : ctx.state = .kExpectHeaders) {lines : List Bytes}
    (hlines : ∀ line ∈ lines, IsHeaderLine line) {rest : Bytes} (hrest : findCRLF rest = none) :
    Parses ctx (terminated lines ++ rest)
      ⟨true, { ctx with request := ctx.request.addHeaders lines }, rest⟩ :=
  .of_headerLines hstate hlines (.wait (.inr hstate) hrest)

/-- What `parseRequest` returns is what the loop is known to return. -/
theorem Parses.parseRequest_eq {buf : Bytes} {p : Parsed} (h : Parses ctx buf p) :
    ctx.parseRequest buf = some p := by
  obtain ⟨q, hq, hparses⟩ := exists_parses_of_reading h.reading (Nat.lt_succ_self buf.length)
  rw [parseRequest, hq, hparses.unique h]

/-- The call of `parseRequest` consumes header lines, each of which contributes its field
and its value, and then the empty line, which finishes the request; or the empty line has
not arrived, and the request is not finished. -/
def EndsAtEmptyLine (ctx : HttpContext) (buf : Bytes) : Prop :=
  ∃ p lines, ctx.parseRequest buf = some p ∧ (∀ line ∈ lines, IsHeaderLine line) ∧
    Contributes ctx.request p.context.request lines ∧
    (p.context.state = .kGotAll ∧ buf = terminated lines ++ kCRLF ++ p.rest ∨
      p.context.state = .kExpectHeaders ∧ buf = terminated lines ++ p.rest ∧
        findCRLF p.rest = none)

/-- The first complete line without a colon is one line of the buffer. -/
theorem line_unique (hstate : ctx.state = .kExpectHeaders) {lines lines' : List Bytes}
    {line line' : Bytes} (rest rest' : Bytes) (hlines : ∀ line ∈ lines, IsHeaderLine line)
    (hfree : ¬ kCRLF <:+: line) (hcolon : 58 ∉ line)
    (hlines' : ∀ line ∈ lines', IsHeaderLine line) (hfree' : ¬ kCRLF <:+: line')
    (hcolon' : 58 ∉ line') (heq : terminated lines ++ (line ++ kCRLF ++ rest) =
      terminated lines' ++ (line' ++ kCRLF ++ rest')) : line = line' := by
  have hparse := (parses_line hstate hlines hfree hcolon rest).parseRequest_eq
  rw [heq, (parses_line hstate hlines' hfree' hcolon' rest').parseRequest_eq] at hparse
  obtain rfl : rest' = rest := congrArg Parsed.rest (Option.some.inj hparse)
  have hsame : terminated (lines ++ [line]) = terminated (lines' ++ [line']) := by
    refine (List.append_left_inj rest').mp ?_
    simpa [terminated] using heq
  have hlists := terminated_injective ?_ ?_ hsame
  · simpa using List.append_inj_right' hlists rfl
  · rw [List.forall_mem_append, List.forall_mem_singleton]
    exact ⟨fun line hline => (hlines line hline).free, hfree⟩
  · rw [List.forall_mem_append, List.forall_mem_singleton]
    exact ⟨fun line hline => (hlines' line hline).free, hfree'⟩

/-- Where the headers end at the empty line, the first line without a colon is empty. -/
theorem EndsAtEmptyLine.eq_nil {buf : Bytes} (h : EndsAtEmptyLine ctx buf)
    (hstate : ctx.state = .kExpectHeaders) {lines : List Bytes} {line rest : Bytes}
    (hbuf : buf = terminated lines ++ (line ++ kCRLF ++ rest))
    (hlines : ∀ line ∈ lines, IsHeaderLine line) (hfree : ¬ kCRLF <:+: line)
    (hcolon : 58 ∉ line) : line = [] := by
  obtain ⟨p, lines', hparse, hlines', -, hend⟩ := h
  rcases hend with ⟨-, hempty⟩ | ⟨hwait, -, -⟩
  · refine line_unique hstate rest p.rest hlines hfree hcolon hlines' (by simp [kCRLF])
      (List.not_mem_nil) ?_
    rw [← hbuf, hempty, List.append_assoc, List.nil_append]
  · have hline := (parses_line hstate hlines hfree hcolon rest).parseRequest_eq
    rw [← hbuf, hparse] at hline
    obtain rfl := Option.some.inj hline
    simp at hwait

/-- The headers end at the empty line, and only there, exactly when the first complete
line of the buffer that has no colon, if there is one, is empty. -/
theorem endsAtEmptyLine_iff (hstate : ctx.state = .kExpectHeaders) (buf : Bytes) :
    EndsAtEmptyLine ctx buf ↔ ∀ lines line rest,
      buf = terminated lines ++ (line ++ kCRLF ++ rest) → (∀ line ∈ lines, IsHeaderLine line) →
      ¬ kCRLF <:+: line → 58 ∉ line → line = [] := by
  constructor
  · intro h lines line rest hbuf hlines hfree hcolon
    exact h.eq_nil hstate hbuf hlines hfree hcolon
  · intro hempty
    obtain ⟨lines, rest, hbuf, hlines, hrest⟩ := exists_headerLines buf
    rcases hrest with hnone | ⟨line, rest', hrest, hfree, hcolon⟩
    · have hwait := (parses_wait hstate hlines hnone).parseRequest_eq
      rw [← hbuf] at hwait
      exact ⟨_, lines, hwait, hlines, ctx.request.contributes_addHeaders hlines,
        .inr ⟨hstate, hbuf, hnone⟩⟩
    · rw [hrest] at hbuf
      obtain rfl := hempty lines line rest' hbuf hlines hfree hcolon
      have hline := (parses_line hstate hlines hfree hcolon rest').parseRequest_eq
      rw [← hbuf] at hline
      exact ⟨_, lines, hline, hlines, ctx.request.contributes_addHeaders hlines,
        .inl ⟨rfl, by simpa using hbuf⟩⟩

/-- Two header lines and the empty line end where they should, with bytes of the next
request behind them; a line `abc` in front of them ends the headers too early. -/
theorem endsAtEmptyLine_iff_twoHeaders :
    EndsAtEmptyLine { state := .kExpectHeaders }
        (terminated [ascii "A: b", ascii "A:c "] ++ (kCRLF ++ ascii "GET")) ∧
      ¬ EndsAtEmptyLine { state := .kExpectHeaders }
        (ascii "abc" ++ kCRLF ++ (ascii "A: b" ++ kCRLF ++ kCRLF)) := by
  constructor
  · refine (endsAtEmptyLine_iff rfl _).mpr fun lines line rest hbuf hlines hfree hcolon => ?_
    have hstate : ({ state := .kExpectHeaders } : HttpContext).state = .kExpectHeaders := rfl
    refine (line_unique hstate (ascii "GET") rest ?_ (by decide) (by decide) hlines hfree hcolon
      hbuf).symm
    rw [List.forall_mem_cons, List.forall_mem_singleton]
    exact ⟨⟨by decide, by decide⟩, by decide, by decide⟩
  · intro h
    have hnil := (endsAtEmptyLine_iff rfl _).mp h [] (ascii "abc")
      (ascii "A: b" ++ kCRLF ++ kCRLF) rfl (by simp) (by decide) (by decide)
    exact absurd hnil (by decide)

/-- A line `abc` ends the headers, and the header line behind it is left in the buffer. -/
theorem not_endsAtEmptyLine :
    ¬ ∀ (ctx : HttpContext) (buf : Bytes), ctx.state = .kExpectHeaders →
      EndsAtEmptyLine ctx buf := by
  intro hall
  have h := hall { state := .kExpectHeaders }
    (ascii "abc" ++ kCRLF ++ (ascii "A: b" ++ kCRLF ++ kCRLF)) rfl
  have hbuf : ascii "abc" ++ kCRLF ++ (ascii "A: b" ++ kCRLF ++ kCRLF) =
      terminated [] ++ (ascii "abc" ++ kCRLF ++ (ascii "A: b" ++ kCRLF ++ kCRLF)) := rfl
  have hnil : ascii "abc" = [] := h.eq_nil rfl hbuf (by simp) (by decide) (by decide)
  exact absurd hnil (by decide)

end HttpContext

end DuoDuo.Http
