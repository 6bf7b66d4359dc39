import DuoDuo.Http.Pipelining
import Mathlib

/-!
# Reading responses back

`appendToBuffer` writes a status line, header lines, an empty line and a body. A client
reads the lines up to the empty one, and then as many bytes as the length says, or all that
come when there is none. From a stream of responses it reads the responses.
-/

namespace DuoDuo.Http

open Library RequestMessage

/-- What a client reads of a response. -/
structure ClientResponse where
  statusCode : ℕ
  statusMessage : Bytes
  headers : List (Bytes × Bytes)
  body : Bytes
  deriving DecidableEq, Repr

/-- A decimal number. -/
def decimal (digits : Bytes) : Option ℕ :=
  if digits ≠ [] ∧ ∀ c ∈ digits, 48 ≤ c ∧ c ≤ 57 then
    some (digits.foldl (fun n c => 10 * n + (c.toNat - 48)) 0)
  else none

/-- The parts of a status line. -/
def readStatus (line : Bytes) : Option (ℕ × Bytes) :=
  let rest := line.drop 9
  let space := rest.idxOf 32
  if line.take 9 = ascii "HTTP/1.1 " ∧ space ≠ rest.length then
    (decimal (rest.take space)).map fun code => (code, rest.drop (space + 1))
  else none

/-- The name and the value of a header line. -/
def readField (line : Bytes) : Option (Bytes × Bytes) :=
  let colon := line.idxOf 58
  if (line.drop colon).take 2 = ascii ": " then some (line.take colon, line.drop (colon + 2))
  else none

/-- The lines up to the empty one, and what follows it. Every line takes fuel. -/
def readLines : ℕ → Bytes → Option (List Bytes × Bytes)
  | 0, _ => none
  | fuel + 1, stream =>
    match findCRLF stream with
    | none => none
    | some 0 => some ([], stream.drop 2)
    | some crlf => (readLines fuel (stream.drop (crlf + 2))).map fun p =>
        (stream.take crlf :: p.1, p.2)

/-- The body of a response with the given headers. -/
def readBody (headers : List (Bytes × Bytes)) (stream : Bytes) : Option (Bytes × Bytes) :=
  match headers.lookup (ascii "Content-Length") with
  | none => some (stream, [])
  | some digits => do
    let length ← decimal digits
    if stream.length < length then none else some (stream.take length, stream.drop length)

/-- The first response of a stream, and what follows it. -/
def readResponse (stream : Bytes) : Option (ClientResponse × Bytes) := do
  let (lines, stream) ← readLines (stream.length + 1) stream
  let (statusCode, statusMessage) ← readStatus (← lines.head?)
  let headers ← lines.tail.mapM readField
  let (body, stream) ← readBody headers stream
  some (⟨statusCode, statusMessage, headers, body⟩, stream)

/-- The responses of a stream up to its end. -/
def readResponses : ℕ → Bytes → Option (List ClientResponse)
  | _, [] => some []
  | 0, _ => none
  | fuel + 1, stream => do
    let (response, stream) ← readResponse stream
    (readResponses fuel stream).map (response :: ·)

/-- The digits of a number. -/
theorem ascii_toString (n : ℕ) : ascii (toString n) = (Nat.toDigits 10 n).map Char.toUInt8 := by
  rw [ascii, Nat.toString_eq_repr, Nat.toList_repr]

/-- A digit is the same number as a character and as a byte. -/
theorem toNat_toUInt8_digit {n : ℕ} {c : Char} (h : c ∈ Nat.toDigits 10 n) :
    c.toUInt8.toNat = c.toNat ∧ 48 ≤ c.toNat ∧ c.toNat ≤ 57 := by
  have hdigit := Char.isDigit_iff_toNat.mp
    (Nat.isDigit_of_mem_toDigits (b := 10) (by decide) (by decide) h)
  have hbounds : 48 ≤ c.toNat ∧ c.toNat ≤ 57 := hdigit
  have hbyte : c.toUInt8.toNat = c.toNat % 2 ^ 8 := UInt32.toNat_toUInt8 c.val
  exact ⟨by omega, hbounds⟩

/-- The digits of a number are digits. -/
theorem digit_of_mem {n : ℕ} {b : UInt8} (h : b ∈ ascii (toString n)) : 48 ≤ b ∧ b ≤ 57 := by
  rw [ascii_toString] at h
  obtain ⟨c, hc, rfl⟩ := List.mem_map.mp h
  obtain ⟨hbyte, hlow, hhigh⟩ := toNat_toUInt8_digit hc
  rw [UInt8.le_iff_toNat_le, UInt8.le_iff_toNat_le, hbyte]
  exact ⟨hlow, hhigh⟩

/-- A number is read as it was printed. -/
theorem decimal_toString (n : ℕ) : decimal (ascii (toString n)) = some n := by
  have hne : ascii (toString n) ≠ [] := by
    rw [ascii_toString]
    simp
  have hfold : ∀ (l : List Char) (init : ℕ), (∀ c ∈ l, c.toUInt8.toNat = c.toNat) →
      (l.map Char.toUInt8).foldl (fun n c => 10 * n + (c.toNat - 48)) init =
        Nat.ofDigitChars 10 l init := by
    intro l
    induction l with
    | nil => simp
    | cons c l ih =>
      intro init hl
      rw [List.forall_mem_cons] at hl
      rw [List.map_cons, List.foldl_cons, Nat.ofDigitChars_cons, hl.1]
      exact ih _ hl.2
  rw [decimal, if_pos ⟨hne, fun b => digit_of_mem⟩, ascii_toString,
    hfold _ _ fun c hc => (toNat_toUInt8_digit hc).1, Nat.ofDigitChars_ten_toDigits]

/-- Lines that are not empty are read up to the empty line. -/
theorem readLines_terminated {lines : List Bytes}
    (hlines : ∀ line ∈ lines, line ≠ [] ∧ ¬ kCRLF <:+: line) (rest : Bytes) {fuel : ℕ}
    (hfuel : lines.length < fuel) :
    readLines fuel (terminated (lines ++ [[]]) ++ rest) = some (lines, rest) := by
  induction lines generalizing fuel with
  | nil =>
    obtain ⟨fuel, rfl⟩ : ∃ k, fuel = k + 1 := ⟨fuel - 1, by omega⟩
    have hfree : ¬ kCRLF <:+: ([] : Bytes) := by decide
    have hline : findCRLF (terminated ([] ++ [[]]) ++ rest) = some 0 := findCRLF_line hfree rest
    rw [readLines, hline]
    rfl
  | cons line lines ih =>
    obtain ⟨fuel, rfl⟩ : ∃ k, fuel = k + 1 := ⟨fuel - 1, by omega⟩
    rw [List.forall_mem_cons] at hlines
    obtain ⟨⟨hne, hfree⟩, hlines⟩ := hlines
    obtain ⟨n, hn⟩ : ∃ n, line.length = n + 1 :=
      Nat.exists_eq_succ_of_ne_zero (by simpa using hne)
    rw [List.cons_append, terminated_cons, List.append_assoc, readLines, findCRLF_line hfree]
    have hfuel' : lines.length < fuel := by simpa using hfuel
    have hrest := ih hlines hfuel'
    have htake := take_line line (terminated (lines ++ [[]]) ++ rest)
    have hdrop := drop_line line (terminated (lines ++ [[]]) ++ rest)
    rw [hn] at htake hdrop ⊢
    simp only [htake, hdrop, hrest]
    rfl

/-- The bytes that follow are fuel enough for the lines. -/
theorem readLines_fuel (lines : List Bytes) (rest : Bytes) :
    lines.length < (terminated (lines ++ [[]]) ++ rest).length + 1 := by
  induction lines with
  | nil => exact Nat.succ_pos _
  | cons line lines ih =>
    rw [List.cons_append, terminated_cons]
    simp only [List.length_append, List.length_cons] at ih ⊢
    have hdelimiter : kCRLF.length = 2 := rfl
    omega

theorem ascii_colon : ascii ": " = [58, 32] := by decide

theorem ascii_space : ascii " " = [32] := by decide

/-- A header line. -/
def fieldLine (header : Bytes × Bytes) : Bytes := header.1 ++ ascii ": " ++ header.2

/-- A header line is read as it was written. -/
theorem readField_fieldLine {header : Bytes × Bytes} (h : 58 ∉ header.1) :
    readField (fieldLine header) = some header := by
  have hline : fieldLine header = header.1 ++ 58 :: 32 :: header.2 := by
    simp [fieldLine, ascii_colon]
  have hcolon : (fieldLine header).idxOf 58 = header.1.length := by
    rw [hline]
    exact idxOf_append h _
  have hdrop : (fieldLine header).drop header.1.length = 58 :: 32 :: header.2 := by
    rw [hline, List.drop_left]
  have hvalue : (fieldLine header).drop (header.1.length + 2) = header.2 := by
    rw [← List.drop_drop, hdrop]
    rfl
  have htake : (fieldLine header).take header.1.length = header.1 := by
    rw [hline, List.take_left]
  rw [readField]
  simp only [hcolon, hdrop, hvalue, htake]
  rfl

namespace HttpResponse

/-- The headers that `appendToBuffer` writes for the connection. -/
def framing (resp : HttpResponse) : List (Bytes × Bytes) :=
  if resp.closeConnection then [(ascii "Connection", ascii "close")]
  else [(ascii "Content-Length", ascii (toString resp.body.length)),
    (ascii "Connection", ascii "Keep-Alive")]

/-- The status line. -/
def statusLine (resp : HttpResponse) : Bytes :=
  ascii "HTTP/1.1 " ++ (ascii (toString resp.statusCode) ++ 32 :: resp.statusMessage)

/-- What a client is to read of a response. -/
def toClient (resp : HttpResponse) : ClientResponse where
  statusCode := resp.statusCode
  statusMessage := resp.statusMessage
  headers := resp.framing ++ resp.headers
  body := resp.body

/-- A response that can be written down: its lines contain no delimiter, the names of its
headers contain no colon, and the length of its body is not a header of its own. It fits into
a buffer. -/
structure WellFormed (resp : HttpResponse) : Prop where
  statusMessage : ¬ kCRLF <:+: resp.statusMessage
  names : ∀ header ∈ resp.headers, 58 ∉ header.1 ∧ header.1 ≠ ascii "Content-Length"
  lines : ∀ header ∈ resp.headers, ¬ kCRLF <:+: fieldLine header
  fits : resp.appendToBuffer.length < 2 ^ 31

/-- A response is its lines, the empty line and the body. -/
theorem appendToBuffer_eq (resp : HttpResponse) :
    resp.appendToBuffer = terminated ((resp.statusLine ::
      (resp.framing ++ resp.headers).map fieldLine) ++ [[]]) ++ resp.body := by
  have hheaders : resp.headers.flatMap (fun header => header.1 ++ ascii ": " ++ header.2 ++ kCRLF) =
      terminated (resp.headers.map fieldLine) := by
    rw [terminated, List.flatMap_map]
    rfl
  have hframing : (if resp.closeConnection then ascii "Connection: close" ++ kCRLF
      else ascii "Content-Length: " ++ ascii (toString resp.body.length) ++ kCRLF ++
        ascii "Connection: Keep-Alive" ++ kCRLF) = terminated (resp.framing.map fieldLine) := by
    rw [framing]
    split
    · rfl
    · simp [terminated, fieldLine, ascii]
  rw [appendToBuffer, hframing, hheaders]
  simp [terminated, statusLine, ascii_space]

variable {resp : HttpResponse}

/-- The status line is read as it was written. -/
theorem readStatus_statusLine (resp : HttpResponse) :
    readStatus resp.statusLine = some (resp.statusCode, resp.statusMessage) := by
  have hspace : (32 : UInt8) ∉ ascii (toString resp.statusCode) := by
    intro hmem
    have hdigit := digit_of_mem hmem
    revert hdigit
    decide
  have hlength : (ascii "HTTP/1.1 ").length = 9 := rfl
  have htake : resp.statusLine.take 9 = ascii "HTTP/1.1 " := List.take_left' hlength
  have hdrop : resp.statusLine.drop 9 =
      ascii (toString resp.statusCode) ++ 32 :: resp.statusMessage := List.drop_left' hlength
  have hidx := idxOf_append hspace resp.statusMessage
  have hne : (ascii (toString resp.statusCode)).length ≠
      (ascii (toString resp.statusCode) ++ 32 :: resp.statusMessage).length := by
    rw [List.length_append, List.length_cons]
    omega
  have hmessage : (ascii (toString resp.statusCode) ++ 32 :: resp.statusMessage).drop
      ((ascii (toString resp.statusCode)).length + 1) = resp.statusMessage := by
    rw [← List.drop_drop, List.drop_left]
    rfl
  rw [readStatus, htake, hdrop]
  simp only [hidx, true_and]
  rw [if_pos hne, List.take_left, decimal_toString, hmessage]
  rfl

/-- Digits contain no delimiter. -/
theorem digits_free (n : ℕ) : ¬ kCRLF <:+: ascii (toString n) := by
  intro hinfix
  have hdigit := digit_of_mem (List.IsInfix.subset hinfix (List.mem_cons_self (a := 13)))
  revert hdigit
  decide

/-- A line of two parts that contain no delimiter, with a space between them. -/
theorem free_append_space {l r : Bytes} (hl : ¬ kCRLF <:+: l) (hr : ¬ kCRLF <:+: r) :
    ¬ kCRLF <:+: l ++ 32 :: r := by
  have hspace : (32 : UInt8) ≠ 13 ∧ (32 : UInt8) ≠ 10 := by decide
  rw [kCRLF, delimiter_infix_append_cons hspace.1 hspace.2]
  exact not_or.mpr ⟨hl, hr⟩

/-- No line of a response is empty, and none contains a delimiter. -/
theorem WellFormed.free (h : resp.WellFormed) :
    ∀ line ∈ resp.statusLine :: (resp.framing ++ resp.headers).map fieldLine,
      line ≠ [] ∧ ¬ kCRLF <:+: line := by
  have hne : ∀ header, fieldLine header ≠ [] := by
    intro header hnil
    have hlength := congrArg List.length hnil
    rw [fieldLine, ascii_colon] at hlength
    simp at hlength
  rw [List.forall_mem_cons]
  refine ⟨⟨by simp [statusLine], ?_⟩, ?_⟩
  · have hhead : ¬ kCRLF <:+: ascii "HTTP/1.1" ++ 32 :: ascii (toString resp.statusCode) :=
      free_append_space (by decide) (digits_free _)
    have hline := free_append_space hhead h.statusMessage
    have hsplit : ascii "HTTP/1.1 " = ascii "HTTP/1.1" ++ [32] := by decide
    rw [statusLine, hsplit]
    simpa using hline
  · intro line hline
    obtain ⟨header, hmem, rfl⟩ := List.mem_map.mp hline
    refine ⟨hne header, ?_⟩
    rcases List.mem_append.mp hmem with hmem | hmem
    · rw [framing] at hmem
      split at hmem
      · rw [List.mem_singleton.mp hmem]
        decide
      · rcases List.mem_cons.mp hmem with rfl | hmem
        · have hline : fieldLine (ascii "Content-Length", ascii (toString resp.body.length)) =
              ascii "Content-Length:" ++ 32 :: ascii (toString resp.body.length) := by
            have hsplit : ascii "Content-Length:" = ascii "Content-Length" ++ [58] := by decide
            simp [fieldLine, ascii_colon, hsplit]
          rw [hline]
          exact free_append_space (by decide) (digits_free _)
        · rw [List.mem_singleton.mp hmem]
          decide
    · exact h.lines header hmem

/-- The headers are read as they were written. -/
theorem WellFormed.mapM_readField (h : resp.WellFormed) :
    ((resp.framing ++ resp.headers).map fieldLine).mapM readField =
      some (resp.framing ++ resp.headers) := by
  have hnames : ∀ header ∈ resp.framing ++ resp.headers, 58 ∉ header.1 := by
    intro header hmem
    rcases List.mem_append.mp hmem with hmem | hmem
    · rw [framing] at hmem
      split at hmem
      · rw [List.mem_singleton.mp hmem]
        decide
      · rcases List.mem_cons.mp hmem with rfl | hmem
        · dsimp only
          decide
        · rw [List.mem_singleton.mp hmem]
          decide
    · exact (h.names header hmem).1
  generalize resp.framing ++ resp.headers = headers at hnames
  induction headers with
  | nil => rfl
  | cons header headers ih =>
    rw [List.forall_mem_cons] at hnames
    rw [List.map_cons, List.mapM_cons, readField_fieldLine hnames.1, ih hnames.2]
    rfl

/-- What is read of a response before its body. -/
theorem WellFormed.readResponse_eq (h : resp.WellFormed) (rest : Bytes) :
    readResponse (resp.appendToBuffer ++ rest) =
      (readBody (resp.framing ++ resp.headers) (resp.body ++ rest)).map fun p =>
        (⟨resp.statusCode, resp.statusMessage, resp.framing ++ resp.headers, p.1⟩, p.2) := by
  have hstream : resp.appendToBuffer ++ rest = terminated ((resp.statusLine ::
      (resp.framing ++ resp.headers).map fieldLine) ++ [[]]) ++ (resp.body ++ rest) := by
    rw [resp.appendToBuffer_eq, List.append_assoc]
  have hlines := readLines_terminated h.free (resp.body ++ rest)
    (readLines_fuel _ (resp.body ++ rest))
  rw [readResponse, hstream, hlines]
  simp only [Option.bind_eq_bind, Option.bind_some, List.head?_cons, List.tail_cons,
    resp.readStatus_statusLine, h.mapM_readField]
  cases readBody (resp.framing ++ resp.headers) (resp.body ++ rest) <;> rfl

/-- A response that keeps the connection alive is read back, and what follows it is left. -/
theorem WellFormed.readResponse_keepAlive (h : resp.WellFormed)
    (hclose : resp.closeConnection = false) (rest : Bytes) :
    readResponse (resp.appendToBuffer ++ rest) = some (resp.toClient, rest) := by
  have hbody : readBody (resp.framing ++ resp.headers) (resp.body ++ rest) =
      some (resp.body, rest) := by
    have hlookup : (resp.framing ++ resp.headers).lookup (ascii "Content-Length") =
        some (ascii (toString resp.body.length)) := by
      rw [framing, hclose]
      exact List.lookup_cons_self
    have hlength : ¬ (resp.body ++ rest).length < resp.body.length := by
      rw [List.length_append]
      omega
    rw [readBody, hlookup]
    simp only [decimal_toString, Option.bind_eq_bind, Option.bind_some, if_neg hlength,
      List.take_left, List.drop_left]
  rw [h.readResponse_eq, hbody]
  rfl

/-- A response that closes the connection is read back up to the end of the stream. -/
theorem WellFormed.readResponse_close (h : resp.WellFormed)
    (hclose : resp.closeConnection = true) :
    readResponse resp.appendToBuffer = some (resp.toClient, []) := by
  have hbody : readBody (resp.framing ++ resp.headers) (resp.body ++ []) =
      some (resp.body, []) := by
    have hlookup : (resp.framing ++ resp.headers).lookup (ascii "Content-Length") = none := by
      rw [List.lookup_eq_none_iff]
      intro header hmem
      rw [framing, hclose] at hmem
      rcases List.mem_cons.mp hmem with rfl | hmem
      · decide
      · simpa using Ne.symm (h.names header hmem).2
    rw [readBody, hlookup, List.append_nil]
  have hread := h.readResponse_eq []
  rw [hbody, List.append_nil] at hread
  exact hread

theorem appendToBuffer_ne_nil (resp : HttpResponse) : resp.appendToBuffer ≠ [] := by
  intro hnil
  have hlength := congrArg List.length hnil
  rw [appendToBuffer_eq, List.cons_append, terminated_cons] at hlength
  simp [kCRLF] at hlength

end HttpResponse

/-- A client reads responses one after another. -/
inductive Reads : Bytes → List ClientResponse → Prop
  | nil : Reads [] []
  | cons {stream rest : Bytes} {response : ClientResponse} {responses : List ClientResponse} :
      stream ≠ [] → readResponse stream = some (response, rest) → Reads rest responses →
      Reads stream (response :: responses)

/-- With fuel for every response the reader reads them all. -/
theorem Reads.readResponses_eq {stream : Bytes} {responses : List ClientResponse}
    (h : Reads stream responses) {fuel : ℕ} (hfuel : responses.length ≤ fuel) :
    readResponses fuel stream = some responses := by
  induction h generalizing fuel with
  | nil => cases fuel <;> rfl
  | @cons stream rest response responses hne hread _ ih =>
    obtain ⟨fuel, rfl⟩ : ∃ k, fuel = k + 1 := ⟨fuel - 1, by simp at hfuel; omega⟩
    obtain ⟨b, stream, rfl⟩ := List.exists_cons_of_ne_nil hne
    rw [readResponses]
    · simp only [hread, Option.bind_eq_bind, Option.bind_some, ih (Nat.le_of_succ_le_succ hfuel),
        Option.map_some]
    · nofun

/-- Responses that keep the connection alive are read, and then what follows them. -/
theorem Reads.append {responses : List HttpResponse}
    (hwell : ∀ resp ∈ responses, resp.WellFormed ∧ resp.closeConnection = false) {rest : Bytes}
    {others : List ClientResponse} (h : Reads rest others) :
    Reads (responses.flatMap HttpResponse.appendToBuffer ++ rest)
      (responses.map HttpResponse.toClient ++ others) := by
  induction responses with
  | nil => exact h
  | cons resp responses ih =>
    rw [List.forall_mem_cons] at hwell
    rw [List.flatMap_cons, List.append_assoc]
    refine .cons ?_ (hwell.1.1.readResponse_keepAlive hwell.1.2 _) (ih hwell.2)
    exact fun hnil => resp.appendToBuffer_ne_nil (List.append_eq_nil_iff.mp hnil).1

/-- A stream of responses that keep the connection alive is read back: as many responses, in
order, each with its status, its headers and its body, and nothing is left over. -/
theorem readResponses_flatMap (responses : List HttpResponse)
    (hwell : ∀ resp ∈ responses, resp.WellFormed ∧ resp.closeConnection = false) :
    readResponses responses.length (responses.flatMap HttpResponse.appendToBuffer) =
      some (responses.map HttpResponse.toClient) := by
  have hreads := Reads.append hwell .nil
  rw [List.append_nil, List.append_nil] at hreads
  exact hreads.readResponses_eq (List.length_map _).le

/-- Two responses, of which the first has a body that looks like a response. -/
def twoResponses : List HttpResponse :=
  [{ statusCode := 200, statusMessage := ascii "OK", closeConnection := false,
      body := ascii "HTTP/1.1 404 Not Found\r\n\r\n" },
    { statusCode := 301, statusMessage := ascii "Moved Permanently", closeConnection := false,
      headers := [(ascii "Location", ascii "/index.html")] }]

theorem readResponses_flatMap_twoResponses :
    readResponses 2 (twoResponses.flatMap HttpResponse.appendToBuffer) =
      some (twoResponses.map HttpResponse.toClient) := by
  refine readResponses_flatMap twoResponses ?_
  intro resp hmem
  rcases List.mem_cons.mp hmem with rfl | hmem
  · exact ⟨⟨by decide, by decide, by decide, by decide⟩, rfl⟩
  · rw [List.mem_singleton.mp hmem]
    exact ⟨⟨by decide, by decide, by decide, by decide⟩, rfl⟩

end DuoDuo.Http
