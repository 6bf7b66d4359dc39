import DuoDuo.Http.HttpContext

/-!
# The grammar of request lines

`processRequestLine` searches a line for two spaces and a question mark, and
compares what lies between them. The lines that it accepts are those of one
grammar, and the fields that it stores are the parts of the line.
-/

namespace DuoDuo.Http

/-- The token of a method. -/
def Method.token : Method → Bytes
  | .kInvalid => []
  | .kGet => ascii "GET"
  | .kPost => ascii "POST"
  | .kHead => ascii "HEAD"
  | .kPut => ascii "PUT"
  | .kDelete => ascii "DELETE"

/-- The last character of a protocol version. -/
def Version.digit : Version → UInt8
  | .kHttp10 => 48
  | _ => 49

/-- The line is a method, a target and a version of the protocol, with one space
between them. -/
structure IsRequestLine (line : Bytes) (method : Method) (target : Bytes)
    (version : Version) : Prop where
  method_known : method ≠ .kInvalid
  target_space : 32 ∉ target
  version_known : version ≠ .kUnknown
  line_eq : line = method.token ++ 32 :: (target ++ 32 :: (ascii "HTTP/1." ++ [version.digit]))

/-- A known method is recognised by its token, which contains no space. -/
theorem Method.token_spec {method : Method} (h : method ≠ .kInvalid) :
    32 ∉ method.token ∧ ¬ kCRLF <:+: method.token ∧
      HttpRequest.methodOf method.token = method := by
  cases method with
  | kInvalid => exact absurd rfl h
  | _ => decide

/-- A character that a text lacks is found behind it. -/
theorem idxOf_append {c : UInt8} {l : Bytes} (h : c ∉ l) (r : Bytes) :
    (l ++ c :: r).idxOf c = l.length := by
  simp [List.idxOf_append_of_notMem h]

/-- The first position of a character splits a text as `takeWhile` and `dropWhile` do. -/
theorem take_idxOf (c : UInt8) (l : Bytes) :
    l.take (l.idxOf c) = l.takeWhile (· ≠ c) ∧ l.drop (l.idxOf c) = l.dropWhile (· ≠ c) := by
  induction l with
  | nil => simp
  | cons a l ih =>
    by_cases h : a = c
    · subst h
      simp
    · rw [List.idxOf_cons_ne l h]
      simpa [h] using ih

/-- A text that contains a character is split at its first occurrence. -/
theorem exists_split_of_idxOf {c : UInt8} {l : Bytes} (h : l.idxOf c ≠ l.length) :
    c ∉ l.take (l.idxOf c) ∧ l = l.take (l.idxOf c) ++ c :: l.drop (l.idxOf c + 1) := by
  have hlt : l.idxOf c < l.length := lt_of_le_of_ne List.idxOf_le_length h
  constructor
  · intro hmem
    obtain ⟨i, hi, hget⟩ := List.mem_iff_getElem.mp hmem
    rw [List.length_take] at hi
    rw [List.getElem_take] at hget
    have hnot : (l[i] == c) = false := List.not_of_lt_findIdx (show i < l.idxOf c by omega)
    simp [hget] at hnot
  · have hget : l[l.idxOf c] = c := List.getElem_idxOf hlt
    calc l = l.take (l.idxOf c) ++ l.drop (l.idxOf c) := (List.take_append_drop _ l).symm
      _ = l.take (l.idxOf c) ++ c :: l.drop (l.idxOf c + 1) := by
        rw [List.drop_eq_getElem_cons hlt, hget]

namespace HttpRequest

/-- The parser splits a target at its first question mark. -/
theorem setTarget_eq {r : HttpRequest} (hquery : r.query = []) (target : Bytes) :
    r.setTarget target =
      { r with path := target.takeWhile (· ≠ 63), query := target.dropWhile (· ≠ 63) } := by
  obtain ⟨hpath, hdrop⟩ := take_idxOf 63 target
  simp only [setTarget]
  split
  · rw [hpath, hdrop]
  · next h =>
    rw [not_not] at h
    rw [← hpath, ← hdrop, h]
    simp [hquery]

/-- A version is recognised by its text. -/
theorem setVersion_eq (r : HttpRequest) {version : Version} (h : version ≠ .kUnknown) :
    r.setVersion (ascii "HTTP/1." ++ [version.digit]) = ({ r with version }, true) := by
  have hlength : (ascii "HTTP/1.").length = 7 := rfl
  cases version with
  | kUnknown => exact absurd rfl h
  | kHttp10 | kHttp11 => simp [setVersion, hlength, Version.digit]

/-- A token that names a method is its token. -/
theorem token_methodOf {m : Bytes} (h : methodOf m ≠ .kInvalid) : (methodOf m).token = m := by
  unfold methodOf at h ⊢
  split_ifs at h ⊢ with h1 h2 h3 h4 h5
  · exact h1.symm
  · exact h2.symm
  · exact h3.symm
  · exact h4.symm
  · exact h5.symm
  · exact absurd rfl h

/-- A version that is accepted is the text of a known version. -/
theorem setVersion_accepts {r : HttpRequest} {version : Bytes}
    (h : (r.setVersion version).2 = true) :
    ∃ v : Version, v ≠ .kUnknown ∧ version = ascii "HTTP/1." ++ [v.digit] := by
  simp only [setVersion] at h
  split at h
  · next htext =>
    obtain ⟨hlength, hprefix⟩ := htext
    have hlast : ∀ d, version.getLast? = some d → version = ascii "HTTP/1." ++ [d] := by
      intro d hd
      obtain ⟨init, rfl⟩ := List.getLast?_eq_some_iff.mp hd
      rw [← hprefix, List.take_left' (by simpa using hlength)]
    split at h
    · next hd => exact ⟨.kHttp11, by simp, hlast 49 hd⟩
    · split at h
      · next hd => exact ⟨.kHttp10, by simp, hlast 48 hd⟩
      · simp at h
  · simp at h

/-- A line that is accepted has the form of a request line. -/
theorem isRequestLine_of_accepted {r : HttpRequest} {line : Bytes}
    (h : (r.processRequestLine line).2 = true) :
    ∃ method target version, IsRequestLine line method target version := by
  simp only [processRequestLine, setMethod, decide_eq_true_eq] at h
  split at h
  · next hspace =>
    split at h
    · next hknown =>
      split at h
      · next hspace' =>
        obtain ⟨-, hline⟩ := exists_split_of_idxOf hspace
        obtain ⟨htarget, hstart⟩ := exists_split_of_idxOf hspace'
        obtain ⟨version, hversion, htext⟩ := setVersion_accepts h
        have hmethod : methodOf (line.take (line.idxOf 32)) ≠ .kInvalid := hknown
        refine ⟨_, _, version, hmethod, htarget, hversion, ?_⟩
        rw [token_methodOf hmethod, ← htext, ← hstart]
        exact hline
      · simp at h
    · simp at h
  · simp at h

/-- The target does not concern the method. -/
theorem setTarget_method (r : HttpRequest) (target : Bytes) :
    (r.setTarget target).method = r.method ∧
      (r.setTarget target).assertionFailed = r.assertionFailed := by
  simp only [setTarget]
  split <;> exact ⟨rfl, rfl⟩

/-- The version does not concern the method. -/
theorem setVersion_method (r : HttpRequest) (version : Bytes) :
    (r.setVersion version).1.method = r.method ∧
      (r.setVersion version).1.assertionFailed = r.assertionFailed := by
  simp only [setVersion]
  split_ifs <;> exact ⟨rfl, rfl⟩

/-- The method is stored whenever the line has a space, and the assertion of `setMethod`
is checked then. -/
theorem processRequestLine_method (r : HttpRequest) (line : Bytes) :
    (r.processRequestLine line).1.method =
        (if 32 ∈ line then methodOf (line.take (line.idxOf 32)) else r.method) ∧
      (r.processRequestLine line).1.assertionFailed =
        (r.assertionFailed || (decide (32 ∈ line) && decide (r.method ≠ .kInvalid))) := by
  have hspace : line.idxOf 32 ≠ line.length ↔ 32 ∈ line := by
    rw [ne_eq, List.idxOf_eq_length_iff, not_not]
  simp only [processRequestLine, hspace, setMethod, decide_eq_true_eq]
  split_ifs <;> simp_all [setTarget_method, setVersion_method]

/-- Whether a line is accepted does not depend on the request. -/
theorem processRequestLine_accepted (r r' : HttpRequest) (line : Bytes) :
    (r.processRequestLine line).2 = (r'.processRequestLine line).2 := by
  have hversion : ∀ (r r' : HttpRequest) version,
      (r.setVersion version).2 = (r'.setVersion version).2 := by
    intro r r' version
    simp only [setVersion]
    split_ifs <;> rfl
  simp only [processRequestLine, setMethod, decide_eq_true_eq]
  split_ifs
  · exact hversion _ _ _
  · rfl
  · rfl
  · rfl

/-- A line of that form is accepted by a fresh request, which then holds its parts. -/
theorem processRequestLine_of_isRequestLine {line : Bytes} {method : Method} {target : Bytes}
    {version : Version} (h : IsRequestLine line method target version) :
    processRequestLine {} line = ({
      method := method
      version := version
      path := target.takeWhile (· ≠ 63)
      query := target.dropWhile (· ≠ 63) }, true) := by
  obtain ⟨hspace, -, hmethod⟩ := Method.token_spec h.method_known
  have hline := h.line_eq
  set text := ascii "HTTP/1." ++ [version.digit] with htext
  have hidx : line.idxOf 32 = method.token.length := by
    rw [hline]
    exact idxOf_append hspace _
  have hne : method.token.length ≠ line.length := by simp [hline]
  have htoken : line.take method.token.length = method.token := by simp [hline]
  have hstart : line.drop (method.token.length + 1) = target ++ 32 :: text := by
    rw [← List.drop_drop]
    simp [hline]
  have hidx' : (target ++ 32 :: text).idxOf 32 = target.length :=
    idxOf_append h.target_space _
  have hne' : target.length ≠ (target ++ 32 :: text).length := by simp
  have htarget : (target ++ 32 :: text).take target.length = target := by simp
  have hrest : (target ++ 32 :: text).drop (target.length + 1) = text := by
    rw [← List.drop_drop]
    simp
  have hset : setMethod {} method.token = ({ method := method }, true) := by
    simp [setMethod, hmethod, h.method_known]
  unfold processRequestLine
  simp only [hidx, htoken, hset, hstart, hidx', htarget, hrest, if_true]
  rw [if_pos hne, if_pos hne', setTarget_eq rfl, setVersion_eq _ h.version_known]

/-- A line is accepted, whatever the request, exactly when it has that form. -/
theorem processRequestLine_eq_true_iff {r : HttpRequest} {line : Bytes} :
    (r.processRequestLine line).2 = true ↔
      ∃ method target version, IsRequestLine line method target version := by
  refine ⟨isRequestLine_of_accepted, ?_⟩
  rintro ⟨method, target, version, h⟩
  rw [processRequestLine_accepted r {}, processRequestLine_of_isRequestLine h]

/-- A line is rejected, whatever the request, exactly when it does not have that form. -/
theorem processRequestLine_eq_false_iff {r : HttpRequest} {line : Bytes} :
    (r.processRequestLine line).2 = false ↔
      ¬ ∃ method target version, IsRequestLine line method target version := by
  rw [← processRequestLine_eq_true_iff (r := r), Bool.not_eq_true]

/-- The request lines that the parser accepts are those of the grammar, and a fresh
request then holds the method, the target split at its first question mark, and the
version. -/
theorem processRequestLine_grammar (line : Bytes) :
    ((processRequestLine {} line).2 = true ↔
      ∃ method target version, IsRequestLine line method target version) ∧
    ∀ method target version, IsRequestLine line method target version →
      (processRequestLine {} line).1.method = method ∧
      (processRequestLine {} line).1.version = version ∧
      (processRequestLine {} line).1.path = target.takeWhile (· ≠ 63) ∧
      (processRequestLine {} line).1.path ++ (processRequestLine {} line).1.query = target := by
  refine ⟨processRequestLine_eq_true_iff, ?_⟩
  intro method target version h
  rw [processRequestLine_of_isRequestLine h]
  exact ⟨rfl, rfl, rfl, List.takeWhile_append_dropWhile⟩

end HttpRequest

end DuoDuo.Http
