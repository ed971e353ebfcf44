import ScriptLang.Proofs.Parse.Acceptance
import ScriptLang.Proofs.Text.Utf8
import ScriptLang.Proofs.Token.Window
import ScriptLang.Script

/-!
# Loading files

A file is decoded while its tokens are read. If it holds the UTF-8 encoding of a text this comes to
the same as loading that text. If not, some request for a character fails. The tokens before it are
read all the same, and so may be a character after it, but no script comes of them.
-/

namespace ScriptLang

open Text.Utf8 (decode)

/-! ## Requests -/

section Requests

variable {ε ε' : Type}

/-- Requests give characters up to the end of the source, or up to one that fails. -/
theorem eq_map_ok_or_exists_error (requests : List (Except ε Char)) :
    (∃ cs : List Char, requests = cs.map .ok) ∨
      ∃ (cs : List Char) (e : ε) (later : List (Except ε Char)),
        requests = cs.map .ok ++ .error e :: later := by
  induction requests with
  | nil => exact .inl ⟨[], rfl⟩
  | cons r requests ih =>
    cases r with
    | error e => exact .inr ⟨[], e, requests, rfl⟩
    | ok c =>
      rcases ih with ⟨cs, rfl⟩ | ⟨cs, e, later, rfl⟩
      · exact .inl ⟨c :: cs, rfl⟩
      · exact .inr ⟨c :: cs, e, later, rfl⟩

theorem map_ok_ne_append_error (cs cs' : List Char) (e : ε) (later : List (Except ε Char)) :
    cs.map .ok ≠ cs'.map .ok ++ .error e :: later := by
  intro h
  have hmem : Except.error e ∈ cs.map Except.ok := h ▸ List.mem_append_right _ List.mem_cons_self
  obtain ⟨c, -, hc⟩ := List.mem_map.mp hmem
  cases hc

theorem map_mapError_eq_map_ok_iff {f : ε → ε'} {requests : List (Except ε Char)}
    {cs : List Char} : requests.map (Except.mapError f) = cs.map .ok ↔ requests = cs.map .ok := by
  induction requests generalizing cs with
  | nil => cases cs <;> simp
  | cons r requests ih =>
    cases cs with
    | nil => simp
    | cons c cs => cases r <;> simp [Except.mapError, ih]

end Requests

/-- Bytes are valid UTF-8 just if every request for a character of a file with them gives one. -/
theorem File.isValidUTF8_iff {bytes : ByteArray} :
    bytes.IsValidUTF8 ↔ ∃ cs : List Char, (contents bytes).requests = cs.map .ok := by
  rw [Text.Utf8.isValidUTF8_iff]
  exact exists_congr fun cs => map_mapError_eq_map_ok_iff.symm

theorem File.requests_toUTF8 (source : String) :
    (contents source.toUTF8).requests = source.toList.map .ok :=
  map_mapError_eq_map_ok_iff.mpr (Text.Utf8.decode_toUTF8 source)

namespace Reading

section Tail

variable {tail : List (Except ReadError Char)} (htail : ∀ c, tail.head? ≠ some (.ok c))
include htail

/-- The parser asks for all tokens up to the end token, whatever errors it finds. -/
theorem pulled_parseRead_lexemes (cs : List Char) :
    (parseRead (Window.ofRequests (cs.map .ok ++ tail)).lexemes.1).pulled =
      (Window.ofRequests (cs.map .ok ++ tail)).lexemes.1.length := by
  obtain ⟨htokens, -⟩ := Window.lexemes_ofRequests htail cs
  obtain ⟨xs, e, hxs, hne, -⟩ := (CharStream.ofChars cs).lexemes_eq_append_eof
  rw [htokens, hxs]
  exact pulled_parseTokens _ hne

/-- So requests are made up to the first one that fails, and one more. -/
theorem ofRequests_append (cs : List Char) :
    ofRequests (cs.map .ok ++ tail) = ⟨parseRead (CharStream.ofChars cs).lexemes.1, cs.length + 2,
      (cs.map Except.ok ++ tail).take (cs.length + 2)⟩ := by
  obtain ⟨htokens, hasked⟩ := Window.lexemes_ofRequests htail cs
  unfold ofRequests
  dsimp only
  rw [pulled_parseRead_lexemes htail, Window.pull_length_lexemes, htokens, hasked]

end Tail

/-- The parser asks for all tokens that there are to be read. -/
theorem pulled_ofRequests (requests : List (Except ReadError Char)) :
    (ofRequests requests).parsed.pulled = (Window.ofRequests requests).lexemes.1.length := by
  rcases eq_map_ok_or_exists_error requests with ⟨cs, rfl⟩ | ⟨cs, e, later, rfl⟩
  · rw [← List.append_nil (cs.map Except.ok)]
    exact pulled_parseRead_lexemes (fun c h => by cases h) cs
  · exact pulled_parseRead_lexemes (fun c h => by cases h) cs

/-- All of a source is asked for if no request fails. -/
theorem ofRequests_map_ok (cs : List Char) :
    ofRequests (cs.map .ok) =
      ⟨parseRead (CharStream.ofChars cs).lexemes.1, cs.length + 2, cs.map .ok⟩ := by
  have hend : ∀ c, ([] : List (Except ReadError Char)).head? ≠ some (.ok c) :=
    fun c h => by cases h
  have hread := ofRequests_append hend cs
  rwa [List.append_nil, List.take_of_length_le (by rw [List.length_map]; omega)] at hread

/-- Otherwise the source is asked for up to the first request that fails, and one more is made. -/
theorem ofRequests_append_error (cs : List Char) (e : ReadError)
    (later : List (Except ReadError Char)) :
    ofRequests (cs.map .ok ++ .error e :: later) =
      ⟨parseRead (CharStream.ofChars cs).lexemes.1, cs.length + 2,
        cs.map .ok ++ .error e :: later.take 1⟩ := by
  have hend : ∀ c, (Except.error e :: later).head? ≠ some (.ok c) := fun c h => by cases h
  have htake : (cs.map Except.ok ++ Except.error e :: later).take (cs.length + 2) =
      cs.map .ok ++ .error e :: later.take 1 := by
    rw [List.take_append, List.length_map, List.take_of_length_le (by rw [List.length_map]; omega),
      Nat.add_sub_cancel_left]
    rfl
  rw [ofRequests_append hend, htake]

theorem filterMap_requestError?_map_ok (cs : List Char) :
    (cs.map Except.ok).filterMap requestError? = [] := by
  rw [List.filterMap_map]
  exact List.filterMap_eq_nil_iff.mpr fun c _ => rfl

theorem error?_of_map_ok {parsed : Parsed} {asked : Nat} (cs : List Char) :
    error? ⟨parsed, asked, cs.map .ok⟩ = none := by
  rw [error?, filterMap_requestError?_map_ok]
  rfl

/-- The last error is that of the last request, or of the one before it. -/
theorem error?_of_append_error {parsed : Parsed} {asked : Nat} (cs : List Char)
    (e : ReadError) (later : List (Except ReadError Char)) :
    error? ⟨parsed, asked, cs.map .ok ++ .error e :: later.take 1⟩ =
      some ((later.head?.bind requestError?).getD e) := by
  rw [error?, List.filterMap_append, filterMap_requestError?_map_ok]
  cases later with
  | nil => rfl
  | cons r later => cases r <;> rfl

theorem source_of_map_ok {parsed : Parsed} {asked : Nat} (text : String) :
    source ⟨parsed, asked, text.toList.map .ok⟩ = text := by
  rw [source, List.filterMap_map]
  show String.ofList (text.toList.filterMap some) = text
  rw [List.filterMap_some, String.ofList_toList]

end Reading

namespace Script

variable {path : String} {requests : List (Except ReadError Char)}

theorem loadRequests_of_error {e : ReadError} (h : (Reading.ofRequests requests).error? = some e) :
    (loadRequests path requests).outcome = .error (.input e) := by
  unfold loadRequests
  dsimp only
  rw [h]

theorem loadRequests_of_no_error (h : (Reading.ofRequests requests).error? = none) :
    loadRequests path requests = ofParsed path (Reading.ofRequests requests).source
      (Reading.ofRequests requests).parsed := by
  unfold loadRequests
  dsimp only
  rw [h]

/-- Requests that all give characters load the text of these characters. -/
theorem loadRequests_map_ok (path source : String) :
    loadRequests path (source.toList.map .ok) = load path source := by
  rw [loadRequests_of_no_error] <;> rw [Reading.ofRequests_map_ok]
  · rw [Reading.source_of_map_ok]
    rfl
  · exact Reading.error?_of_map_ok _

/-- If a request fails, so does loading. The error is that of the next request, or else that of the
one that failed first. -/
theorem outcome_loadRequests_append_error (path : String) (cs : List Char) (e : ReadError)
    (later : List (Except ReadError Char)) :
    (loadRequests path (cs.map .ok ++ .error e :: later)).outcome =
      .error (.input ((later.head?.bind Reading.requestError?).getD e)) := by
  refine loadRequests_of_error ?_
  rw [Reading.ofRequests_append_error]
  exact Reading.error?_of_append_error cs e later

/-- A text is loaded or does not parse. -/
theorem outcome_load_ne_input (path source : String) (e : ReadError) :
    (load path source).outcome ≠ .error (.input e) := by
  unfold load ofParsed
  split
  · intro h
    cases h
  · intro h
    cases h

theorem loadFile_contents (hpath : Path.isProgram path) (bytes : ByteArray) :
    loadFile path (.contents bytes) = loadRequests path (File.contents bytes).requests :=
  if_pos hpath

theorem loadFile_toUTF8 (hpath : Path.isProgram path) (source : String) :
    loadFile path (.contents source.toUTF8) = load path source := by
  rw [loadFile_contents hpath, File.requests_toUTF8, loadRequests_map_ok]

/-- **Loading a file agrees with loading its text.** The file of a program is loaded while it is
decoded, and this fails for want of input just if its bytes are not valid UTF-8. If they encode a
text, then what comes of it is what comes of that text: the same script or the same parse errors,
with the same locations. Whatever the bytes are and whatever is wrong with what they say, the parser
asks for every token up to the end. So if they are not valid, characters are asked for up to the
first request that fails and exactly once more. The error is that of this last request if it fails
too, and else the first one. -/
theorem loadFile_agrees (hpath : Path.isProgram path) (bytes : ByteArray) :
    ((∃ e, (loadFile path (.contents bytes)).outcome = .error (.input e)) ↔
        ¬bytes.IsValidUTF8) ∧
      (∀ source : String, bytes = source.toUTF8 →
        loadFile path (.contents bytes) = load path source) ∧
      (Reading.ofRequests (File.contents bytes).requests).parsed.pulled =
        (Window.ofRequests (File.contents bytes).requests).lexemes.1.length ∧
      (¬bytes.IsValidUTF8 →
        ∃ (cs : List Char) (e : ReadError) (later : List (Except ReadError Char)),
        (File.contents bytes).requests = cs.map .ok ++ .error e :: later ∧
        (Reading.ofRequests (File.contents bytes).requests).asked = cs.length + 2 ∧
        (Reading.ofRequests (File.contents bytes).requests).made =
          cs.map .ok ++ .error e :: later.take 1 ∧
        (loadFile path (.contents bytes)).outcome =
          .error (.input ((later.head?.bind Reading.requestError?).getD e))) := by
  rw [loadFile_contents hpath, File.isValidUTF8_iff]
  refine ⟨?_, ?_, Reading.pulled_ofRequests _, ?_⟩
  · rcases eq_map_ok_or_exists_error (File.contents bytes).requests with
      ⟨cs, hcs⟩ | ⟨cs, e, later, hcs⟩ <;> rw [hcs]
    · refine iff_of_false ?_ fun h => h ⟨cs, rfl⟩
      rintro ⟨e, he⟩
      rw [← String.toList_ofList (l := cs), loadRequests_map_ok] at he
      exact outcome_load_ne_input path _ e he
    · refine iff_of_true ⟨_, outcome_loadRequests_append_error path cs e later⟩ ?_
      rintro ⟨cs', hcs'⟩
      exact map_ok_ne_append_error cs' cs e later hcs'.symm
  · rintro source rfl
    rw [File.requests_toUTF8, loadRequests_map_ok]
  · intro hinvalid
    rcases eq_map_ok_or_exists_error (File.contents bytes).requests with
      ⟨cs, hcs⟩ | ⟨cs, e, later, hcs⟩
    · exact absurd ⟨cs, hcs⟩ hinvalid
    · refine ⟨cs, e, later, hcs, ?_, ?_, ?_⟩ <;> rw [hcs]
      · rw [Reading.ofRequests_append_error]
      · rw [Reading.ofRequests_append_error]
      · exact outcome_loadRequests_append_error path cs e later

/-- After a parenthesis, which is a parse error by itself, come a byte that starts no character and
one that starts a character which is cut short. The second of these is reported. A letter of two
bytes is loaded. -/
theorem loadFile_agrees_malformed :
    Path.isProgram "a.cacti" ∧ ¬ByteArray.IsValidUTF8 ⟨#[0x28, 0xff, 0xc3]⟩ ∧
      (loadFile "a.cacti" (.contents ⟨#[0x28, 0xff, 0xc3]⟩)).outcome =
        .error (.input .unexpectedEnd) ∧
      loadFile "a.cacti" (.contents "é".toUTF8) = load "a.cacti" "é" := by
  have hpath : Path.isProgram "a.cacti" := by decide +kernel
  have hrequests : (File.contents ⟨#[0x28, 0xff, 0xc3]⟩).requests =
      ['('].map .ok ++ .error .invalidData :: [.error .unexpectedEnd] := by rfl
  have hinvalid : ¬ByteArray.IsValidUTF8 ⟨#[0x28, 0xff, 0xc3]⟩ := by
    rw [File.isValidUTF8_iff, hrequests]
    rintro ⟨cs, hcs⟩
    exact map_ok_ne_append_error cs ['('] _ _ hcs.symm
  obtain ⟨-, htext, -⟩ := loadFile_agrees hpath "é".toUTF8
  obtain ⟨-, -, -, herror⟩ := loadFile_agrees hpath ⟨#[0x28, 0xff, 0xc3]⟩
  obtain ⟨cs, e, later, hsplit, -, -, houtcome⟩ := herror hinvalid
  refine ⟨hpath, hinvalid, ?_, htext "é" rfl⟩
  rw [houtcome]
  -- There is one way only to split the requests at the first failure.
  rw [hrequests] at hsplit
  rcases cs with _ | ⟨c, _ | ⟨d, cs⟩⟩
  · cases hsplit
  · obtain ⟨-, hsplit⟩ := List.cons.inj hsplit
    obtain ⟨he, rfl⟩ := List.cons.inj hsplit
    rfl
  · obtain ⟨-, hsplit⟩ := List.cons.inj hsplit
    cases hsplit

end Script

end ScriptLang
