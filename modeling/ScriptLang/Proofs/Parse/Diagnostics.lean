import ScriptLang.Proofs.Parse.Places

/-!
# Where errors are

Every error of a source points at one of its tokens, the end token included, and tells of this
token. An error about a missing parenthesis also points at the parenthesis that is left open, which
comes before. The errors are listed in the order of the source.

`Reports source c p` says this of a parser that runs where the next token does not start before `c`:
no error is before the next token, and what the parser leaves comes after its errors. An error about
a token that has just been read is before the next token; `ReportsSince` allows for that.
-/

namespace ScriptLang

/-! ## Errors in order -/

/-- The error is about one of the given tokens. A parenthesis that it says is left open is also one
of them, and comes before. -/
structure ParseError.PointsInto (xs : List Lexeme) (e : ParseError) : Prop where
  token : ∃ x ∈ xs, e.span = x.span ∧ e.cause.Concerns x
  opened : ∀ span, e.opened = some span → (∃ found, e.cause = .unexpected .rightParen found) ∧
    ∃ x ∈ xs, x.kind = .leftParen ∧ x.span = span ∧ span.stop ≤ e.span.start

/-- The errors point at tokens that start at `a` or later and at `b` or before, each at the token of
the one before it or further on. -/
inductive ErrorsBetween (xs : List Lexeme) : Nat → List ParseError → Nat → Prop where
  | nil {a b : Nat} : a ≤ b → ErrorsBetween xs a [] b
  | cons {a b : Nat} {e : ParseError} {es : List ParseError} :
      e.PointsInto xs → a ≤ e.span.start → ErrorsBetween xs e.span.start es b →
      ErrorsBetween xs a (e :: es) b

namespace ErrorsBetween

variable {xs : List Lexeme} {a b c : Nat} {e : ParseError} {es fs : List ParseError}

theorem single (he : e.PointsInto xs) (ha : a ≤ e.span.start) (hb : e.span.start ≤ b) :
    ErrorsBetween xs a [e] b :=
  cons he ha (nil hb)

theorem le (h : ErrorsBetween xs a es b) : a ≤ b := by
  induction h with
  | nil hab => exact hab
  | cons he ha hes ih => exact ha.trans ih

theorem mono_left (h : ErrorsBetween xs a es b) (hca : c ≤ a) : ErrorsBetween xs c es b := by
  cases h with
  | nil hab => exact nil (hca.trans hab)
  | cons he ha hes => exact cons he (hca.trans ha) hes

theorem mono_right (h : ErrorsBetween xs a es b) (hbc : b ≤ c) : ErrorsBetween xs a es c := by
  induction h with
  | nil hab => exact nil (hab.trans hbc)
  | cons he ha hes ih => exact cons he ha (ih hbc)

theorem append (h : ErrorsBetween xs a es b) (h' : ErrorsBetween xs b fs c) :
    ErrorsBetween xs a (es ++ fs) c := by
  induction h with
  | nil hab => exact h'.mono_left hab
  | cons he ha hes ih => exact cons he ha (ih h')

theorem pointsInto (h : ErrorsBetween xs a es b) : ∀ e ∈ es, e.PointsInto xs := by
  induction h with
  | nil hab => exact fun e he => absurd he List.not_mem_nil
  | cons he ha hes ih => exact List.forall_mem_cons.mpr ⟨he, ih⟩

theorem le_start (h : ErrorsBetween xs a es b) : ∀ e ∈ es, a ≤ e.span.start := by
  induction h with
  | nil hab => exact fun e he => absurd he List.not_mem_nil
  | cons he ha hes ih => exact List.forall_mem_cons.mpr ⟨ha, fun f hf => ha.trans (ih f hf)⟩

/-- The errors are in the order of their tokens. -/
theorem pairwise (h : ErrorsBetween xs a es b) :
    es.Pairwise fun e f => e.span.start ≤ f.span.start := by
  induction h with
  | nil hab => exact List.Pairwise.nil
  | cons he ha hes ih => exact List.pairwise_cons.mpr ⟨hes.le_start, ih⟩

end ErrorsBetween

/-- All errors of a reply: those recovered from and then the one that it fails with, if it does. -/
def Reply.errors {α : Type} (r : Reply α) : List ParseError :=
  r.faults.map Fault.error ++
    match r.outcome with
    | .ok _ => []
    | .error e => [e]

theorem Reply.errors_of_ok {α : Type} {r : Reply α} {a : α} (h : r.outcome = .ok a) :
    r.errors = r.faults.map Fault.error := by
  rw [Reply.errors, h]
  exact List.append_nil _

namespace Parser

variable {α β : Type}

theorem errors_bind_of_ok {p : Parser α} {f : α → Parser β} {s : TokenStream} {a : α}
    (h : (p s).outcome = .ok a) :
    ((p >>= f) s).errors = (p s).errors ++ (f a (p s).stream).errors := by
  rw [bind_of_ok h, Reply.errors_of_ok h]
  unfold Reply.errors
  rw [List.map_append, List.append_assoc]

theorem errors_bind_of_error {p : Parser α} {f : α → Parser β} {s : TokenStream} {e : ParseError}
    (h : (p s).outcome = .error e) : ((p >>= f) s).errors = (p s).errors := by
  rw [bind_of_error h, Reply.errors, Reply.errors, h]

/-- The error that is recovered from is kept. -/
theorem errors_recovering (p : Parser α) (s : TokenStream) :
    (recovering p s).errors = (p s).errors := by
  unfold recovering
  generalize p s = reply
  obtain ⟨outcome | outcome, stream, faults⟩ := reply
  · show (faults ++ [_]).map Fault.error ++ [] = faults.map Fault.error ++ [outcome]
    rw [List.map_append, List.append_nil]
    rfl
  · rfl

/-! ## The rules -/

/-- Where the next token starts at `c` or later, the errors are at this token or further on, and
what is left comes after them. -/
def Reports (source : String) (c : Nat) (p : Parser α) : Prop :=
  ∀ s : TokenStream, s.OnSource source → c ≤ s.peek.span.start →
    (p s).stream.OnSource source ∧
      ErrorsBetween (lex source) s.peek.span.start (p s).errors (p s).stream.peek.span.start

/-- After the token `x` has been read, the errors are at this token or further on. -/
def ReportsSince (source : String) (x : Lexeme) (p : Parser α) : Prop :=
  ∀ s : TokenStream, s.OnSource source → x.span.stop ≤ s.peek.span.start →
    (p s).stream.OnSource source ∧
      ErrorsBetween (lex source) x.span.start (p s).errors (p s).stream.peek.span.start

namespace Reports

variable {source : String} {c : Nat} {p q : Parser α} {f : α → Parser β} {x : Lexeme}

theorem pure (a : α) : Reports source c (Pure.pure a : Parser α) :=
  fun _ hs _ => ⟨hs, .nil le_rfl⟩

/-- One parser after the other. -/
theorem bind (hp : Reports source c p) (hf : ∀ a, Reports source c (f a)) :
    Reports source c (p >>= f) := by
  intro s hs hc
  obtain ⟨hstream, herrors⟩ := hp s hs hc
  cases h : (p s).outcome with
  | ok a =>
    obtain ⟨hstream', herrors'⟩ := hf a _ hstream (hc.trans herrors.le)
    rw [errors_bind_of_ok h, bind_of_ok h]
    exact ⟨hstream', herrors.append herrors'⟩
  | error e =>
    rw [errors_bind_of_error h, bind_of_error h]
    exact ⟨hstream, herrors⟩

theorem peek : Reports source c Parser.peek := fun _ hs _ => ⟨hs, .nil le_rfl⟩

section Source

variable (hsize : source.utf8ByteSize < offsetLimit)
include hsize

/-- The errors after a token has been read. -/
theorem next_bind {f : Lexeme → Parser β} (hf : ∀ x ∈ lex source, ReportsSince source x (f x)) :
    Reports source c (Parser.next >>= f) :=
  fun s hs _ => hf s.peek (hs.peek_mem hsize) s.advance (hs.advance hsize) (hs.stop_le_start hsize)

theorem next : Reports source c Parser.next :=
  fun _ hs _ => ⟨hs.advance hsize, .nil (hs.start_le_start hsize)⟩

/-- A token that is not found is at fault. The parenthesis that it should close comes before. -/
theorem expect {kind : TokenKind} {opened : Option Span}
    (hopened : ∀ span, opened = some span → kind = .rightParen ∧
      ∃ x ∈ lex source, x.kind = .leftParen ∧ x.span = span ∧ span.stop ≤ c) :
    Reports source c (Parser.expect kind opened) := by
  intro s hs hc
  unfold Parser.expect
  split
  · exact ⟨hs.advance hsize, .nil (hs.start_le_start hsize)⟩
  · refine ⟨hs, .single ⟨⟨s.peek, hs.peek_mem hsize, rfl, rfl⟩, fun span hspan => ?_⟩ le_rfl le_rfl⟩
    obtain ⟨rfl, x, hx, hkind, rfl, hstop⟩ := hopened span hspan
    exact ⟨⟨_, rfl⟩, x, hx, hkind, rfl, hstop.trans hc⟩

/-- A token that is expected for itself. -/
theorem expect_none (kind : TokenKind) : Reports source c (Parser.expect kind none) :=
  expect hsize fun _ h => by cases h

/-- The parenthesis that closes `x`. -/
theorem expect_closing (hx : x ∈ lex source) (hkind : x.kind = .leftParen)
    (hstop : x.span.stop ≤ c) : Reports source c (Parser.expect .rightParen (some x.span)) :=
  expect hsize fun _ h => by
    cases h
    exact ⟨rfl, x, hx, hkind, rfl, hstop⟩

/-- After a token that was expected. -/
theorem expect_bind {kind : TokenKind} {f : Lexeme → Parser β}
    (hf : ∀ x ∈ lex source, x.kind = kind → Reports source x.span.stop (f x)) :
    Reports source c (Parser.expect kind none >>= f) := by
  intro s hs hc
  by_cases hkind : s.peek.kind = kind
  · have hok : (Parser.expect kind none s).outcome = .ok s.peek := by
      rw [Parser.expect, if_pos hkind]
    obtain ⟨-, -, hstream⟩ := expect_ok hok
    obtain ⟨hstream', herrors'⟩ := hf s.peek (hs.peek_mem hsize) hkind s.advance
      (hs.advance hsize) (hs.stop_le_start hsize)
    have herrors := (expect_none hsize kind s hs hc).2
    rw [errors_bind_of_ok hok, bind_of_ok hok]
    rw [hstream] at herrors ⊢
    exact ⟨hstream', herrors.append herrors'⟩
  · have herror : (Parser.expect kind none s).outcome =
        .error ⟨.unexpected kind s.peek.kind, s.peek.span, none⟩ := by
      rw [Parser.expect, if_neg hkind]
    rw [errors_bind_of_error herror, bind_of_error herror]
    exact expect_none hsize kind s hs hc

omit hsize in
theorem of_skip {s : TokenStream} (hs : s.OnSource source)
    (hadvance : s.advance.OnSource source ∧ s.peek.span.start ≤ s.advance.peek.span.start)
    (kind : TokenKind) : (s.skip kind).OnSource source ∧
      s.peek.span.start ≤ (s.skip kind).peek.span.start := by
  unfold TokenStream.skip
  split
  · exact hadvance
  · exact ⟨hs, le_rfl⟩

theorem finish : Reports source c Parser.finish := by
  intro s hs _
  obtain ⟨hskip, hle⟩ := of_skip hs ⟨hs.advance hsize, hs.start_le_start hsize⟩ .semicolon
  exact ⟨hskip, .nil hle⟩

theorem recovering (hp : Reports source c p) : Reports source c (Parser.recovering p) := by
  intro s hs hc
  obtain ⟨hstream, herrors⟩ := hp s hs hc
  rw [errors_recovering]
  unfold Parser.recovering
  generalize p s = reply at hstream herrors
  obtain ⟨outcome | outcome, stream, faults⟩ := reply
  · obtain ⟨hskip, hle⟩ :=
      of_skip hstream ⟨hstream.advance hsize, hstream.start_le_start hsize⟩ .semicolon
    exact ⟨hskip, herrors.mono_right hle⟩
  · exact ⟨hstream, herrors⟩

/-- What is reported further on is reported since. -/
theorem since (hx : x ∈ lex source) (hp : Reports source x.span.stop p) :
    ReportsSince source x p := by
  intro s hs hstop
  obtain ⟨hstream, herrors⟩ := hp s hs hstop
  have hle := (isPlaced_of_mem_lex hsize hx).le
  exact ⟨hstream, herrors.mono_left (hle.trans hstop)⟩

end Source

end Reports

namespace ReportsSince

variable {source : String} {x : Lexeme}

theorem bind {p : Parser α} {f : α → Parser β} (hp : ReportsSince source x p)
    (hf : ∀ a c, Reports source c (f a)) : ReportsSince source x (p >>= f) := by
  intro s hs hstop
  obtain ⟨hstream, herrors⟩ := hp s hs hstop
  cases h : (p s).outcome with
  | ok a =>
    obtain ⟨hstream', herrors'⟩ := hf a 0 _ hstream (Nat.zero_le _)
    rw [errors_bind_of_ok h, bind_of_ok h]
    exact ⟨hstream', herrors.append herrors'⟩
  | error e =>
    rw [errors_bind_of_error h, bind_of_error h]
    exact ⟨hstream, herrors⟩

/-- The token that has been read is at fault. -/
theorem fail (hsize : source.utf8ByteSize < offsetLimit) (hx : x ∈ lex source)
    {cause : ParseError.Cause} (hcause : cause.Concerns x) :
    ReportsSince source x (Parser.fail cause x.span : Parser α) := by
  intro s hs hstop
  have hle := (isPlaced_of_mem_lex hsize hx).le
  refine ⟨hs, .single ⟨⟨x, hx, rfl, hcause⟩, fun span hspan => ?_⟩ le_rfl (hle.trans hstop)⟩
  cases hspan

end ReportsSince

/-- What the parser reports at a place. A parenthesis that is left to close comes before. -/
def ReportsAt (source : String) (p : Parser α) : Place → Prop
  | .anywhere => ∀ c, Reports source c p
  | .after x => x ∈ lex source → ReportsSince source x p
  | .within x => x ∈ lex source → x.kind = .leftParen → Reports source x.span.stop p

namespace ReportsAt

variable {source : String} {place : Place} {p : Parser α}

theorem of_reports (hsize : source.utf8ByteSize < offsetLimit) (hp : ∀ c, Reports source c p) :
    ReportsAt source p place := by
  cases place with
  | anywhere => exact hp
  | after x => exact fun hx => (hp _).since hsize hx
  | within x => exact fun _ _ => hp _

theorem bind {f : α → Parser β} (hp : ReportsAt source p place)
    (hf : ∀ a, ReportsAt source (f a) place.further) : ReportsAt source (p >>= f) place := by
  cases place with
  | anywhere => exact fun c => (hp c).bind fun a => hf a c
  | after x => exact fun hx => (hp hx).bind hf
  | within x => exact fun hx hkind => (hp hx hkind).bind fun a => hf a hx hkind

end ReportsAt

/-- **What is put together reports its errors in order**, and at tokens of the source. -/
theorem Parallel.reportsAt {source : String} (hsize : source.utf8ByteSize < offsetLimit) {d : Nat}
    {place : Place} {f : α → α} {p q : Parser α} (h : Parallel d place f p q) :
    ReportsAt source p place := by
  induction h with
  | pure a => exact .of_reports hsize fun _ => .pure a
  | bind _ _ hp hk => exact hp.bind hk
  | peek => exact fun _ => .peek
  | next => exact fun _ => .next hsize
  | next_bind _ hk => exact fun _ => .next_bind hsize hk
  | expect kind => exact fun _ => .expect_none hsize kind
  | opening_bind _ hk => exact fun _ => .expect_bind hsize hk
  | closing x => exact fun hx hkind => .expect_closing hsize hx hkind le_rfl
  | fault hcause => exact fun hx => .fail hsize hx hcause
  | finish => exact fun _ => .finish hsize
  | recovering _ hp => exact fun c => (hp c).recovering hsize
  | forget _ hp => exact .of_reports hsize hp
  | enclosed hkind _ hp => exact fun hx => (hp hx hkind).since hsize hx

end Parser

/-! ## Sources -/

open ScriptLang.Parser

/-- All errors of a source are in order and point into it. -/
theorem exists_errorsBetween_parse {source : String} (hsize : source.utf8ByteSize < offsetLimit) :
    ∃ es a b, (parse source).errors.Sublist es ∧ ErrorsBetween (lex source) a es b := by
  have hstatements :
      Reports source 0 ((productions (depth (lex source).length)).statements .file) :=
    ((parallelAt 0 _).statements .file).reportsAt hsize 0
  have hprogram : Reports source 0 (productions (depth (lex source).length)).program :=
    Reports.peek.bind fun _ => hstatements.bind fun _ => Reports.peek.bind fun _ => .pure _
  obtain ⟨-, herrors⟩ := hprogram _ (TokenStream.onSource_lex hsize) (Nat.zero_le _)
  exact ⟨_, _, _, List.sublist_append_left _ _, herrors⟩

/-- **Every error points into the source**, at a token that is what the error says. Its span lies
between characters of the source. If it tells of a parenthesis left open, it is about the missing
closing one, and that parenthesis is a token that stops where the error starts or before. The errors
come in the order in which they start. -/
theorem parse_errors_pointInto {source : String} (hsize : source.utf8ByteSize < offsetLimit) :
    (∀ e ∈ (parse source).errors,
      (∃ x ∈ lex source, e.span = x.span ∧ e.cause.Concerns x) ∧
      (e.span.start ≤ e.span.stop ∧ e.span.stop ≤ source.utf8ByteSize ∧
        ∃ text, e.span.Covers source text) ∧
      ∀ opened, e.opened = some opened →
        (∃ found, e.cause = .unexpected .rightParen found) ∧
        ∃ x ∈ lex source, x.kind = .leftParen ∧ x.span = opened ∧ opened.stop ≤ e.span.start) ∧
    (parse source).errors.Pairwise fun e f => e.span.start ≤ f.span.start := by
  obtain ⟨es, a, b, hsublist, hbetween⟩ := exists_errorsBetween_parse hsize
  refine ⟨fun e he => ?_, hbetween.pairwise.sublist hsublist⟩
  obtain ⟨⟨x, hx, hspan, hcause⟩, hopened⟩ := hbetween.pointsInto e (hsublist.subset he)
  have hplaced := isPlaced_of_mem_lex hsize hx
  refine ⟨⟨x, hx, hspan, hcause⟩, ?_, hopened⟩
  rw [hspan]
  exact ⟨hplaced.le, stop_le_of_mem_lex hsize hx,
    Span.exists_covers hplaced.start hplaced.stop hplaced.le⟩

/-- Errors in a block and after it: an open parenthesis, a character of two bytes, an integer that
is too large, and another parenthesis that is open at the end of the source. -/
theorem parse_errors_pointInto_openParens :
    let source := "{ (1; ß 99999999999999999999 } f((a"
    source.utf8ByteSize < offsetLimit ∧
      (parse source).errors =
        [⟨.unexpected .rightParen .semicolon, ⟨4, 5⟩, some ⟨2, 3⟩⟩,
          ⟨.noExpression .illegal, ⟨6, 8⟩, none⟩,
          ⟨.badInteger "99999999999999999999", ⟨9, 29⟩, none⟩,
          ⟨.unexpected .rightParen .eof, ⟨36, 36⟩, some ⟨34, 35⟩⟩] ∧
      (∀ e ∈ (parse source).errors, ∃ text, e.span.Covers source text) ∧
      (parse source).errors.Pairwise fun e f => e.span.start ≤ f.span.start := by
  have hsize : "{ (1; ß 99999999999999999999 } f((a".utf8ByteSize < offsetLimit := by decide
  obtain ⟨hpoint, hpairwise⟩ := parse_errors_pointInto hsize
  exact ⟨hsize, by decide +kernel, fun e he => (hpoint e he).2.1.2.2, hpairwise⟩

end ScriptLang
