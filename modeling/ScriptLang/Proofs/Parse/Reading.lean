import ScriptLang.Parse
import ScriptLang.Proofs.Parse.Depth
import ScriptLang.Proofs.Token.Spelling

/-!
# Reading without errors

What a parser does with tokens does not depend on their spans, and it does not depend on the depth
at which it runs if that is large. Nor does it tell the end of the input from a closing brace,
except between the statements of a file: a block that the input leaves open ends there. So a stream
shows its tokens and, after them, as many closing braces as one likes.

`Reads p u Q v` says that, at every large depth, `p` succeeds on a stream that shows `u`, without
any recovery; that it leaves a stream which shows `v`; and that its result satisfies `Q`. There is a
rule for each way in which parsers are put together. The depth at which a source is parsed is large
enough for what can be read without errors.
-/

namespace ScriptLang

/-! ## The tokens of a stream -/

namespace TokenStream

/-- The tokens up to the end of the input. The end token itself may have been read already. -/
def Holds (s : TokenStream) (ts : List Token) : Prop :=
  (∀ t ∈ ts, t.kind ≠ .eof) ∧
    (s.rest.map Lexeme.token = ts ∨ s.rest.map Lexeme.token = ts ++ [Token.eof])

variable {s : TokenStream} {t : Token} {ts u : List Token}

/-- The next token is the first one held, or the end token. -/
theorem Holds.peek (h : s.Holds ts) : s.peek.token = ts.headD Token.eof := by
  obtain ⟨-, hts | hts⟩ := h
  · subst hts
    cases hrest : s.rest with
    | nil =>
      rw [TokenStream.peek, hrest]
      rfl
    | cons x rest =>
      rw [TokenStream.peek, hrest]
      rfl
  · cases ts with
    | nil =>
      obtain ⟨x, rest, hrest, hx, -⟩ := List.map_eq_cons_iff.mp hts
      rw [TokenStream.peek, hrest]
      exact hx
    | cons t ts =>
      obtain ⟨x, rest, hrest, hx, -⟩ := List.map_eq_cons_iff.mp hts
      rw [TokenStream.peek, hrest]
      exact hx

/-- Advancing takes the first token off. -/
theorem Holds.advance (h : s.Holds ts) : s.advance.Holds ts.tail := by
  obtain ⟨hne, hts⟩ := h
  refine ⟨fun t ht => hne t (List.mem_of_mem_tail ht), ?_⟩
  have hmap : s.advance.rest.map Lexeme.token = (s.rest.map Lexeme.token).tail := List.map_tail
  rw [hmap]
  rcases hts with hts | hts
  · rw [hts]
    exact Or.inl rfl
  · rw [hts]
    cases ts with
    | nil => exact Or.inl rfl
    | cons t ts => exact Or.inr rfl

/-- The tokens of a stream and any number of closing braces after them. -/
def Shows (s : TokenStream) (u : List Token) : Prop :=
  ∃ ts k, s.Holds ts ∧ u = ts ++ List.replicate k (Token.ofSymbol .rightBrace)

/-- What a stream holds it shows. -/
theorem Holds.shows (h : s.Holds ts) : s.Shows ts :=
  ⟨ts, 0, h, (List.append_nil ts).symm⟩

/-- A lexeme of a given token, or the end of the input in place of a closing brace. -/
def StandsFor (x : Lexeme) (t : Token) : Prop :=
  x.token = t ∨ x.token = Token.eof ∧ t.kind = .rightBrace

namespace StandsFor

variable {x : Lexeme} {kind : TokenKind}

/-- Only braces can be missing. -/
theorem token_eq (h : StandsFor x t) (ht : t.kind = kind) (hkind : kind ≠ .rightBrace) :
    x.token = t :=
  h.resolve_right fun hbrace => hkind (ht.symm.trans hbrace.2)

/-- The kind is the one shown, if that is not of a brace. -/
theorem kind_eq (h : StandsFor x t) (ht : t.kind = kind) (hkind : kind ≠ .rightBrace) :
    x.kind = kind := by
  rw [Lexeme.kind, h.token_eq ht hkind, ht]

/-- The kind is the one shown or the end. -/
theorem kind_eq_or (h : StandsFor x t) : x.kind = t.kind ∨ x.kind = .eof := by
  rcases h with h | ⟨h, -⟩
  · exact Or.inl (by rw [Lexeme.kind, h])
  · exact Or.inr (by rw [Lexeme.kind, h]; rfl)

/-- The kind is not one that is not shown, unless it is the end. -/
theorem kind_ne (h : StandsFor x t) (hkind : kind ≠ .eof) (ht : t.kind ≠ kind) : x.kind ≠ kind := by
  rcases h.kind_eq_or with heq | heq
  · rw [heq]
    exact ht
  · rw [heq]
    exact hkind.symm

end StandsFor

/-- The next token is the first one shown. -/
theorem Shows.peek (h : s.Shows u) : StandsFor s.peek (u.headD Token.eof) := by
  obtain ⟨ts, k, hts, rfl⟩ := h
  cases ts with
  | cons t ts => exact Or.inl hts.peek
  | nil =>
    cases k with
    | zero => exact Or.inl hts.peek
    | succ k => exact Or.inr ⟨hts.peek, rfl⟩

/-- Advancing takes the first token off. -/
theorem Shows.advance (h : s.Shows u) : s.advance.Shows u.tail := by
  obtain ⟨ts, k, hts, rfl⟩ := h
  cases ts with
  | cons t ts => exact ⟨ts, k, hts.advance, rfl⟩
  | nil => exact ⟨[], k - 1, hts.advance, List.tail_replicate⟩

end TokenStream

namespace Parser

variable {α β : Type}

/-! ## Success without errors -/

/-- The parser succeeds without any recovery. -/
def Yields (p : Parser α) (s : TokenStream) (a : α) (s' : TokenStream) : Prop :=
  p s = ⟨.ok a, s', []⟩

/-- Two parsers succeed one after the other. -/
theorem yields_bind {p : Parser α} {f : α → Parser β} {s s' : TokenStream} {b : β} :
    Yields (p >>= f) s b s' ↔ ∃ a m, Yields p s a m ∧ Yields (f a) m b s' := by
  constructor
  · intro h
    have hok : ((p >>= f) s).outcome = .ok b := by rw [h]
    obtain ⟨a, ha, -⟩ := exists_ok_of_bind hok
    rw [Yields, bind_of_ok ha] at h
    obtain ⟨hout, hstream, hfaults⟩ := Reply.mk.injEq .. ▸ h
    obtain ⟨hp, hf⟩ := List.append_eq_nil_iff.mp hfaults
    refine ⟨a, (p s).stream, ?_, ?_⟩
    · rw [Yields, ← ha, ← hp]
    · rw [Yields, ← hout, ← hstream, ← hf]
  · rintro ⟨a, m, hp, hf⟩
    have ha : (p s).outcome = .ok a := by rw [hp]
    rw [Yields, bind_of_ok ha, hp]
    show (⟨(f a m).outcome, (f a m).stream, [] ++ (f a m).faults⟩ : Reply β) = _
    rw [hf]
    rfl

/-- What follows a parser that succeeds. -/
theorem bind_of_yields {p : Parser α} {f : α → Parser β} {s s' : TokenStream} {a : α}
    (h : Yields p s a s') : (p >>= f) s = f a s' := by
  have hok : (p s).outcome = .ok a := by rw [h]
  rw [bind_of_ok hok, h]
  rfl

theorem yields_peek (s : TokenStream) : Yields peek s s.peek s := rfl

/-- A token that was expected was there and has been read. -/
theorem yields_expect {kind : TokenKind} {opened : Option Span} {s s' : TokenStream} {x : Lexeme}
    (h : Yields (expect kind opened) s x s') :
    s.peek.kind = kind ∧ x = s.peek ∧ s' = s.advance := by
  obtain ⟨hkind, hx, hstream⟩ := expect_ok (by rw [h])
  refine ⟨hkind, hx, ?_⟩
  rw [← hstream, h]

/-- There was nothing to recover from. -/
theorem yields_recovering {p : Parser α} {s s' : TokenStream} {o : Option α}
    (h : Yields (recovering p) s o s') : ∃ a, o = some a ∧ Yields p s a s' := by
  unfold Yields recovering at h
  unfold Yields
  generalize p s = reply at h
  obtain ⟨outcome | outcome, stream, faults⟩ := reply
  · simp at h
  · cases h
    exact ⟨outcome, rfl, rfl⟩

/-! ## The rules -/

/-- At every large depth the parser turns a stream that shows `u` into one that shows `v`, and its
result satisfies `Q`. -/
def Reads (p : Productions → Parser α) (u : List Token) (Q : α → Prop) (v : List Token) : Prop :=
  ∀ s : TokenStream, s.Shows u →
    ∃ a s', (∃ d, ∀ n, d ≤ n → Yields (p (productions n)) s a s') ∧ Q a ∧ s'.Shows v

namespace Reads

variable {t : Token} {u v w : List Token} {Q : α → Prop} {R : β → Prop}

/-- One parser after the other. -/
theorem bind {p : Productions → Parser α} {f : Productions → α → Parser β} (hp : Reads p u Q v)
    (hf : ∀ a, Q a → Reads (fun P => f P a) v R w) : Reads (fun P => p P >>= f P) u R w := by
  intro s hs
  obtain ⟨a, m, ⟨d, hd⟩, ha, hm⟩ := hp s hs
  obtain ⟨b, s', ⟨e, he⟩, hb, hs'⟩ := hf a ha m hm
  refine ⟨b, s', ⟨max d e, fun n hn => ?_⟩, hb, hs'⟩
  exact yields_bind.mpr ⟨a, m, hd n (by omega), he n (by omega)⟩

/-- It is enough to look at what the productions do. -/
theorem of_unfold {p : Productions → Parser α} (h : Reads (fun P => p P.unfold) u Q v) :
    Reads p u Q v := by
  intro s hs
  obtain ⟨a, s', ⟨d, hd⟩, ha, hs'⟩ := h s hs
  refine ⟨a, s', ⟨d + 1, fun n hn => ?_⟩, ha, hs'⟩
  obtain ⟨n, rfl⟩ : ∃ k, n = k + 1 := ⟨n - 1, by omega⟩
  exact hd n (by omega)

/-- A weaker statement about the result. -/
theorem imp {p : Productions → Parser α} {Q' : α → Prop} (h : Reads p u Q v)
    (hQ : ∀ a, Q a → Q' a) : Reads p u Q' v := by
  intro s hs
  obtain ⟨a, s', hd, ha, hs'⟩ := h s hs
  exact ⟨a, s', hd, hQ a ha, hs'⟩

/-- A result. -/
theorem pure {a : α} (ha : Q a) : Reads (fun _ => Pure.pure a) u Q u :=
  fun s hs => ⟨a, s, ⟨0, fun _ _ => rfl⟩, ha, hs⟩

/-- The first of two branches. -/
theorem ite_pos {c : Prop} [Decidable c] (hc : c) {p q : Productions → Parser α}
    (h : Reads p u Q v) : Reads (fun P => if c then p P else q P) u Q v := by
  simpa only [if_pos hc] using h

/-- The second of two branches. -/
theorem ite_neg {c : Prop} [Decidable c] (hc : ¬c) {p q : Productions → Parser α}
    (h : Reads q u Q v) : Reads (fun P => if c then p P else q P) u Q v := by
  simpa only [if_neg hc] using h

/-- A look at the next token. -/
theorem peek_bind {f : Productions → Lexeme → Parser β}
    (hf : ∀ x, TokenStream.StandsFor x (u.headD Token.eof) → Reads (fun P => f P x) u R v) :
    Reads (fun P => peek >>= f P) u R v := by
  intro s hs
  obtain ⟨b, s', ⟨d, hd⟩, hb, hs'⟩ := hf s.peek hs.peek s hs
  exact ⟨b, s', ⟨d, fun n hn => yields_bind.mpr ⟨s.peek, s, rfl, hd n hn⟩⟩, hb, hs'⟩

/-- The next token. -/
theorem next : Reads (fun _ => Parser.next) (t :: u) (TokenStream.StandsFor · t) u :=
  fun s hs => ⟨s.peek, s.advance, ⟨0, fun _ _ => rfl⟩, hs.peek, hs.advance⟩

/-- A token that is expected. No production expects a closing brace. -/
theorem expect {kind : TokenKind} {opened : Option Span} (ht : t.kind = kind)
    (hkind : kind ≠ .rightBrace) :
    Reads (fun _ => Parser.expect kind opened) (t :: u) (fun x => x.token = t) u := by
  intro s hs
  have hpeek : s.peek.kind = kind := hs.peek.kind_eq ht hkind
  have htoken : s.peek.token = t := hs.peek.token_eq ht hkind
  exact ⟨s.peek, s.advance, ⟨0, fun _ _ => if_pos hpeek⟩, htoken, hs.advance⟩

/-- A semicolon that ends a statement. -/
theorem finish_semicolon (ht : t.kind = .semicolon) :
    Reads (fun _ => finish) (t :: u) (fun _ => True) u := by
  intro s hs
  have hkind : s.peek.kind = .semicolon := hs.peek.kind_eq ht (by decide)
  have hskip : s.skip .semicolon = s.advance := if_pos hkind
  refine ⟨s.advance.last, s.advance, ⟨0, fun _ _ => ?_⟩, trivial, hs.advance⟩
  show (⟨.ok (s.skip .semicolon).last, s.skip .semicolon, []⟩ : Reply Nat) = _
  rw [hskip]

/-- A statement that ends without a semicolon. -/
theorem finish_open (hu : (u.headD Token.eof).kind ≠ .semicolon) :
    Reads (fun _ => finish) u (fun _ => True) u := by
  intro s hs
  have hkind : s.peek.kind ≠ .semicolon := hs.peek.kind_ne (by decide) hu
  have hskip : s.skip .semicolon = s := if_neg hkind
  refine ⟨s.last, s, ⟨0, fun _ _ => ?_⟩, trivial, hs⟩
  show (⟨.ok (s.skip .semicolon).last, s.skip .semicolon, []⟩ : Reply Nat) = _
  rw [hskip]

/-- A statement that there is nothing to recover from. -/
theorem recovering {p : Productions → Parser α} (h : Reads p u Q v) :
    Reads (fun P => Parser.recovering (p P)) u (fun o => ∃ a, o = some a ∧ Q a) v := by
  intro s hs
  obtain ⟨a, s', ⟨d, hd⟩, ha, hs'⟩ := h s hs
  refine ⟨some a, s', ⟨d, fun n hn => ?_⟩, ⟨a, rfl, ha⟩, hs'⟩
  have hp : p (productions n) s = ⟨.ok a, s', []⟩ := hd n hn
  simp only [Yields, Parser.recovering, hp]

end Reads

end Parser

/-! ## Sources -/

open ScriptLang.Parser

/-- A source whose tokens are known is a stream that holds them. -/
theorem holds_lex {source : String} {ts : List Token}
    (h : (lex source).map Lexeme.token = ts ++ [Token.eof]) :
    (TokenStream.ofLexemes (lex source)).Holds ts := by
  obtain ⟨ts', hlex, hne⟩ := exists_map_lex_eq source
  have hts : ts' = ts := List.append_cancel_right (hlex.symm.trans h)
  rw [hts] at hne
  exact ⟨hne, Or.inr h⟩

/-- A program is what its statements are. -/
theorem Parser.program_of_statements {P : Productions} {s s' : TokenStream} {body : List Stmt}
    {faults : List Fault} (h : P.statements .file s = ⟨.ok body, s', faults⟩) :
    P.program s = ⟨.ok ⟨body, s.peek.span.start, s'.peek.span.stop⟩, s', faults⟩ := by
  have hok : (P.statements .file s).outcome = .ok body := by rw [h]
  refine (bind_of_yields (yields_peek s)).trans ?_
  rw [bind_of_ok hok, h]
  exact congrArg _ (List.append_nil faults)

/-- What is parsed is what the statements of the file are. -/
theorem parseTokens_of_statements (warnings : List (Option LogRecord)) {tokens : List Lexeme}
    {body : List Stmt} {s : TokenStream} {faults : List Fault}
    (h : (productions (depth tokens.length)).statements .file (TokenStream.ofLexemes tokens) =
      ⟨.ok body, s, faults⟩) :
    (parseTokens warnings tokens).program.statements = body ∧
      (parseTokens warnings tokens).errors = faults.map Fault.error := by
  rw [parseTokens, program_of_statements h]
  exact ⟨rfl, rfl⟩

/-- Tokens that can be read without errors are parsed without errors. -/
theorem parseTokens_of_reads {warnings : List (Option LogRecord)} {tokens : List Lexeme}
    {u : List Token} {Q : List Stmt → Prop} (hu : (TokenStream.ofLexemes tokens).Shows u)
    (h : Reads (·.statements .file) u Q []) :
    (parseTokens warnings tokens).errors = [] ∧
      Q (parseTokens warnings tokens).program.statements := by
  obtain ⟨body, s', ⟨d, hd⟩, hQ, -⟩ := h _ hu
  generalize hs : TokenStream.ofLexemes tokens = s at hd
  have hlength : s.rest.length = tokens.length := by rw [← hs]; rfl
  -- The depth that parsing takes is enough to do what a larger one does.
  have hlarge : (productions (max d (depth tokens.length))).statements .file s =
      ⟨.ok body, s', []⟩ := hd _ (Nat.le_max_left d _)
  rw [statements_eq_of_depth_le (by rw [hlength]; exact Nat.le_max_right d _), hlength] at hlarge
  rw [parseTokens, hs, program_of_statements hlarge]
  exact ⟨rfl, hQ⟩

/-- A source whose tokens can be read without errors is parsed without errors. -/
theorem parse_of_reads {source : String} {ts : List Token} {Q : List Stmt → Prop}
    (hlex : (lex source).map Lexeme.token = ts ++ [Token.eof])
    (h : Reads (·.statements .file) ts Q []) :
    (parse source).errors = [] ∧ Q (parse source).program.statements :=
  parseTokens_of_reads (holds_lex hlex).shows h

end ScriptLang
