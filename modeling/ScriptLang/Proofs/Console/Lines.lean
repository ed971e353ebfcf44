import Mathlib.Data.List.Chain
import ScriptLang.Console
import ScriptLang.Proofs.Parse.RoundTrip
import ScriptLang.Proofs.Script.Loading

/-!
# Statements on lines of their own

A file that parses is printed statement by statement: the canonical form of each on a line of its
own, and an expression without the semicolon that ends it in the form of a program. A line feed is
a blank like any other. So an expression runs on into the next line if that starts with a
parenthesis, and what is printed as two statements is read as a call. No other lines are read as
anything but the statements that they are printed for.
-/

namespace ScriptLang

open ScriptLang.Parser

/-! ## Lines that run on -/

/-- The form of the expression starts with a parenthesis. -/
def Expr.opensParen : Expr → Bool
  | .unary _ _ _ => true
  | .binary _ _ _ _ => true
  | .call _ callee _ => callee.opensParen
  | _ => false

/-- An expression and another one after it, which starts with a parenthesis, as one call. -/
def Expr.runOn (left : Expr) : Expr → Expr
  | .call origin callee arguments => .call origin (left.runOn callee) arguments
  | e => .call ⟨Token.ofSymbol .leftParen, default⟩ left [e]

/-- The statement is an expression whose form starts with a parenthesis. -/
def Stmt.opensParen : Stmt → Bool
  | .expression _ value => value.opensParen
  | _ => false

/-- A statement on its line, and the statements that are read from the lines after it. -/
def Stmt.consLine : Stmt → List Stmt → List Stmt
  | .expression origin value, .expression origin' value' :: rest =>
    if value'.opensParen then .expression origin (value.runOn value') :: rest
    else .expression origin value :: .expression origin' value' :: rest
  | s, rest => s :: rest

/-- What is read from the lines of statements. -/
def Stmt.joinLines (ss : List Stmt) : List Stmt := ss.foldr Stmt.consLine []

/-- The first statement runs on into the line of the second: both are expressions, and the form of
the second starts with a parenthesis. -/
def Stmt.runsOn : Stmt → Stmt → Bool
  | .expression _ _, .expression _ value => value.form.toList.head? = some '('
  | _, _ => false

namespace Expr

/-- Which forms start with a parenthesis, whatever follows them. -/
theorem head?_form_eq_paren_iff (e : Expr) (he : e.WellFormed) (cs : List Char) :
    (e.form.toList ++ cs).head? = some '(' ↔ e.opensParen = true := by
  cases e with
  | ident name => exact iff_of_false ((name.isRun_name he).head?_ne rfl cs) Bool.false_ne_true
  | integer origin value =>
    exact iff_of_false ((Token.isRun_digits he.1 he.2.1).head?_ne rfl cs) Bool.false_ne_true
  | string origin => simp [form, opensParen]
  | boolean origin value => cases value <;> simp [form, opensParen]
  | unary origin operator operand => simp [form, opensParen]
  | binary origin operator left right => simp [form, opensParen]
  | conditional origin condition consequence alternative => simp [form, opensParen]
  | function origin parameters body =>
    have hfn : origin.token.literal = "fn" := by rw [he.1]
    simp [form, opensParen, hfn]
  | call origin callee arguments =>
    simp only [form, String.toList_append, List.append_assoc]
    exact callee.head?_form_eq_paren_iff he.2.1 _

/-- Running on does not change how an expression starts. -/
theorem opensParen_runOn (left e : Expr) : (left.runOn e).opensParen = left.opensParen := by
  cases e with
  | call origin callee arguments => exact left.opensParen_runOn callee
  | _ => rfl

theorem runOn_assoc (a b c : Expr) : (a.runOn b).runOn c = a.runOn (b.runOn c) := by
  cases c with
  | call origin callee arguments =>
    exact congrArg (call origin · arguments) (a.runOn_assoc b callee)
  | _ => rfl

theorem erase_runOn (left e : Expr) : (left.runOn e).erase = left.erase.runOn e.erase := by
  cases e with
  | call origin callee arguments => simp only [runOn, erase, left.erase_runOn callee]
  | _ => rfl

end Expr

namespace Stmt

theorem joinLines_cons (s : Stmt) (ss : List Stmt) :
    joinLines (s :: ss) = s.consLine (joinLines ss) :=
  rfl

/-- An expression before one that starts with a parenthesis. -/
theorem consLine_cons_of_opensParen {value' : Expr} (h : value'.opensParen = true)
    (origin origin' : Origin) (value : Expr) (rest : List Stmt) :
    (expression origin value).consLine (expression origin' value' :: rest) =
      expression origin (value.runOn value') :: rest :=
  if_pos h

/-- A statement before one that starts with no parenthesis. -/
theorem consLine_cons_of_not_opensParen {t : Stmt} (h : t.opensParen = false) (s : Stmt)
    (rest : List Stmt) : s.consLine (t :: rest) = s :: t :: rest := by
  cases s with
  | expression origin value =>
    cases t with
    | expression origin' value' =>
      refine if_neg ?_
      rw [show value'.opensParen = false from h]
      exact Bool.false_ne_true
    | _ => rfl
  | _ => rfl

/-- A line is read as a statement that starts as the one it is printed for. -/
theorem exists_consLine_eq (s : Stmt) (ss : List Stmt) :
    ∃ t rest, s.consLine ss = t :: rest ∧ t.opensParen = s.opensParen := by
  rcases ss with _ | ⟨t, ss⟩
  · exact ⟨s, [], by cases s <;> rfl, rfl⟩
  · cases hopen : t.opensParen with
    | false => exact ⟨s, t :: ss, consLine_cons_of_not_opensParen hopen s ss, rfl⟩
    | true =>
      cases t with
      | expression origin' value' =>
        cases s with
        | expression origin value =>
          exact ⟨_, ss, consLine_cons_of_opensParen hopen origin origin' value ss,
            value.opensParen_runOn value'⟩
        | _ => exact ⟨_, _, rfl, rfl⟩
      | _ => cases hopen

/-- No statement runs on into a line that starts with no parenthesis. -/
theorem consLine_consLine_of_not_opensParen {t : Stmt} (ht : t.opensParen = false) (s : Stmt)
    (ss : List Stmt) : s.consLine (t.consLine ss) = s :: t.consLine ss := by
  obtain ⟨t', rest, hline, hopen⟩ := t.exists_consLine_eq ss
  rw [hline]
  exact consLine_cons_of_not_opensParen (hopen.trans ht) s rest

/-- An expression runs on into a line that starts with a parenthesis, and on from there. -/
theorem consLine_consLine_of_opensParen {value' : Expr} (hopen : value'.opensParen = true)
    (origin origin' : Origin) (value : Expr) (ss : List Stmt) :
    (expression origin value).consLine ((expression origin' value').consLine ss) =
      (expression origin (value.runOn value')).consLine ss := by
  rcases ss with _ | ⟨t, ss⟩
  · exact consLine_cons_of_opensParen hopen origin origin' value []
  · cases ht : t.opensParen with
    | false =>
      rw [consLine_cons_of_not_opensParen ht, consLine_cons_of_not_opensParen ht]
      exact consLine_cons_of_opensParen hopen origin origin' value (t :: ss)
    | true =>
      cases t with
      | expression origin'' value'' =>
        have hrun : (value'.runOn value'').opensParen = true :=
          (value'.opensParen_runOn value'').trans hopen
        rw [consLine_cons_of_opensParen ht, consLine_cons_of_opensParen ht,
          consLine_cons_of_opensParen hrun, Expr.runOn_assoc]
      | _ => cases ht

theorem length_consLine_le (s : Stmt) (ss : List Stmt) :
    (s.consLine ss).length ≤ ss.length + 1 := by
  fun_cases consLine s ss <;> simp

theorem length_joinLines_le (ss : List Stmt) : (joinLines ss).length ≤ ss.length := by
  induction ss with
  | nil => exact Nat.le_refl 0
  | cons s ss ih => exact (s.length_consLine_le _).trans (Nat.succ_le_succ ih)

/-- A statement that runs on is followed by an expression with a parenthesis first. -/
theorem runsOn_iff (s : Stmt) {t : Stmt} (ht : t.WellFormed) :
    s.runsOn t = true ↔ (∃ origin value, s = expression origin value) ∧ t.opensParen = true := by
  cases t with
  | expression origin' value' =>
    have hhead := value'.head?_form_eq_paren_iff ht []
    rw [List.append_nil] at hhead
    cases s with
    | expression origin value =>
      simp only [runsOn, decide_eq_true_eq, hhead, opensParen]
      exact ⟨fun h => ⟨⟨origin, value, rfl⟩, h⟩, fun h => h.2⟩
    | _ => simp [runsOn]
  | _ => cases s <;> simp [runsOn, opensParen]

/-- A line that does not run on into the next is read as the statement it is printed for. -/
theorem joinLines_cons_cons {s t : Stmt} (ht : t.WellFormed) (ss : List Stmt)
    (h : s.runsOn t = false) : joinLines (s :: t :: ss) = s :: joinLines (t :: ss) := by
  rw [joinLines_cons, joinLines_cons]
  cases hopen : t.opensParen with
  | false => exact consLine_consLine_of_not_opensParen hopen s _
  | true =>
    cases s with
    | expression origin value =>
      have hruns := (runsOn_iff (expression origin value) ht).mpr ⟨⟨origin, value, rfl⟩, hopen⟩
      exact absurd (h.symm.trans hruns) Bool.false_ne_true
    | _ => rfl

/-- A line that runs on takes the next one with it. -/
theorem length_joinLines_lt {s t : Stmt} (ht : t.WellFormed) (ss : List Stmt)
    (h : s.runsOn t = true) : (joinLines (s :: t :: ss)).length < ss.length + 2 := by
  obtain ⟨⟨origin, value, rfl⟩, hopen⟩ := (runsOn_iff s ht).mp h
  cases t with
  | expression origin' value' =>
    rw [joinLines_cons, joinLines_cons, consLine_consLine_of_opensParen hopen]
    have hline := length_consLine_le (expression origin (value.runOn value')) (joinLines ss)
    have hrest := length_joinLines_le ss
    omega
  | _ => cases hopen

/-- Lines none of which runs on are those of their statements. -/
theorem joinLines_of_isChain {ss : List Stmt} (hss : AllWellFormed ss)
    (h : ss.IsChain fun s t => s.runsOn t = false) : joinLines ss = ss := by
  induction ss with
  | nil => rfl
  | cons s ss ih =>
    cases ss with
    | nil => cases s <;> rfl
    | cons t ss =>
      obtain ⟨hst, hrest⟩ := List.isChain_cons_cons.mp h
      rw [joinLines_cons_cons hss.2.1 ss hst, ih hss.2 hrest]

/-- If as many statements are read as there are lines, none runs on. -/
theorem isChain_of_length_joinLines {ss : List Stmt} (hss : AllWellFormed ss)
    (h : (joinLines ss).length = ss.length) : ss.IsChain fun s t => s.runsOn t = false := by
  induction ss with
  | nil => exact .nil
  | cons s ss ih =>
    cases ss with
    | nil => exact .singleton s
    | cons t ss =>
      cases hst : s.runsOn t with
      | true => exact absurd h (Nat.ne_of_lt (length_joinLines_lt hss.2.1 ss hst))
      | false =>
        rw [joinLines_cons_cons hss.2.1 ss hst] at h
        exact .cons_cons hst (ih hss.2 (Nat.succ.inj h))

/-- **Lines are those of the statements that are read just if none runs on.** -/
theorem eraseAll_joinLines_iff {ss : List Stmt} (hss : AllWellFormed ss) :
    eraseAll (joinLines ss) = eraseAll ss ↔ ss.IsChain fun s t => s.runsOn t = false := by
  constructor
  · intro h
    have hlength := congrArg List.length h
    rw [length_eraseAll, length_eraseAll] at hlength
    exact isChain_of_length_joinLines hss hlength
  · intro h
    rw [joinLines_of_isChain hss h]

end Stmt

/-! ## Reading lines -/

/-- The tokens of a statement on its line, where an expression has no semicolon. -/
def Stmt.lineTokens : Stmt → List Token
  | .expression _ value => value.tokens
  | s => s.tokens

/-- A line reads as the tokens of its statement. -/
theorem Stmt.readsAs_line (s : Stmt) (hs : s.WellFormed) {cs : List Char} {ts : List Token}
    (h : ReadsAs cs ts) :
    ReadsAs ((s.form ++ "\n").toList ++ cs) (s.lineTokens ++ ts) := by
  have hend : ReadsAs ('\n' :: cs) ts := h.blank rfl
  rw [String.toList_append, List.append_assoc]
  cases s with
  | expression origin value => exact value.readsAs hs (separated_cons (by decide) cs) hend
  | binding origin name value => exact Stmt.readsAs (.binding origin name value) hs hend
  | returning origin value => exact Stmt.readsAs (.returning origin value) hs hend
  | block body => exact body.readsAs hs hend

/-- Statements on lines of their own read as their tokens. -/
theorem Stmt.readsAs_lines {ss : List Stmt} (hss : Stmt.AllWellFormed ss) :
    ReadsAs (Console.inLines (ss.map Stmt.form)).toList
      (ss.flatMap Stmt.lineTokens ++ [Token.eof]) := by
  induction ss with
  | nil => exact readsAs_nil
  | cons s ss ih =>
    have hline := s.readsAs_line hss.1 (ih hss.2)
    simpa [Console.inLines] using hline

/-- An expression that starts with no parenthesis does not continue the one before it. -/
theorem Expr.precedence_tokens (e : Expr) (he : e.WellFormed) (hopen : e.opensParen = false)
    (m : List Token) : ((e.tokens ++ m).headD Token.eof).kind.precedence = .lowest := by
  cases e with
  | ident name => simp [tokens, he.1, TokenKind.precedence]
  | integer origin value => simp [tokens, he.1, TokenKind.precedence]
  | string origin => simp [tokens, he.1, TokenKind.precedence]
  | boolean origin value =>
    rw [WellFormed] at he
    cases value <;> simp [tokens, he, TokenKind.precedence]
  | unary origin operator operand => cases hopen
  | binary origin operator left right => cases hopen
  | conditional origin condition consequence alternative =>
    simp [tokens, he.1, TokenKind.precedence]
  | function origin parameters body => simp [tokens, he.1, TokenKind.precedence]
  | call origin callee arguments =>
    rw [tokens, List.append_assoc]
    exact callee.precedence_tokens he.2.1 hopen _

namespace Stmt

theorem precedence_lineTokens {s : Stmt} (hs : s.WellFormed) (hopen : s.opensParen = false)
    (m : List Token) : ((s.lineTokens ++ m).headD Token.eof).kind.precedence = .lowest := by
  cases s with
  | expression origin value => exact value.precedence_tokens hs hopen m
  | binding origin name value => simp [lineTokens, tokens, hs.1, TokenKind.precedence]
  | returning origin value => simp [lineTokens, tokens, hs.1, TokenKind.precedence]
  | block body =>
    obtain ⟨origin, statements⟩ := body
    simp [lineTokens, tokens, Block.tokens, hs.1, Token.ofSymbol, TokenKind.precedence]

/-- No line starts with a token that could end or continue the statement on the line before. -/
theorem head_lineTokens {s : Stmt} (hs : s.WellFormed) (m : List Token) :
    ((s.lineTokens ++ m).headD Token.eof).kind ≠ .semicolon ∧
      ((s.lineTokens ++ m).headD Token.eof).kind ≠ .kwElse := by
  cases s with
  | expression origin value =>
    have hstarts := Expr.startsExpression_tokensAt hs .full .whole m
    rw [← value.tokens_eq] at hstarts
    exact ⟨TokenKind.ne_of_startsExpression hstarts rfl,
      TokenKind.ne_of_startsExpression hstarts rfl⟩
  | binding origin name value => simp [lineTokens, tokens, hs.1]
  | returning origin value => simp [lineTokens, tokens, hs.1]
  | block body =>
    obtain ⟨origin, statements⟩ := body
    simp [lineTokens, tokens, Block.tokens, hs.1, Token.ofSymbol]

theorem head_lines_ne_else {ss : List Stmt} (hss : AllWellFormed ss) :
    ((ss.flatMap lineTokens).headD Token.eof).kind ≠ .kwElse := by
  cases ss with
  | nil => decide
  | cons s ss => exact (head_lineTokens hss.1 _).2

end Stmt

/-- An operator that stands in parentheses is read as an argument. -/
theorem Expr.reads_runOn_operator {f left : Expr} (hf : f.WellFormed)
    (hfull : Style.full .whole f = true)
    (hcall : left.runOn f = .call ⟨Token.ofSymbol .leftParen, default⟩ left [f]) {m v : List Token}
    {Q : Expr → Prop} (hm : ∀ e : Expr, e.erase = (left.runOn f).erase →
      Reads (·.operators .lowest e) m Q v) :
    Reads (·.operators .lowest left) (f.tokens ++ m) Q v := by
  have hvalue := Expr.isReadIn Style.suffices_full f hf .lowest (Token.ofSymbol .rightParen :: m)
    (fun e => e.erase = f.erase) _ (Expr.fits_whole hf rfl) (by simp [Token.ofSymbol])
    fun left hleft => Reads.operators_stop (Nat.zero_le _) hleft
  have hstarts := f.startsExpression_tokensIn .full hf
  have hhead : ((f.tokensIn .full ++ Token.ofSymbol .rightParen :: m).headD Token.eof).kind ≠
      .rightParen := by
    rw [headD_append_of_starts _ hstarts]
    exact TokenKind.ne_of_startsExpression hstarts rfl
  have hstop : Reads (·.moreArguments) (Token.ofSymbol .rightParen :: m) (· = [])
      (Token.ofSymbol .rightParen :: m) :=
    Reads.moreArguments_stop (by simp [Token.ofSymbol]) rfl
  rw [f.tokens_eq .whole, Expr.tokensAt, hfull, Token.bracket, if_pos rfl, List.cons_append,
    List.append_assoc]
  refine Reads.operators_call
    (P := fun es => ∃ value rest, es = value :: rest ∧ value.erase = f.erase ∧ rest = []) rfl
    (by decide) (fun _ => Reads.arguments_some hhead rfl hvalue hstop) ?_
  rintro origin values horigin ⟨value, rest, rfl, hvalue', rfl⟩
  have horigin' : origin.erase = Origin.erase ⟨Token.ofSymbol .leftParen, default⟩ :=
    Origin.erase_eq horigin
  refine hm _ ?_
  rw [hcall, Expr.erase, Expr.erase, Expr.eraseAll, Expr.eraseAll, Expr.eraseAll, Expr.eraseAll,
    hvalue', horigin']

/-- **An expression that starts with a parenthesis is read as arguments of the one before it.** -/
theorem Expr.reads_runOn (f : Expr) (hf : f.WellFormed) (hopen : f.opensParen = true) {left : Expr}
    {m v : List Token} {Q : Expr → Prop}
    (hm : ∀ e : Expr, e.erase = (left.runOn f).erase →
      Reads (·.operators .lowest e) m Q v) :
    Reads (·.operators .lowest left) (f.tokens ++ m) Q v := by
  cases f with
  | unary => exact Expr.reads_runOn_operator hf rfl rfl hm
  | binary => exact Expr.reads_runOn_operator hf rfl rfl hm
  | call origin callee arguments =>
    obtain ⟨htoken, hcallee, harguments⟩ := hf
    rw [tokens, List.append_assoc, List.cons_append, List.append_assoc, Expr.listTokens_eq]
    -- The arguments of the call come last. Those that its callee is read as come before them.
    refine callee.reads_runOn hcallee hopen fun left' hleft' => ?_
    refine Reads.operators_call (P := fun es => Expr.eraseAll es = Expr.eraseAll arguments)
      (by rw [htoken]; rfl) (by decide)
      (Expr.listIsReadIn Style.suffices_full arguments harguments m)
      fun origin' values horigin hvalues => hm _ ?_
    rw [Expr.runOn, Expr.erase, Expr.erase, hleft', hvalues, Origin.erase_eq horigin]
  | _ => cases hopen

/-- Tokens are read as statements, up to places, and to their end. -/
def ReadsToEnd (u : List Token) (ss : List Stmt) : Prop :=
  Reads (·.statements .file) u (fun ss' => Stmt.eraseAll ss' = Stmt.eraseAll ss) []

/-- After the expression `left`, tokens are read on to `value`, and those that are left then as the
statements `rest`. -/
def ReadsOn (u : List Token) (left value : Expr) (rest : List Stmt) : Prop :=
  ∃ v : List Token, (v.headD Token.eof).kind ≠ .semicolon ∧
    (∀ e : Expr, e.erase = left.erase →
      Reads (·.operators .lowest e) u (fun e' => e'.erase = value.erase) v) ∧
    ReadsToEnd v rest

namespace ReadsOn

variable {u m : List Token} {left value f : Expr} {rest : List Stmt}

/-- Nothing is read on from a token that continues no expression. -/
theorem stop (hlowest : (u.headD Token.eof).kind.precedence = .lowest)
    (hsemicolon : (u.headD Token.eof).kind ≠ .semicolon) (h : ReadsToEnd u rest) :
    ReadsOn u left left rest :=
  ⟨u, hsemicolon, fun _ he => Reads.operators_stop (by rw [hlowest]) he, h⟩

/-- An expression that starts with a parenthesis is read on from. -/
theorem runOn (hf : f.WellFormed) (hopen : f.opensParen = true)
    (h : ReadsOn m (left.runOn f) value rest) : ReadsOn (f.tokens ++ m) left value rest := by
  obtain ⟨v, hsemicolon, hvalue, hrest⟩ := h
  refine ⟨v, hsemicolon, fun e he => ?_, hrest⟩
  refine f.reads_runOn hf hopen fun e' he' => hvalue e' ?_
  rw [he', Expr.erase_runOn, Expr.erase_runOn, he]

/-- An expression and what it is read on to are the first statement. -/
theorem readsToEnd (hleft : left.WellFormed) (helse : (m.headD Token.eof).kind ≠ .kwElse)
    (h : ReadsOn m left value rest) (origin : Origin) :
    ReadsToEnd (left.tokens ++ m) (.expression origin value :: rest) := by
  obtain ⟨v, hsemicolon, hvalue, hrest⟩ := h
  -- As a callee the expression may stand before a parenthesis.
  have hstarts := Expr.startsExpression_tokensAt hleft .full .callee m
  have hread := (Expr.isReadIn Style.suffices_full left hleft).at_position hleft
    Style.suffices_full (fun h => Expr.fits_callee h (by decide)) helse hvalue
  rw [left.tokens_eq .callee]
  have hstatement := Reads.statement_expression hstarts hread (Reads.finish_open hsemicolon)
  refine (Reads.statements_cons (TokenKind.ne_of_startsExpression hstarts rfl)
    (TokenKind.ne_of_startsExpression hstarts rfl) hstatement hrest).imp ?_
  rintro ss ⟨s, rest', rfl, ⟨origin', value', rfl, hvalue'⟩, hrest'⟩
  rw [Stmt.eraseAll, Stmt.eraseAll, Stmt.erase, Stmt.erase, hvalue', hrest']

end ReadsOn

/-- A statement with an end of its own is read before what follows it. -/
theorem Stmt.readsToEnd_line {s : Stmt} (hs : s.WellFormed) (hline : s.lineTokens = s.tokens)
    {m : List Token} {rest : List Stmt} (h : ReadsToEnd m rest) :
    ReadsToEnd (s.lineTokens ++ m) (s :: rest) := by
  obtain ⟨heof, hbrace⟩ := Stmt.head_tokensIn hs .full m
  rw [hline, s.tokens_eq]
  refine (Reads.statements_cons heof hbrace (Stmt.isReadIn Style.suffices_full s hs m) h).imp ?_
  rintro ss ⟨s', rest', rfl, hs', hrest'⟩
  rw [Stmt.eraseAll, Stmt.eraseAll, hs', hrest']

/-- **What is read from lines.** At their start they are read as `joinLines` says, and so they are
after an expression on the line before. -/
theorem Stmt.readsToEnd_lines {ss : List Stmt} (hss : Stmt.AllWellFormed ss) :
    ReadsToEnd (ss.flatMap Stmt.lineTokens) (Stmt.joinLines ss) ∧
      ∀ (origin : Origin) (left : Expr), ∃ value rest,
        (Stmt.expression origin left).consLine (Stmt.joinLines ss) =
          .expression origin value :: rest ∧
        ReadsOn (ss.flatMap Stmt.lineTokens) left value rest := by
  induction ss with
  | nil =>
    have hend : ReadsToEnd [] [] := Reads.statements_stop rfl rfl
    exact ⟨hend, fun _ left => ⟨left, [], rfl, ReadsOn.stop rfl (by decide) hend⟩⟩
  | cons s ss ih =>
    obtain ⟨hs, hss⟩ := hss
    obtain ⟨hrest, hon⟩ := ih hss
    rw [List.flatMap_cons, Stmt.joinLines_cons]
    have hlines : ReadsToEnd (s.lineTokens ++ ss.flatMap Stmt.lineTokens)
        (s.consLine (Stmt.joinLines ss)) := by
      cases s with
      | expression origin value =>
        obtain ⟨value', rest, hjoin, hvalue⟩ := hon origin value
        rw [hjoin]
        exact hvalue.readsToEnd hs (Stmt.head_lines_ne_else hss) origin
      | _ => exact Stmt.readsToEnd_line hs rfl hrest
    refine ⟨hlines, fun origin left => ?_⟩
    cases hopen : s.opensParen with
    | false =>
      exact ⟨left, _, Stmt.consLine_consLine_of_not_opensParen hopen _ _,
        ReadsOn.stop (Stmt.precedence_lineTokens hs hopen _) (Stmt.head_lineTokens hs _).1 hlines⟩
    | true =>
      cases s with
      | expression origin' f =>
        obtain ⟨value, rest, hjoin, hvalue⟩ := hon origin (left.runOn f)
        rw [Stmt.consLine_consLine_of_opensParen hopen]
        exact ⟨value, rest, hjoin, hvalue.runOn hs hopen⟩
      | _ => cases hopen

/-- Lines are parsed without errors, as the statements that are read from them. -/
theorem Stmt.parse_lines {ss : List Stmt} (hss : Stmt.AllWellFormed ss) :
    (parse (Console.inLines (ss.map Stmt.form))).errors = [] ∧
      Stmt.eraseAll (parse (Console.inLines (ss.map Stmt.form))).program.statements =
        Stmt.eraseAll (Stmt.joinLines ss) :=
  parse_of_reads (Stmt.readsAs_lines hss).map_lex (Stmt.readsToEnd_lines hss).1

/-! ## Printing files -/

/-- Well-formed programs with the same form are the same, up to places. -/
theorem Program.form_eq_form_iff {p q : Program} (hp : Stmt.AllWellFormed p.statements)
    (hq : Stmt.AllWellFormed q.statements) : p.form = q.form ↔ p.erase = q.erase := by
  constructor
  · intro h
    rw [← Program.erase_parse_form hp, h, Program.erase_parse_form hq]
  · intro h
    rw [← p.form_erase, h, q.form_erase]

namespace Console

/-- A file that parses is printed statement by statement. -/
theorem perform_parse {path source : String} (hpath : Path.isProgram path)
    (herrors : (parse source).errors = []) :
    Command.parse.perform path (.contents source.toUTF8) =
      ⟨inLines ((parse source).program.statements.map Stmt.form), (parse source).log, none⟩ := by
  have hok : (parse source).isOk = true := by rw [Parsed.isOk, herrors]; rfl
  have hload : Script.loadFile path (.contents source.toUTF8) =
      ⟨.ok ⟨path, source, (parse source).program⟩, (parse source).log⟩ :=
    (Script.loadFile_toUTF8 hpath source).trans (if_pos hok)
  simp only [Command.perform, Command.printing, hload]

/-- Work without a failure prints its results and nothing else on their channel. -/
theorem transcript_of_perform {command : Command} {path text : String} {file : File}
    {log : List LogRecord} (h : command.perform path file = ⟨text, log, none⟩) (view : View)
    (elapsed : String) :
    (command.transcript view path file elapsed).1.results = text ∧
      (command.transcript view path file elapsed).2 = 0 := by
  rw [Command.transcript, h]
  exact ⟨by simp [Output.append, Outcome.output], rfl⟩

/-- **Printed statements are parsed as those that were printed, unless one runs on.** Whatever file
parses, its statements are printed on lines of their own, and these lines parse without errors.
They give the statements that `joinLines` says, up to places. So they give the form of the program
back just if no expression is followed by one whose form starts with a parenthesis. -/
theorem parse_printedLines {path source : String} (hpath : Path.isProgram path)
    (herrors : (parse source).errors = []) (view : View) (elapsed : String) :
    let p := (parse source).program
    let printed := Command.parse.transcript view path (.contents source.toUTF8) elapsed
    let q := parse printed.1.results
    printed.2 = 0 ∧ printed.1.results = inLines (p.statements.map Stmt.form) ∧ q.errors = [] ∧
      Stmt.eraseAll q.program.statements = Stmt.eraseAll (Stmt.joinLines p.statements) ∧
      (q.program.form = p.form ↔ p.statements.IsChain fun s t => s.runsOn t = false) := by
  intro p printed q
  obtain ⟨hresults, hstatus⟩ :=
    transcript_of_perform (perform_parse hpath herrors) view elapsed
  have hwf : Stmt.AllWellFormed p.statements := wellFormed_parse source
  obtain ⟨hparse, hstatements⟩ := Stmt.parse_lines hwf
  rw [← hresults] at hparse hstatements
  refine ⟨hstatus, hresults, hparse, hstatements, ?_⟩
  rw [Program.form_eq_form_iff (wellFormed_parse _) hwf, ← Stmt.eraseAll_joinLines_iff hwf,
    ← hstatements, Program.erase, Program.erase, Program.mk.injEq]
  exact and_iff_left rfl

/-- A negative number after a binding, and a call of a sum after a block, are not run on into. -/
theorem parse_printedLines_apart :
    let source := "let a = 1; -a; \x7b a \x7d (2 + 3)(4); if (a) \x7b 5 \x7d f(-a)"
    let printed := Command.parse.transcript ⟨false, false⟩ "a.cacti" (.contents source.toUTF8) "0s"
    Path.isProgram "a.cacti" ∧ (parse source).errors = [] ∧
      (parse printed.1.results).errors = [] ∧
      (parse printed.1.results).program.form = (parse source).program.form := by
  have hpath : Path.isProgram "a.cacti" := by decide +kernel
  have herrors : (parse
      "let a = 1; -a; \x7b a \x7d (2 + 3)(4); if (a) \x7b 5 \x7d f(-a)").errors = [] := by
    decide +kernel
  obtain ⟨-, -, hparse, -, hform⟩ := parse_printedLines hpath herrors ⟨false, false⟩ "0s"
  exact ⟨hpath, herrors, hparse, hform.mpr (by decide +kernel)⟩

/-- A negative number on the line after a number is read as what this is called with. -/
theorem printedLines_runOn :
    Path.isProgram "m.cacti" ∧ (parse "1; -1;").errors = [] ∧
      (parse "1; -1;").program.form = "1; (-1);" ∧
      (Command.parse.transcript ⟨false, false⟩ "m.cacti" (.contents "1; -1;".toUTF8)
        "0s").1.results = "1\n(-1)\n" ∧
      (parse "1\n(-1)\n").errors = [] ∧ (parse "1\n(-1)\n").program.form = "1((-1));" := by
  have hpath : Path.isProgram "m.cacti" := by decide +kernel
  have herrors : (parse "1; -1;").errors = [] := by decide +kernel
  have hlines : inLines ((parse "1; -1;").program.statements.map Stmt.form) = "1\n(-1)\n" := by
    decide +kernel
  obtain ⟨hresults, -⟩ :=
    transcript_of_perform (perform_parse hpath herrors) ⟨false, false⟩ "0s"
  refine ⟨hpath, herrors, by decide +kernel, hresults.trans hlines, ?_, ?_⟩
  · decide +kernel
  · decide +kernel

end Console

end ScriptLang
