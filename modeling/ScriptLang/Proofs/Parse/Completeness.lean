import Mathlib.Data.List.TakeWhile
import ScriptLang.Proofs.Parse.Productions

/-!
# What is in the language is read without errors

Every phrase of the language is read by its production. For expressions one has to say what may
follow: operators and arguments would be taken for a part of the expression, and so would an `else`
after a conditional. Between the operands of an expression the loop over operators takes what binds
tighter than its level and leaves the rest to the loop that called it.

Where a statement ends without a semicolon and the next one starts with a parenthesis or a minus
sign, the two are read as one. So a derivation is not followed statement by statement: the two are
joined first, which leaves the tokens as they are.
-/

namespace ScriptLang

open ScriptLang.Parser

/-! ## Readable phrases -/

/-- The tokens are read as an operand. -/
def ReadsAtom (a : List Token) : Prop :=
  ∀ m : List Token, (m.headD Token.eof).kind ≠ .kwElse →
    Reads (·.operand) (a ++ m) (fun _ => True) m

/-- The tokens are read as the start of an expression, which goes on as the loop over operators
does from there. -/
def ReadsPrimary (p : List Token) : Prop :=
  ∀ (level : Precedence) (m v : List Token), level.rank < Precedence.call.rank →
    (m.headD Token.eof).kind ≠ .kwElse →
    (∀ left, Reads (·.operators level left) m (fun _ => True) v) →
    Reads (·.expression level) (p ++ m) (fun _ => True) v

/-- The same if no arguments follow. Those would belong to the operand, and not to what is made of
it by the signs before it. -/
def ReadsUnary (u : List Token) : Prop :=
  ∀ (level : Precedence) (m v : List Token), level.rank < Precedence.call.rank →
    (m.headD Token.eof).kind ≠ .kwElse → (m.headD Token.eof).kind ≠ .leftParen →
    (∀ left, Reads (·.operators level left) m (fun _ => True) v) →
    Reads (·.expression level) (u ++ m) (fun _ => True) v

/-- The tokens are read as an expression if nothing follows that could be part of it. -/
def ReadsExpression (e : List Token) : Prop :=
  ∀ m : List Token, (m.headD Token.eof).kind.precedence = .lowest →
    (m.headD Token.eof).kind ≠ .kwElse →
    Reads (·.expression .lowest) (e ++ m) (fun _ => True) m

/-- The tokens after the first one are read as a block. -/
def ReadsBlock (b : List Token) : Prop :=
  ∃ brace rest, b = brace :: rest ∧ brace.kind = .leftBrace ∧
    ∀ (m : List Token) (x : Lexeme), Reads (·.block x) (rest ++ m) (fun _ => True) m

/-- The tokens are read as statements up to where these end. -/
def ReadsStatements (ss : List Token) : Prop :=
  ∀ (enclosure : Enclosure) (m : List Token), enclosure.endsAt (m.headD Token.eof).kind →
    Reads (·.statements enclosure) (ss ++ m) (fun _ => True) m

/-- The tokens are read as an expression and further arguments. -/
def ReadsValues (vs : List Token) : Prop :=
  ∀ (closing : Token) (m : List Token), closing.kind = .rightParen →
    ∃ w, Reads (·.expression .lowest) (vs ++ closing :: m) (fun _ => True) w ∧
      Reads (·.moreArguments) w (fun _ => True) (closing :: m)

/-- The tokens after the first one are read as further parameters. -/
def ReadsNames (ns : List Token) : Prop :=
  ∃ name rest, ns = name :: rest ∧ name.kind = .ident ∧
    ∀ (closing : Token) (m : List Token), closing.kind = .rightParen →
      Reads (·.moreParameters) (rest ++ closing :: m) (fun _ => True) (closing :: m)

/-! ## Operators -/

/-- Binary operators with their right operands. -/
def operationTokens (ops : List (Token × List Token)) : List Token :=
  ops.flatMap fun o => o.1 :: o.2

/-- Operators that the grammar allows, with right operands that can be read. -/
def ReadableOperations (ops : List (Token × List Token)) : Prop :=
  ∀ o ∈ ops, o.1.kind ∈ TokenKind.binaryOperators ∧ ReadsUnary o.2

/-- Only an opening parenthesis binds tighter than the sign of an operand. -/
theorem rank_le_unary_of_ne {kind : TokenKind} (h : kind ≠ .leftParen) :
    kind.precedence.rank ≤ Precedence.unary.rank := by
  cases kind <;> first | decide | exact absurd rfl h

/-- After operators that bind tighter than one level, those that bind tighter than a looser level
are still to be dropped. -/
theorem dropWhile_dropWhile_of_imp {γ : Type} {p q : γ → Bool} (h : ∀ a, p a → q a) (l : List γ) :
    (l.dropWhile p).dropWhile q = l.dropWhile q := by
  induction l with
  | nil => rfl
  | cons a l ih =>
    by_cases hp : p a
    · rw [List.dropWhile_cons_of_pos hp, List.dropWhile_cons_of_pos (h a hp), ih]
    · rw [List.dropWhile_cons_of_neg hp]

/-- What follows an operand among operations neither calls it nor is an `else`. -/
theorem head_operationTokens {ops : List (Token × List Token)} (hops : ReadableOperations ops)
    {m : List Token} (hm : (m.headD Token.eof).kind.precedence = .lowest)
    (helse : (m.headD Token.eof).kind ≠ .kwElse) :
    ((operationTokens ops ++ m).headD Token.eof).kind ≠ .kwElse ∧
      ((operationTokens ops ++ m).headD Token.eof).kind ≠ .leftParen := by
  cases ops with
  | nil =>
    -- A parenthesis would bind as a call.
    refine ⟨helse, fun hparen => ?_⟩
    have hcall : (m.headD Token.eof).kind = .leftParen := hparen
    rw [hcall] at hm
    cases hm
  | cons o ops =>
    have ho := (hops o List.mem_cons_self).1
    constructor
    · intro h
      rw [show o.1.kind = .kwElse from h] at ho
      exact absurd ho (by decide)
    · intro h
      rw [show o.1.kind = .leftParen from h] at ho
      exact absurd ho (by decide)

/-- **The loop over operators takes the operations that bind tighter than its level**, up to the
first one that does not. -/
theorem reads_operators (ops : List (Token × List Token)) (hops : ReadableOperations ops)
    {m : List Token} (hm : (m.headD Token.eof).kind.precedence = .lowest)
    (helse : (m.headD Token.eof).kind ≠ .kwElse) (level : Precedence) (left : Expr) :
    Reads (·.operators level left) (operationTokens ops ++ m) (fun _ => True)
      (operationTokens (ops.dropWhile fun o => level.rank < o.1.kind.precedence.rank) ++ m) := by
  -- The right operand of the first operator takes operations too, so the rest is not just one
  -- shorter: the induction is on how many there are.
  induction hlength : ops.length using Nat.strongRecOn generalizing ops level left with
  | ind k ih =>
    cases ops with
    | nil =>
      refine Reads.operators_stop ?_ trivial
      rw [show operationTokens [] ++ m = m from rfl, hm]
      exact Nat.zero_le _
    | cons o ops =>
      obtain ⟨operator, u⟩ := o
      obtain ⟨ho, hu⟩ := hops (operator, u) List.mem_cons_self
      have hrest : ReadableOperations ops := fun o ho => hops o (List.mem_cons_of_mem _ ho)
      have htokens : operationTokens ((operator, u) :: ops) ++ m =
          operator :: (u ++ (operationTokens ops ++ m)) := by
        simp only [operationTokens, List.flatMap_cons, List.cons_append, List.append_assoc]
      rw [htokens]
      by_cases hrank : level.rank < operator.kind.precedence.rank
      · rw [List.dropWhile_cons_of_pos (by simpa using hrank)]
        obtain ⟨hlowest, hunary⟩ := rank_of_mem_binaryOperators ho
        obtain ⟨helse', hparen'⟩ := head_operationTokens hrest hm helse
        have hne : operator.kind ≠ .leftParen := by
          intro h
          rw [h] at ho
          exact absurd ho (by decide)
        have hshorter : ops.length < k := by
          rw [← hlength, List.length_cons]
          omega
        -- What binds tighter than the operator goes to its right operand.
        have hright := hu operator.kind.precedence (operationTokens ops ++ m) _
          (Nat.lt_trans hunary (by decide)) helse' hparen'
          fun left => ih _ hshorter ops hrest _ left rfl
        refine Reads.operators_binary hne hrank hright fun origin right _ _ => ?_
        have hdropped := List.length_dropWhile_le (fun o : Token × List Token =>
          operator.kind.precedence.rank < o.1.kind.precedence.rank) ops
        have hloop := ih _ (Nat.lt_of_le_of_lt hdropped hshorter) _
          (fun o ho => hrest o ((List.dropWhile_sublist _).subset ho)) level
          (.binary origin operator.kind left right) rfl
        rwa [dropWhile_dropWhile_of_imp] at hloop
        intro o ho
        rw [decide_eq_true_eq] at ho ⊢
        exact Nat.lt_trans hrank ho
      · rw [List.dropWhile_cons_of_neg (by simpa using hrank)]
        rw [htokens]
        exact Reads.operators_stop (Nat.le_of_not_lt hrank) trivial

/-- An operand and operations are an expression. -/
theorem readsExpression_of_operations {u : List Token} (hu : ReadsUnary u)
    {ops : List (Token × List Token)} (hops : ReadableOperations ops) :
    ReadsExpression (u ++ operationTokens ops) := by
  intro m hm helse
  obtain ⟨helse', hparen'⟩ := head_operationTokens hops hm helse
  have hall : (ops.dropWhile fun o => Precedence.lowest.rank < o.1.kind.precedence.rank) = [] := by
    refine List.dropWhile_eq_nil_iff.mpr fun o ho => ?_
    rw [decide_eq_true_eq]
    exact (rank_of_mem_binaryOperators (hops o ho).1).1
  rw [List.append_assoc]
  refine hu .lowest _ _ (by decide) helse' hparen' fun left => ?_
  have hloop := reads_operators ops hops hm helse .lowest left
  rwa [hall] at hloop

/-! ## Phrases by their derivations -/

/-- The tokens of a phrase can be read. Statements are dealt with apart. -/
def Readable : Phrase → List Token → Prop
  | .statements, _ | .statement, _ | .ending, _ => True
  | .block, ts => ReadsBlock ts
  | .expression, ts =>
    ∃ u ops, ts = u ++ operationTokens ops ∧ ReadsUnary u ∧ ReadableOperations ops
  | .unary, ts => ReadsUnary ts
  | .primary, ts => ReadsPrimary ts
  | .atom, ts => ReadsAtom ts
  | .alternative, ts => ∀ m : List Token, (m.headD Token.eof).kind ≠ .kwElse →
    Reads.Alternative (ts ++ m) (fun _ => True) m
  | .arguments, ts => ∀ (x : Lexeme) (closing : Token) (m : List Token),
    closing.kind = .rightParen →
    Reads (·.arguments x) (ts ++ closing :: m) (fun _ => True) m
  | .values, ts => ReadsValues ts
  | .parameters, ts => ∀ (x : Lexeme) (closing : Token) (m : List Token),
    closing.kind = .rightParen →
    Reads (·.parameters x) (ts ++ closing :: m) (fun _ => True) m
  | .names, ts => ReadsNames ts

/-- An expression by its operations. -/
theorem Readable.expression {e : List Token} (h : Readable .expression e) : ReadsExpression e := by
  obtain ⟨u, ops, rfl, hu, hops⟩ := h
  exact readsExpression_of_operations hu hops

/-- An expression before a token that could not be part of it. -/
theorem ReadsExpression.delimited {e : List Token} (h : ReadsExpression e) {t : Token}
    {kind : TokenKind} (ht : t.kind = kind) (hlowest : kind.precedence = .lowest)
    (helse : kind ≠ .kwElse) (m : List Token) :
    Reads (·.expression .lowest) (e ++ t :: m) (fun _ => True) (t :: m) := by
  subst ht
  exact h (t :: m) hlowest helse

theorem readsUnary_signed {operator : Token} {u : List Token}
    (ho : operator.kind ∈ TokenKind.unaryOperators) (hu : ReadsUnary u) :
    ReadsUnary (operator :: u) := by
  intro level m v hlevel helse hparen hm
  have hoperand := hu .unary m m (by decide) helse hparen fun left =>
    Reads.operators_stop (rank_le_unary_of_ne hparen) trivial
  exact Reads.expression (Reads.operand_unary ho hoperand) fun left _ => hm left

theorem readsPrimary_call {opening closing : Token} {callee values : List Token}
    (hopening : opening.kind = .leftParen) (hclosing : closing.kind = .rightParen)
    (hcallee : ReadsPrimary callee) (hvalues : Readable .arguments values) :
    ReadsPrimary (callee ++ opening :: (values ++ [closing])) := by
  intro level m v hlevel helse hm
  have htokens : callee ++ opening :: (values ++ [closing]) ++ m =
      callee ++ opening :: (values ++ closing :: m) := by simp
  rw [htokens]
  refine hcallee level _ _ hlevel (by rw [List.headD_cons, hopening]; decide) fun left => ?_
  exact Reads.operators_call (P := fun _ => True) hopening hlevel
    (fun x => hvalues x closing m hclosing) fun origin values _ _ => hm _

theorem readsAtom_grouped {opening closing : Token} {inner : List Token}
    (hopening : opening.kind = .leftParen) (hclosing : closing.kind = .rightParen)
    (hinner : ReadsExpression inner) : ReadsAtom (opening :: (inner ++ [closing])) := by
  intro m _
  have htokens : opening :: (inner ++ [closing]) ++ m = opening :: (inner ++ closing :: m) := by
    simp
  rw [htokens]
  exact Reads.operand_grouped hopening hclosing (hinner.delimited hclosing rfl (by decide) m)

theorem readsValues_last {value : List Token} (hvalue : ReadsExpression value) :
    ReadsValues value := by
  intro closing m hclosing
  refine ⟨_, hvalue.delimited hclosing rfl (by decide) m, Reads.moreArguments_stop ?_ trivial⟩
  rw [List.headD_cons, hclosing]
  decide

theorem readsValues_more {comma : Token} {value rest : List Token} (hcomma : comma.kind = .comma)
    (hvalue : ReadsExpression value) (hrest : ReadsValues rest) :
    ReadsValues (value ++ comma :: rest) := by
  intro closing m hclosing
  obtain ⟨w, hfirst, hmore⟩ := hrest closing m hclosing
  rw [List.append_assoc]
  refine ⟨_, hvalue.delimited hcomma rfl (by decide) (rest ++ closing :: m), ?_⟩
  exact (Reads.moreArguments_comma hcomma hfirst hmore).imp fun _ _ => trivial

theorem readsAtom_conditional {word opening closing : Token}
    {condition consequence alternative : List Token} (hword : word.kind = .kwIf)
    (hopening : opening.kind = .leftParen) (hclosing : closing.kind = .rightParen)
    (hcondition : ReadsExpression condition) (hconsequence : ReadsBlock consequence)
    (halternative : Readable .alternative alternative) :
    ReadsAtom (word :: opening :: (condition ++ closing :: (consequence ++ alternative))) := by
  intro m helse
  obtain ⟨brace, body, rfl, hbrace, hbody⟩ := hconsequence
  have htokens : word :: opening :: (condition ++ closing :: (brace :: body ++ alternative)) ++ m =
      word :: opening :: (condition ++ closing :: brace :: (body ++ (alternative ++ m))) := by simp
  rw [htokens]
  have hc := hcondition.delimited hclosing rfl (by decide) (brace :: (body ++ (alternative ++ m)))
  exact (Reads.operand_conditional hword hopening hclosing hbrace hc
    (fun x _ => hbody (alternative ++ m) x) (halternative m helse)).imp fun _ _ => trivial

theorem readsAtom_function {word opening closing : Token} {names body : List Token}
    (hword : word.kind = .kwFn) (hopening : opening.kind = .leftParen)
    (hclosing : closing.kind = .rightParen) (hnames : Readable .parameters names)
    (hbody : ReadsBlock body) :
    ReadsAtom (word :: opening :: (names ++ closing :: body)) := by
  intro m _
  obtain ⟨brace, body, rfl, hbrace, hbody⟩ := hbody
  have htokens : word :: opening :: (names ++ closing :: brace :: body) ++ m =
      word :: opening :: (names ++ closing :: brace :: (body ++ m)) := by simp
  rw [htokens]
  exact (Reads.operand_function hword hopening hbrace
    (fun x => hnames x closing (brace :: (body ++ m)) hclosing)
    fun x _ => hbody m x).imp fun _ _ => trivial

theorem readsBlock_braces {opening closing : Token} {body : List Token}
    (hopening : opening.kind = .leftBrace) (hclosing : closing.kind = .rightBrace)
    (hbody : ReadsStatements body) : ReadsBlock (opening :: (body ++ [closing])) := by
  refine ⟨opening, body ++ [closing], rfl, hopening, fun m x => ?_⟩
  have hends : Enclosure.braces.endsAt ((closing :: m).headD Token.eof).kind := by
    rw [List.headD_cons, hclosing]
    rfl
  rw [List.append_assoc]
  exact (Reads.block (hbody .braces (closing :: m) hends)).imp fun _ _ => trivial

theorem readable_parameters {names : List Token} (hnames : ReadsNames names) :
    Readable .parameters names := by
  intro x closing m hclosing
  obtain ⟨name, rest, rfl, hname, hrest⟩ := hnames
  exact (Reads.parameters_some hname hclosing (hrest closing m hclosing)).imp fun _ _ => trivial

theorem readsNames_more {name comma : Token} {rest : List Token} (hname : name.kind = .ident)
    (hcomma : comma.kind = .comma) (hrest : ReadsNames rest) :
    ReadsNames (name :: comma :: rest) := by
  obtain ⟨second, rest, rfl, hsecond, hmore⟩ := hrest
  refine ⟨name, comma :: second :: rest, rfl, hname, fun closing m hclosing => ?_⟩
  exact (Reads.moreParameters_comma hcomma hsecond (hmore closing m hclosing)).imp
    fun _ _ => trivial

theorem readable_arguments {values : List Token} (hvalues : ReadsValues values)
    (hstarts : (values.headD Token.eof).kind.startsExpression) : Readable .arguments values := by
  intro x closing m hclosing
  obtain ⟨w, hfirst, hmore⟩ := hvalues closing m hclosing
  have hne : ((values ++ closing :: m).headD Token.eof).kind ≠ .rightParen := by
    rw [headD_append_of_starts _ hstarts]
    exact TokenKind.ne_of_startsExpression hstarts rfl
  exact (Reads.arguments_some hne hclosing hfirst hmore).imp fun _ _ => trivial

/-- **Phrases of at most `n` tokens can be read**, if statements of fewer tokens can. The statements
of a block are fewer than the tokens of what the block is part of. -/
theorem readable_of_derives {n : Nat}
    (hshorter : ∀ ss, ss.length < n → Derives .statements ss → ReadsStatements ss)
    {phrase : Phrase} {ts : List Token} (h : Derives phrase ts) (hn : ts.length ≤ n) :
    Readable phrase ts := by
  induction h with
  | noStatements | moreStatements | binding | returning | nested | evaluation | noEnding
  | semicolon => trivial
  | braces hopening hclosing hbody _ =>
    -- The statements of a block may have to be split in another way, so that their own derivation
    -- is of no use here; but they are fewer tokens.
    refine readsBlock_braces hopening hclosing (hshorter _ ?_ hbody)
    simp only [List.length_cons, List.length_append] at hn
    omega
  | operand _ ih => exact ⟨_, [], (List.append_nil _).symm, ih hn, nofun⟩
  | @binary operator left right ho _ _ ihl ihr =>
    -- However an expression is put together, it is an operand and a list of operations.
    simp only [List.length_cons, List.length_append] at hn
    obtain ⟨u, ops, rfl, hu, hops⟩ := ihl (by omega)
    refine ⟨u, ops ++ [(operator, right)], ?_, hu, List.forall_mem_append.mpr ⟨hops, ?_⟩⟩
    · simp only [operationTokens, List.flatMap_append, List.flatMap_singleton, List.append_assoc]
    · exact List.forall_mem_singleton.mpr ⟨ho, ihr (by omega)⟩
  | plain _ ih =>
    exact fun level m v hlevel helse _ hm => ih hn level m v hlevel helse hm
  | signed ho _ ih => exact readsUnary_signed ho (ih (by rw [List.length_cons] at hn; omega))
  | single _ ih =>
    exact fun level m v _ helse hm => Reads.expression (ih hn m helse) fun left _ => hm left
  | call hopening hclosing _ _ ihcallee iharguments =>
    simp only [List.length_cons, List.length_append] at hn
    exact readsPrimary_call hopening hclosing (ihcallee (by omega)) (iharguments (by omega))
  | ident ht => exact fun m _ => (Reads.operand_ident ht).imp fun _ _ => trivial
  | integer ht hfits =>
    obtain ⟨k, hdigits, hk⟩ := hfits
    obtain ⟨value, hvalue⟩ := Text.exists_int64OfInt?_natCast.mpr hk
    rw [← Text.int64OfDecimal?_of_digits hdigits] at hvalue
    exact fun m _ => (Reads.operand_int ht hvalue).imp fun _ _ => trivial
  | string ht => exact fun m _ => (Reads.operand_string ht).imp fun _ _ => trivial
  | @boolean t ht =>
    intro m _
    rcases ht with ht | ht
    · have htrue : t.kind = if true then .kwTrue else .kwFalse := ht
      exact (Reads.operand_boolean htrue).imp fun _ _ => trivial
    · have hfalse : t.kind = if false then .kwTrue else .kwFalse := ht
      exact (Reads.operand_boolean hfalse).imp fun _ _ => trivial
  | grouped hopening hclosing _ ih =>
    simp only [List.length_cons, List.length_append] at hn
    exact readsAtom_grouped hopening hclosing (Readable.expression (ih (by omega)))
  | conditional hword hopening hclosing _ _ _ ihcondition ihconsequence ihalternative =>
    simp only [List.length_cons, List.length_append] at hn
    have hcondition := Readable.expression (ihcondition (by omega))
    exact readsAtom_conditional hword hopening hclosing hcondition (ihconsequence (by omega))
      (ihalternative (by omega))
  | function hword hopening hclosing _ _ ihparameters ihbody =>
    simp only [List.length_cons, List.length_append] at hn
    exact readsAtom_function hword hopening hclosing (ihparameters (by omega)) (ihbody (by omega))
  | noAlternative => exact fun m helse => Or.inl ⟨rfl, helse, trivial⟩
  | otherwise hword _ ih =>
    intro m _
    obtain ⟨brace, rest, rfl, hbrace, hrest⟩ := ih (by rw [List.length_cons] at hn; omega)
    exact Or.inr ⟨_, brace, rest ++ m, rfl, hword, hbrace, fun x _ => hrest m x⟩
  | noArguments =>
    exact fun x closing m hclosing => Reads.arguments_none (Q := fun _ => True) hclosing trivial
  | someArguments hvalues ih => exact readable_arguments (ih hn) hvalues.starts_values
  | lastValue _ ih => exact readsValues_last (Readable.expression (ih hn))
  | moreValues hcomma _ _ ihvalue ihrest =>
    simp only [List.length_cons, List.length_append] at hn
    exact readsValues_more hcomma (Readable.expression (ihvalue (by omega))) (ihrest (by omega))
  | noParameters => exact fun x closing m hclosing => Reads.parameters_none hclosing trivial
  | someParameters _ ih => exact readable_parameters (ih hn)
  | lastName hname =>
    refine ⟨_, [], rfl, hname, fun closing m hclosing => Reads.moreParameters_stop ?_ trivial⟩
    rw [List.nil_append, List.headD_cons, hclosing]
    decide
  | moreNames hname hcomma _ ih =>
    exact readsNames_more hname hcomma (ih (by simp only [List.length_cons] at hn; omega))

/-! ## Statements -/

/-- What a statement with a value starts with: a name and an equals sign after `let`, or `return`,
or nothing. -/
structure IsLead (lead : List Token) : Prop where
  derives : ∀ {value ending : List Token}, Derives .expression value → Derives .ending ending →
    Derives .statement (lead ++ (value ++ ending))
  reads : ∀ {u v w : List Token}, (u.headD Token.eof).kind.startsExpression →
    Reads (·.expression .lowest) u (fun _ => True) v →
    Reads (fun _ => finish) v (fun _ => True) w →
    Reads (·.statement) (lead ++ u) (fun _ => True) w

/-- A statement is a block or has a value. -/
theorem Derives.exists_lead {s : List Token} (h : Derives .statement s) :
    Derives .block s ∨ ∃ lead value ending, s = lead ++ (value ++ ending) ∧ IsLead lead ∧
      Derives .expression value ∧ Derives .ending ending := by
  cases h with
  | @binding word name assign value ending hword hname hassign hvalue hending =>
    refine Or.inr ⟨[word, name, assign], value, ending, rfl, ⟨?_, ?_⟩, hvalue, hending⟩
    · intro value ending hvalue hending
      show Derives .statement (word :: name :: assign :: (value ++ ending))
      exact .binding hword hname hassign hvalue hending
    · intro u v w _ hvalue hfinish
      exact (Reads.statement_binding hword hname hassign hvalue hfinish).imp fun _ _ => trivial
  | @returning word value ending hword hvalue hending =>
    refine Or.inr ⟨[word], value, ending, rfl, ⟨?_, ?_⟩, hvalue, hending⟩
    · intro value ending hvalue hending
      show Derives .statement (word :: (value ++ ending))
      exact .returning hword hvalue hending
    · intro u v w _ hvalue hfinish
      exact (Reads.statement_returning hword hvalue hfinish).imp fun _ _ => trivial
  | nested hbody => exact Or.inl hbody
  | @evaluation value ending hvalue hending =>
    refine Or.inr ⟨[], value, ending, rfl, ⟨?_, ?_⟩, hvalue, hending⟩
    · intro value ending hvalue hending
      show Derives .statement (value ++ ending)
      exact .evaluation hvalue hending
    · intro u v w hstarts hvalue hfinish
      exact (Reads.statement_expression hstarts hvalue hfinish).imp fun _ _ => trivial

/-- What stands after a statement. -/
def FollowsStatement (kind : TokenKind) : Prop :=
  kind.startsStatement ∨ kind = .eof ∨ kind = .rightBrace

/-- After a statement comes another one, or the end. -/
theorem followsStatement_head {ss : List (List Token)} (hss : ∀ s ∈ ss, Derives .statement s)
    {enclosure : Enclosure} {m : List Token} (hm : enclosure.endsAt (m.headD Token.eof).kind) :
    FollowsStatement ((ss.flatten ++ m).headD Token.eof).kind := by
  cases ss with
  | nil =>
    refine Or.inr ?_
    cases enclosure with
    | file => exact Or.inl (of_decide_eq_true hm)
    | braces => simpa [Enclosure.endsAt] using hm
  | cons s ss =>
    have hstarts := (hss s List.mem_cons_self).starts_statement
    cases s with
    | nil => cases hstarts
    | cons t s => exact Or.inl hstarts

/-- A token after a statement that does not join the statement's value has nothing to do with it. -/
theorem FollowsStatement.apart {kind : TokenKind} (h : FollowsStatement kind)
    (hjoin : kind ∉ Derives.joining) :
    kind.precedence = .lowest ∧ kind ≠ .kwElse ∧ kind ≠ .semicolon := by
  rcases h with h | rfl | rfl
  · cases kind <;>
      first
      | exact absurd h (by decide)
      | exact absurd hjoin (by decide)
      | exact ⟨rfl, by decide, by decide⟩
  · exact ⟨rfl, by decide, by decide⟩
  · exact ⟨rfl, by decide, by decide⟩

/-- The end of statements joins nothing. -/
theorem not_mem_joining_of_endsAt {enclosure : Enclosure} {kind : TokenKind}
    (h : enclosure.endsAt kind) : kind ∉ Derives.joining := by
  intro hjoin
  simp only [Derives.joining, List.mem_cons, List.not_mem_nil, or_false] at hjoin
  rcases hjoin with rfl | rfl
  · cases enclosure <;> cases h
  · cases enclosure <;> cases h

/-- A statement that can be read and what comes after it. -/
theorem reads_statements_cons {s w m : List Token} {enclosure : Enclosure}
    (hs : Derives .statement s) (hfirst : Reads (·.statement) (s ++ w) (fun _ => True) w)
    (hrest : Reads (·.statements enclosure) w (fun _ => True) m) :
    Reads (·.statements enclosure) (s ++ w) (fun _ => True) m := by
  have hstarts : ((s ++ w).headD Token.eof).kind.startsStatement := by
    have hstarts := hs.starts_statement
    cases s with
    | nil => cases hstarts
    | cons t s => exact hstarts
  refine (Reads.statements_cons ?_ ?_ hfirst hrest).imp fun _ _ => trivial
  · intro h
    rw [h] at hstarts
    cases hstarts
  · intro h
    rw [h] at hstarts
    cases hstarts

/-- A statement with a value that what comes next does not join. -/
theorem IsLead.reads_apart {lead value ending w : List Token} (hlead : IsLead lead)
    (hvalue : Derives .expression value) (hread : ReadsExpression value)
    (hending : Derives .ending ending) (hw : FollowsStatement (w.headD Token.eof).kind)
    (hapart : ending = [] → (w.headD Token.eof).kind ∉ Derives.joining) :
    Reads (·.statement) (lead ++ (value ++ ending) ++ w) (fun _ => True) w := by
  have hstarts : ∀ m, ((value ++ m).headD Token.eof).kind.startsExpression := fun m => by
    rw [headD_append_of_starts _ hvalue.starts_expression]
    exact hvalue.starts_expression
  rw [List.append_assoc, List.append_assoc]
  cases hending with
  | noEnding =>
    obtain ⟨hlowest, helse, hsemicolon⟩ := hw.apart (hapart rfl)
    exact hlead.reads (hstarts w) (hread w hlowest helse) (Reads.finish_open hsemicolon)
  | semicolon hmark =>
    exact hlead.reads (hstarts _) (hread.delimited hmark rfl (by decide) w)
      (Reads.finish_semicolon hmark)

/-- Statements can be read if their expressions and blocks can. -/
theorem readsStatements_flatten {n : Nat}
    (hexpression : ∀ e, e.length ≤ n → Derives .expression e → ReadsExpression e)
    (hblock : ∀ b, b.length ≤ n → Derives .block b → ReadsBlock b)
    (ss : List (List Token)) (hss : ∀ s ∈ ss, Derives .statement s) (hn : ss.flatten.length ≤ n) :
    ReadsStatements ss.flatten := by
  -- Two statements that join are one, so the induction is on how many there are.
  induction hk : ss.length generalizing ss with
  | zero =>
    obtain rfl := List.eq_nil_of_length_eq_zero hk
    exact fun enclosure m hm => Reads.statements_stop hm trivial
  | succ k ih =>
    obtain ⟨s, rest, rfl⟩ := List.exists_cons_of_length_eq_add_one hk
    have hs := hss s List.mem_cons_self
    have hrest : ∀ s ∈ rest, Derives .statement s := fun s hs => hss s (List.mem_cons_of_mem _ hs)
    rw [List.length_cons, Nat.add_right_cancel_iff] at hk
    rw [List.flatten_cons, List.length_append] at hn
    have hothers := ih rest hrest (by omega) hk
    rw [List.flatten_cons]
    intro enclosure m hm
    rw [List.append_assoc]
    rcases hs.exists_lead with hbody | ⟨lead, value, ending, rfl, hlead, hvalue, hending⟩
    · refine reads_statements_cons hs ?_ (hothers enclosure m hm)
      obtain ⟨brace, body, rfl, hbrace, hbody⟩ := hblock s (by omega) hbody
      exact (Reads.statement_block hbrace fun x _ => hbody (rest.flatten ++ m) x).imp
        fun _ _ => trivial
    · have hread : ReadsExpression value := by
        refine hexpression value ?_ hvalue
        simp only [List.length_append] at hn
        omega
      by_cases hjoin : ending = [] ∧ ((rest.flatten ++ m).headD Token.eof).kind ∈ Derives.joining
      · -- The next statement is an expression that goes on with the value of this one.
        obtain ⟨rfl, hjoin⟩ := hjoin
        cases rest with
        | nil => exact absurd hjoin (not_mem_joining_of_endsAt hm)
        | cons t rest =>
          have ht := hrest t List.mem_cons_self
          have hhead : (t.headD Token.eof).kind ∈ Derives.joining := by
            cases t with
            | nil => cases ht.starts_statement
            | cons x t => exact hjoin
          obtain ⟨value', ending', rfl, hvalue', hending', hjoin'⟩ := ht.exists_evaluation hhead
          have hboth := hlead.derives (hvalue.join_expression hvalue' hjoin') hending'
          have hall := List.forall_mem_cons.mpr
            ⟨hboth, fun s hs => hrest s (List.mem_cons_of_mem _ hs)⟩
          have hsame : ((lead ++ (value ++ value' ++ ending')) :: rest).flatten =
              lead ++ (value ++ []) ++ ((value' ++ ending') :: rest).flatten := by
            simp only [List.flatten_cons, List.append_assoc, List.nil_append]
          have hjoined := ih _ hall (by rw [hsame, List.length_append]; exact hn)
            (by rw [List.length_cons] at hk ⊢; exact hk) enclosure m hm
          rwa [hsame, List.append_assoc] at hjoined
      · refine reads_statements_cons hs ?_ (hothers enclosure m hm)
        refine hlead.reads_apart hvalue hread hending (followsStatement_head hrest hm) ?_
        exact fun hending hkind => hjoin ⟨hending, hkind⟩

/-- Statements one by one. -/
theorem Derives.exists_flatten {ts : List Token} (h : Derives .statements ts) :
    ∃ ss : List (List Token), ts = ss.flatten ∧ ∀ s ∈ ss, Derives .statement s := by
  generalize hphrase : Phrase.statements = phrase at h
  induction h with
  | noStatements => exact ⟨[], rfl, nofun⟩
  | moreStatements hs _ _ ih =>
    obtain ⟨ss, rfl, hss⟩ := ih rfl
    exact ⟨_ :: ss, List.flatten_cons.symm, List.forall_mem_cons.mpr ⟨hs, hss⟩⟩
  | _ => cases hphrase

/-- **Statements of the language are read without errors.** -/
theorem readsStatements_of_derives {ts : List Token} (h : Derives .statements ts) :
    ReadsStatements ts := by
  induction hn : ts.length using Nat.strongRecOn generalizing ts with
  | ind n ih =>
    have hshorter : ∀ ss : List Token, ss.length < n → Derives .statements ss →
        ReadsStatements ss := fun ss hlt hss => ih ss.length hlt hss rfl
    obtain ⟨ss, rfl, hss⟩ := h.exists_flatten
    refine readsStatements_flatten ?_ ?_ ss hss (Nat.le_of_eq hn)
    · exact fun e he hderives => (readable_of_derives hshorter hderives he).expression
    · exact fun b hb hderives => readable_of_derives hshorter hderives hb

end ScriptLang
