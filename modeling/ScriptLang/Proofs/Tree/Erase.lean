import ScriptLang.Tree.Form

/-!
# Trees without places

Erasing takes the spans out of a tree, and the tokens that expression statements start with. These
are what a tree owes to the layout of its source; everything else stays, node for node. The
canonical form shows nothing of what is erased.
-/

namespace ScriptLang

/-- An origin without its span. -/
def Origin.erase (o : Origin) : Origin := { o with span := default }

/-- An identifier without its span. -/
def Ident.erase (i : Ident) : Ident := ⟨i.origin.erase⟩

mutual

/-- An expression without places. -/
def Expr.erase : Expr → Expr
  | .ident name => .ident name.erase
  | .integer origin value => .integer origin.erase value
  | .string origin => .string origin.erase
  | .boolean origin value => .boolean origin.erase value
  | .unary origin operator operand => .unary origin.erase operator operand.erase
  | .binary origin operator left right => .binary origin.erase operator left.erase right.erase
  | .conditional origin condition consequence alternative =>
    .conditional origin.erase condition.erase consequence.erase (Block.eraseElse alternative)
  | .function origin parameters body =>
    .function origin.erase (parameters.map Ident.erase) body.erase
  | .call origin callee arguments => .call origin.erase callee.erase (Expr.eraseAll arguments)

/-- Expressions without places. -/
def Expr.eraseAll : List Expr → List Expr
  | [] => []
  | e :: es => e.erase :: Expr.eraseAll es

/-- A statement without places. The token of an expression statement is erased too. -/
def Stmt.erase : Stmt → Stmt
  | .binding origin name value => .binding origin.erase name.erase value.erase
  | .returning origin value => .returning origin.erase value.erase
  | .expression _ value => .expression default value.erase
  | .block body => .block body.erase

/-- A block without places. -/
def Block.erase : Block → Block
  | .mk origin statements => .mk origin.erase (Stmt.eraseAll statements)

/-- The alternative of a conditional without places. -/
def Block.eraseElse : Option Block → Option Block
  | none => none
  | some body => some body.erase

/-- Statements without places. -/
def Stmt.eraseAll : List Stmt → List Stmt
  | [] => []
  | s :: rest => s.erase :: Stmt.eraseAll rest

end

/-- A program without places. -/
def Program.erase (p : Program) : Program := ⟨Stmt.eraseAll p.statements, default⟩

theorem Stmt.length_eraseAll (ss : List Stmt) : (Stmt.eraseAll ss).length = ss.length := by
  induction ss with
  | nil => rfl
  | cons s rest ih => simp [Stmt.eraseAll, ih]

/-! ## The canonical form -/

/-- Statements of a block, one after the other. -/
theorem Stmt.spacedForms_cons (s : Stmt) (rest : List Stmt) :
    Stmt.spacedForms (s :: rest) = s.endedForm ++ " " ++ Stmt.spacedForms rest := by
  cases s with
  | expression origin value =>
    simp only [Stmt.spacedForms, Stmt.endedForm, String.append_assoc]
    rfl
  | _ => rfl

/-- A statement that keeps its form keeps the semicolon that may end it. -/
theorem Stmt.endedForm_erase_of_form {s : Stmt} (h : s.erase.form = s.form) :
    s.erase.endedForm = s.endedForm := by
  cases s with
  | expression origin value =>
    simp only [Stmt.erase, Stmt.form] at h
    simp only [Stmt.erase, Stmt.endedForm, Stmt.form, h]
  | _ => exact h

/-- Parameters keep their names. -/
theorem Ident.listForm_erase (names : List Ident) :
    Ident.listForm (names.map Ident.erase) = Ident.listForm names := by
  rw [Ident.listForm, Ident.listForm, List.map_map]
  rfl

mutual

/-- Erasing does not change the form of an expression. -/
theorem Expr.form_erase (e : Expr) : e.erase.form = e.form := by
  match e with
  | .ident name => rfl
  | .integer origin value => rfl
  | .string origin => rfl
  | .boolean origin value => rfl
  | .unary origin operator operand =>
    simp only [Expr.erase, Expr.form, Expr.form_erase operand]
  | .binary origin operator left right =>
    simp only [Expr.erase, Expr.form, Expr.form_erase left, Expr.form_erase right]
  | .conditional origin condition consequence alternative =>
    simp only [Expr.erase, Expr.form, Expr.form_erase condition, Block.form_erase consequence,
      Block.elseForm_erase alternative]
  | .function origin parameters body =>
    simp only [Expr.erase, Expr.form, Ident.listForm_erase, Block.form_erase body]
    rfl
  | .call origin callee arguments =>
    simp only [Expr.erase, Expr.form, Expr.form_erase callee, Expr.forms_erase arguments]

/-- Erasing does not change the forms of expressions. -/
theorem Expr.forms_erase (es : List Expr) : Expr.forms (Expr.eraseAll es) = Expr.forms es := by
  match es with
  | [] => rfl
  | e :: es => simp only [Expr.eraseAll, Expr.forms, Expr.form_erase e, Expr.forms_erase es]

/-- Erasing does not change the form of a statement. -/
theorem Stmt.form_erase (s : Stmt) : s.erase.form = s.form := by
  match s with
  | .binding origin name value =>
    simp only [Stmt.erase, Stmt.form, Expr.form_erase value]
    rfl
  | .returning origin value =>
    simp only [Stmt.erase, Stmt.form, Expr.form_erase value]
    rfl
  | .expression origin value => simp only [Stmt.erase, Stmt.form, Expr.form_erase value]
  | .block body => simp only [Stmt.erase, Stmt.form, Block.form_erase body]

/-- Erasing does not change the form of a block. -/
theorem Block.form_erase (b : Block) : b.erase.form = b.form := by
  match b with
  | .mk origin statements =>
    simp only [Block.erase, Block.form, Stmt.spacedForms_erase statements]

/-- Erasing does not change the form of an alternative. -/
theorem Block.elseForm_erase (b : Option Block) :
    Block.elseForm (Block.eraseElse b) = Block.elseForm b := by
  match b with
  | none => rfl
  | some body => simp only [Block.eraseElse, Block.elseForm, Block.form_erase body]

/-- Erasing does not change the forms of statements. -/
theorem Stmt.spacedForms_erase (ss : List Stmt) :
    Stmt.spacedForms (Stmt.eraseAll ss) = Stmt.spacedForms ss := by
  match ss with
  | [] => rfl
  | s :: rest =>
    rw [Stmt.eraseAll, Stmt.spacedForms_cons, Stmt.spacedForms_cons, Stmt.spacedForms_erase rest,
      Stmt.endedForm_erase_of_form (Stmt.form_erase s)]

end

/-- **Erasing does not change the form of a program.** -/
theorem Program.form_erase (p : Program) : p.erase.form = p.form := by
  have hforms : ∀ ss, (Stmt.eraseAll ss).map Stmt.endedForm = ss.map Stmt.endedForm := by
    intro ss
    induction ss with
    | nil => rfl
    | cons s ss ih => rw [Stmt.eraseAll, List.map_cons, List.map_cons, ih,
        Stmt.endedForm_erase_of_form (Stmt.form_erase s)]
  rw [Program.form, Program.form, Program.erase, hforms]

end ScriptLang
