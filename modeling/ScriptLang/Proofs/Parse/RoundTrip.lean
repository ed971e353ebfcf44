import ScriptLang.Proofs.Parse.Acceptance
import ScriptLang.Proofs.Parse.Canonical

/-!
# Parsing the canonical form

Whatever a source looks like, and whatever is wrong with it, the canonical form of the program that
parsing leaves is a source without errors, and parsing that gives the program back, up to places.
-/

namespace ScriptLang

open ScriptLang.Parser

/-! ## Trees of a source -/

/-- What parsing leaves of a source is well formed. -/
theorem wellFormed_parse (source : String) :
    Stmt.AllWellFormed (parse source).program.statements := by
  have hsound : (TokenStream.ofLexemes (lex source)).IsSound :=
    (CharStream.ofChars source.toList).wellFormed_of_mem_lexemes
  obtain ⟨body, s, faults, h⟩ := exists_statements_eq (lex source)
  rw [parse, parseRead, parseTokens, program_of_statements h]
  exact ((derivedAt True _).statements ⟨faults, h, fun _ => trivial⟩).wellFormed hsound

/-! ## The round trip -/

/-- The form of a well-formed program is parsed as this program, up to places. -/
theorem Program.erase_parse_form {p : Program} (hp : Stmt.AllWellFormed p.statements) :
    (parse p.form).program.erase = p.erase := by
  have hread := Stmt.listIsRead p.statements hp .file [] rfl
  rw [List.append_nil] at hread
  exact congrArg (Program.mk · default) (parse_of_reads (p.readsAs hp).map_lex hread).2

/-- **The canonical form is parsed as what it is the form of.** Let `p` be the program that parsing
leaves of any source, be there errors in it or not. Then the form of `p` is parsed without errors,
its program has this form again, and it is `p` up to places. -/
theorem parse_form (source : String) :
    let p := (parse source).program
    let q := parse p.form
    q.errors = [] ∧ q.program.form = p.form ∧ q.program.erase = p.erase := by
  intro p q
  have hwf : Stmt.AllWellFormed p.statements := wellFormed_parse source
  have htokens := p.readsAs hwf _ (CharStream.chars_ofChars p.form.toList)
  have hread := Stmt.listIsRead p.statements hwf .file [] rfl
  rw [List.append_nil] at hread
  obtain ⟨herrors, hstatements⟩ := parseTokens_of_reads (holds_lex htokens).shows hread
  have herase : q.program.erase = p.erase := congrArg (Program.mk · default) hstatements
  refine ⟨herrors, ?_, herase⟩
  rw [← q.program.form_erase, herase, p.form_erase]

end ScriptLang
