/-
The text of a program tells which program it is.

A program that was read from a text, whatever was wrong with the text,
holds names, numbers and strings that were cut out of it. They satisfy
the conditions under which they are scanned as they are written
(`Listing.ofSource_lexical`), so the text of the program is scanned as
the tokens it was written with, and these determine the program.

Nothing is said about reading the text back: it may well be read as
another program.
-/
import Scriptlet.Proofs.Expr.Distinct
import Scriptlet.Proofs.Program.Leaves

namespace Scriptlet

-- ============================================================ programs

/-- What a scanned token is read as is scanned as it is written. -/
private theorem Token.Scanned.lexical_admits {t : Token} (scanned : t.Scanned) :
    lexical.Admits t := by
  cases t with
  | ident name => exact scanned.isName
  | int digits =>
      intro w means
      show 0 ≤ w.toInt
      rw [(ofDigits?_eq_some_iff.1 means).2]
      exact Int.natCast_nonneg _
  | str body => exact scanned.no_quote
  | illegal | symbol | keyword => trivial

/-- Every tree that is read from a source has names, numbers and strings as
a source can have them. -/
private theorem Listing.ofSource_lexical (source : String) :
    Stmt.AllObey lexical (Listing.ofSource source).program := by
  have leafwise : lexical.Leafwise := ⟨fun _ => trivial, fun _ _ => trivial⟩
  refine Listing.ofTokens_obeys leafwise (tokenize source) fun t mem => ?_
  exact ((spells_tokens source.toList).scanned t mem).lexical_admits

/-- Programs with one text are one program, by the tokens of the text. -/
theorem Program.source_injective {p q : Program}
    (scanned_p : Stmt.AllObey lexical p) (scanned_q : Stmt.AllObey lexical q)
    (same : p.source = q.source) : p = q := by
  have same_tokens := congrArg tokenize same
  rw [tokenize_source scanned_p, tokenize_source scanned_q] at same_tokens
  exact Stmt.sourceTokensAll_injective same_tokens

-- ============================================================= results

/-- Programs with the same text are the same: those that were read from
sources, with or without diagnostics, and all others whose names,
numbers and strings are scanned as they are written. -/
theorem Program.source_faithful :
    (∀ a b : String,
      (Listing.ofSource a).program.source
        = (Listing.ofSource b).program.source →
      (Listing.ofSource a).program = (Listing.ofSource b).program)
    ∧ ∀ p q : Program, Stmt.AllObey lexical p → Stmt.AllObey lexical q →
      p.source = q.source → p = q :=
  ⟨fun a b => Program.source_injective (Listing.ofSource_lexical a)
    (Listing.ofSource_lexical b), fun _ _ => Program.source_injective⟩

/-- Two sources that leave the same program when what is wrong with one
of them is dropped, and two programs that differ: `f` called with `-x`,
and `f` with a statement `-x` behind it. -/
theorem Program.source_faithful_juxtaposed :
    let a := "if (x) { f(1)(2) -x } let = 3;"
    let b := "if(x){ f (1) (2) - (x); }"
    let called : Program :=
      [.expr (.call (.ident "f") [.unary .neg (.ident "x")])]
    let apart : Program := [.expr (.ident "f"),
      .expr (.unary .neg (.ident "x"))]
    (Listing.ofSource a).diagnostics ≠ []
      ∧ (Listing.ofSource b).diagnostics = []
      ∧ (Listing.ofSource a).program = (Listing.ofSource b).program
      ∧ Stmt.AllObey lexical called ∧ Stmt.AllObey lexical apart
      ∧ called.source ≠ apart.source := by
  intro a b called apart
  have names : IsName "f" ∧ IsName "x" := by decide
  have scanned : Stmt.AllObey lexical called ∧ Stmt.AllObey lexical apart := by
    simp [called, apart, Stmt.AllObey, Stmt.Obeys, Expr.Obeys, Expr.AllObey,
      lexical, names]
  have same : (Listing.ofSource a).program.source
      = (Listing.ofSource b).program.source := by
    decide +kernel
  refine ⟨by decide +kernel, by decide +kernel,
    Program.source_faithful.1 a b same, scanned.1, scanned.2,
    fun same_text => ?_⟩
  have equal := Program.source_faithful.2 called apart scanned.1
      scanned.2 same_text
  exact absurd equal (by simp [called, apart])

end Scriptlet
