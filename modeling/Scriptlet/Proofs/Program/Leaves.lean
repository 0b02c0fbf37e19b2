/-
Every name and every literal of a program was cut out of its source.

A tree may hold any text as a name and any string as a literal. A tree
that was read holds only what the tokens bring with them, and the tokens
bring only what stands in the source. So whatever is wrong with a source,
the part of it that could be read is a tree whose names are words and not
reserved, whose integers are written in the source in digits, and whose
strings are pieces of it (`Parser.readProgram_cutFrom`).

# The argument

Reading makes no name and no literal of its own, and changes none: each
comes out of one token. This is said once, for all rules that look at
names and literals only (`Rules.Leafwise`). If they hold of what each
single token is read as (`Rules.Admits`), they hold everywhere in what is
read from the tokens. For a phrase this is an induction on its derivation,
and for a program one along its statements, where those that could not be
read leave nothing behind. What is left to ask is what the tokens of a
source are, and that is known from how they are spelled.
-/
import Mathlib.Algebra.Group.Int.Defs
import Scriptlet.Proofs.Read.Front

namespace Scriptlet

-- ============================================================== tokens

theorem Token.Scanned.isName {name : String}
    (scanned : (Token.ident name).Scanned) :
    IsName name := by
  obtain ⟨_, _, spelled⟩ := scanned
  cases spelled with
  | ident word free _ => exact ⟨word, free⟩

theorem Token.Scanned.no_quote {body : String}
    (scanned : (Token.str body).Scanned) :
    '"' ∉ body.toList := by
  obtain ⟨_, _, spelled⟩ := scanned
  cases spelled with
  | str _ no_quote => exact no_quote
  | brokenStr no_quote => exact no_quote

/-- A string is spelled by its body and the quotes around it, of which
the second may be missing. -/
private theorem Token.Spelled.body_infix {body : String} {x rest : List Char}
    (spelled : (Token.str body).Spelled x rest) : body.toList <:+: x := by
  cases spelled with
  | str _ _ => exact ⟨['"'], ['"'], rfl⟩
  | brokenStr _ => exact ⟨['"'], [], by rw [List.append_nil]; rfl⟩

theorem Spells.body_infix {text : List Char} {ts : List Token}
    (spells : Spells text ts) {body : String} (mem : .str body ∈ ts) :
    body.toList <:+: text := by
  obtain ⟨before, x, rest, rfl, spelled⟩ := spells.stands mem
  exact spelled.body_infix.trans (List.infix_append before x rest)

-- =============================================================== rules

/-- Rules that ask something of names and literals only. -/
structure Rules.Leafwise (rules : Rules) : Prop where
  test (e : Expr) : rules.test e
  next (s t : Stmt) : rules.next s t

/-- The rules hold of the name or the literal that the token is read as,
if it is read as one. -/
def Rules.Admits (rules : Rules) : Token → Prop
  | .ident name => rules.name name
  | .int digits => ∀ w, Word.ofDigits? digits = some w → rules.int w
  | .str body => rules.str body
  | .illegal _ | .symbol _ | .keyword _ => True

-- ============================================================= phrases

/-- The rules hold in the tree that a phrase stands for. -/
def Phrase.Obeys (rules : Rules) : Phrase → Prop
  | .expr _ e => e.Obeys rules
  | .args es | .moreArgs es => Expr.AllObey rules es
  | .stmt s => s.Obeys rules
  | .stmts ss => Stmt.AllObey rules ss

private theorem ident_mem_paramTokens {name : String} {params : List String}
    (mem : name ∈ params) :
    .ident name ∈ paramTokens params := by
  cases params with
  | nil => cases mem
  | cons first others =>
      rcases List.mem_cons.1 mem with rfl | behind
      · exact List.mem_cons_self
      · refine List.mem_cons_of_mem _ (List.mem_flatMap.2 ⟨name, behind, ?_⟩)
        exact List.mem_cons_of_mem _ List.mem_cons_self

/-- What follows a phrase is among the tokens. -/
theorem Derives.forall_mem {x : Phrase} {ts rest : List Token}
    (d : Derives x ts rest) {P : Token → Prop} (all : ∀ t ∈ ts, P t) :
    ∀ t ∈ rest, P t := by
  obtain ⟨front, rfl, -⟩ := d.front
  exact (List.forall_mem_append.1 all).2

/-- Rules that hold of what each token is read as hold everywhere in the
tree of a phrase. -/
theorem Derives.obeys {rules : Rules} (leafwise : rules.Leafwise) {x : Phrase}
    {ts rest : List Token} (d : Derives x ts rest)
    (admitted : ∀ t ∈ ts, rules.Admits t) :
    x.Obeys rules := by
  induction d with
  | ident name rest => exact admitted (.ident name) List.mem_cons_self
  | @int digits w rest fits value =>
      exact admitted (.int digits) List.mem_cons_self w
        (ofDigits?_eq_some_iff.2 ⟨fits, value⟩)
  | str body rest => exact admitted (.str body) List.mem_cons_self
  | trueWord | falseWord => trivial
  | group _ inner => exact inner (List.forall_mem_cons.1 admitted).2
  | cond test_ok _ _ test yes =>
      have inside :=
        (List.forall_mem_cons.1 (List.forall_mem_cons.1 admitted).2).2
      have behind := test_ok.forall_mem inside
      exact ⟨leafwise.test _, test inside,
        yes (List.forall_mem_cons.1 (List.forall_mem_cons.1 behind).2).2⟩
  | condElse test_ok yes_ok _ test yes no =>
      have inside :=
        (List.forall_mem_cons.1 (List.forall_mem_cons.1 admitted).2).2
      have behind := test_ok.forall_mem inside
      have inside_yes :=
        (List.forall_mem_cons.1 (List.forall_mem_cons.1 behind).2).2
      have behind_yes := yes_ok.forall_mem inside_yes
      rw [List.forall_mem_cons, List.forall_mem_cons, List.forall_mem_cons]
        at behind_yes
      exact ⟨leafwise.test _, test inside, yes inside_yes, no behind_yes.2.2.2⟩
  | @fn params _ _ _ _ body =>
      rw [List.forall_mem_cons, List.forall_mem_cons, List.forall_mem_append,
        List.forall_mem_cons, List.forall_mem_cons] at admitted
      refine ⟨fun name mem => ?_, body admitted.2.2.2.2.2⟩
      exact admitted.2.2.1 (.ident name) (ident_mem_paramTokens mem)
  | call callee_ok _ callee args =>
      exact ⟨callee admitted,
        args (List.forall_mem_cons.1 (callee_ok.forall_mem admitted)).2⟩
  | unary _ operand => exact operand (List.forall_mem_cons.1 admitted).2
  | binary left_ok _ left right =>
      exact ⟨left admitted,
        right (List.forall_mem_cons.1 (left_ok.forall_mem admitted)).2⟩
  | tighter _ inner => exact inner admitted
  | noArgs | noMoreArgs | noStmts => trivial
  | firstArg first_ok _ first others =>
      exact ⟨first admitted, others (first_ok.forall_mem admitted)⟩
  | nextArg next_ok _ next others =>
      have inside := (List.forall_mem_cons.1 admitted).2
      exact ⟨next inside, others (next_ok.forall_mem inside)⟩
  | bind _ _ value =>
      rw [List.forall_mem_cons, List.forall_mem_cons, List.forall_mem_cons]
        at admitted
      exact ⟨admitted.2.1, value admitted.2.2.2⟩
  | retBare => trivial
  | ret _ _ value => exact value (List.forall_mem_cons.1 admitted).2
  | expr _ _ value => exact value admitted
  | stmts first_ok _ first others =>
      exact ⟨first admitted, fun _ _ => leafwise.next _ _,
        others (first_ok.forall_mem admitted)⟩

-- ============================================================ programs

/-- The same of a program, with the malformed statements left out. -/
theorem Listing.ofTokens_obeys {rules : Rules} (leafwise : rules.Leafwise)
    (ts : List Token) (admitted : ∀ t ∈ ts, rules.Admits t) :
    Stmt.AllObey rules (Listing.ofTokens ts).program := by
  induction ts using Listing.ofTokens_induction with
  | nil => trivial
  | ok read ih =>
      have phrase := derives_of_readStmt read
      rw [Listing.ofTokens_of_ok read]
      exact ⟨phrase.obeys leafwise admitted, fun _ _ => leafwise.next _ _,
        ih (phrase.forall_mem admitted)⟩
  | error failed ih =>
      rw [Listing.ofTokens_of_error failed]
      exact ih fun t mem => admitted t ((resync_suffix _ _ _).subset mem)

-- ============================================================== result

/-- The names and literals that a source has to offer. A name starts with
a letter or an underscore, goes on with these and digits, is not reserved,
and is one of the tokens. An integer is between zero and the largest that
there is, and is the value of digits that are one of the tokens. A string
holds no quote, is a piece of the source, and is one of the tokens. -/
def cutFrom (source : String) : Rules where
  name name := IsName name ∧ Token.ident name ∈ tokenize source
  int w := (0 ≤ w.toInt ∧ w.toInt ≤ 2 ^ 63 - 1)
    ∧ ∃ digits, Token.int digits ∈ tokenize source ∧ w.toInt = decimal digits
  str body := '"' ∉ body.toList ∧ body.toList <:+: source.toList
    ∧ Token.str body ∈ tokenize source

/-- A source offers what its tokens are read as. -/
private theorem cutFrom_admits {source : String} {t : Token}
    (mem : t ∈ tokenize source) :
    (cutFrom source).Admits t := by
  have spells : Spells source.toList (tokenize source) :=
    spells_tokens source.toList
  have scanned := spells.scanned t mem
  cases t with
  | ident name => exact ⟨scanned.isName, mem⟩
  | int digits =>
      intro w means
      obtain ⟨fits, value⟩ := ofDigits?_eq_some_iff.1 means
      refine ⟨?_, digits, mem, value⟩
      rw [value]
      omega
  | str body => exact ⟨scanned.no_quote, spells.body_infix mem, mem⟩
  | illegal | symbol | keyword => trivial

/-- Whatever is wrong with a source, the program that is read from it
holds no names and literals, anywhere in it, but those that the source
has to offer. -/
theorem Parser.readProgram_cutFrom (source : String) :
    Stmt.AllObey (cutFrom source) (Parser.ofSource source).readProgram.1 := by
  have leafwise : (cutFrom source).Leafwise :=
    ⟨fun _ => trivial, fun _ _ => trivial⟩
  exact Listing.ofTokens_obeys leafwise (tokenize source)
    fun _ => cutFrom_admits

/-- In `let = 3; let _a1 = f(007); "open` the first statement is
malformed, the digits have zeros in front, and the string has no end. -/
theorem Parser.readProgram_cutFrom_malformed :
    let source := "let = 3; let _a1 = f(007); \"open"
    let p := Parser.ofSource source
    p.readProgram.2.diagnostics ≠ []
      ∧ p.readProgram.1
        = [.bind "_a1" (.call (.ident "f") [.int 7]), .expr (.str "open")]
      ∧ IsName "_a1" ∧ IsName "f"
      ∧ (∃ digits,
        Token.int digits ∈ tokenize source ∧ (7 : Int64).toInt = decimal digits)
      ∧ "open".toList <:+: source.toList := by
  intro source p
  have program : p.readProgram.1
      = [.bind "_a1" (.call (.ident "f") [.int 7]), .expr (.str "open")] :=
    by decide +kernel
  have obeys := Parser.readProgram_cutFrom source
  rw [program] at obeys
  obtain ⟨⟨name, callee, number, -⟩, -, string, -⟩ := obeys
  exact ⟨by decide +kernel, program, name.1, callee.1, number.2, string.2.1⟩

end Scriptlet
