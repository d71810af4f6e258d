import MessageCatalog.Proofs.TidyExpressions

/-! All that a script can say is tidy: every rule for statements answers a tidy tree, and so does
the whole parser, whatever the nesting. -/

set_option mvcgen.warning false

namespace MessageCatalog.Script
open Node (IsExpression IsTidy)

attribute [grind ←] Node.isTidy_of_parts Node.isTidy_declarations
attribute [grind →] Node.IsExpression.tidy

namespace Parser
open Std.Do

@[spec] theorem statementOf_spec (s : Nat) {parts : List Node} (h : ∀ n ∈ parts, n.IsTidy) :
    Gives (statementOf s parts) IsTidy := by
  mvcgen [statementOf]
  all_goals grind -ring -linarith

section
variable {g : Grammar} (hg : g.Sound)
include hg

@[spec] theorem inParentheses_spec : Gives (inParentheses g) IsExpression := by
  mvcgen [inParentheses]

@[spec] theorem declaratorRule_spec : Gives (declaratorRule g) IsExpression := by
  mvcgen [declaratorRule]
  all_goals grind -ring -linarith

@[spec] theorem declarators_spec : Gives (declarators g) fun ns => ∀ n ∈ ns, n.IsExpression := by
  have hothers := many_gives IsExpression
  mvcgen [declarators, hothers]
  all_goals grind -ring -linarith

@[spec] theorem variableStatement_spec (s : Nat) (kind : VarKind) :
    Gives (variableStatement g s kind) IsTidy := by
  mvcgen [variableStatement]
  all_goals grind -ring -linarith

@[spec] theorem usingDeclaration_spec (s : Nat) : Gives (usingDeclaration g s) IsTidy := by
  mvcgen [usingDeclaration]
  all_goals grind -ring -linarith

@[spec] theorem functionDeclaration_spec (s : Nat) (isAsync : Bool) :
    Gives (functionDeclaration g s isAsync) IsTidy := by
  mvcgen [functionDeclaration]
  all_goals grind -ring -linarith

@[spec] theorem classDeclaration_spec (s : Nat) : Gives (classDeclaration g s) IsTidy := by
  mvcgen [classDeclaration]
  all_goals grind -ring -linarith

omit hg in
@[spec] theorem aliasDeclaration_spec (s : Nat) : Gives (aliasDeclaration g s) IsTidy := by
  mvcgen [aliasDeclaration]
  all_goals grind -ring -linarith

omit hg in
@[spec] theorem interfaceDeclaration_spec (s : Nat) : Gives (interfaceDeclaration g s) IsTidy := by
  mvcgen [interfaceDeclaration]
  all_goals grind -ring -linarith

@[spec] theorem enumMember_spec : Gives (enumMember g) IsExpression := by
  mvcgen [enumMember]
  all_goals grind -ring -linarith

@[spec] theorem enumDeclaration_spec (s : Nat) : Gives (enumDeclaration g s) IsTidy := by
  have hmembers := commaList_gives IsExpression
  mvcgen [enumDeclaration, hmembers]
  all_goals grind -ring -linarith

@[spec] theorem namespaceBody_spec : Gives (namespaceBody g) IsTidy := by
  have hitems := many_gives IsTidy
  mvcgen [namespaceBody, hitems]
  · grind -ring -linarith
  · grind -ring -linarith
  · show Node.IsTidy (.sequence _ _)
    exact Node.isTidy_of_parts rfl ‹_›

@[spec] theorem namespaceDeclaration_spec (s : Nat) :
    Gives (namespaceDeclaration g s) IsTidy := by
  mvcgen [namespaceDeclaration]
  all_goals grind -ring -linarith

@[spec] theorem plainDeclaration?_spec (s : Nat) :
    Gives (plainDeclaration? g s) fun r => ∀ n, r = some n → n.IsTidy := by
  mvcgen [plainDeclaration?]
  all_goals grind -ring -linarith

@[spec] theorem typedDeclaration?_spec (s bound : Nat) :
    Gives (typedDeclaration? g s bound) fun r => ∀ n, r = some n → n.IsTidy := by
  induction bound with
  | zero =>
    mvcgen -trivial [typedDeclaration?]
    all_goals grind -ring -linarith
  | succ bound ih =>
    mvcgen -trivial [typedDeclaration?, ih]
    all_goals grind -ring -linarith

@[spec] theorem declaration?_spec :
    Gives (declaration? g) fun r => ∀ n, r = some n → n.IsTidy := by
  mvcgen [declaration?]
  all_goals grind -ring -linarith

@[spec] theorem blockRule_spec : Gives (blockRule g) IsTidy := by
  mvcgen [blockRule]
  all_goals grind -ring -linarith

@[spec] theorem ifRule_spec (s : Nat) : Gives (ifRule g s) IsTidy := by
  mvcgen [ifRule]
  all_goals grind -ring -linarith

@[spec] theorem clauseBefore_spec (close : String) :
    Gives (clauseBefore g close) fun ns => ∀ n ∈ ns, n.IsTidy := by
  mvcgen [clauseBefore]
  all_goals grind -ring -linarith

@[spec] theorem forClauses_spec (isEach : Bool) :
    Gives (forClauses g isEach) fun ns => ∀ n ∈ ns, n.IsTidy := by
  refine gives_ite ?_ ?_
  · refine gives_skip fun _ => gives_bind (expressionWithin_spec hg) fun value hvalue => ?_
    exact gives_pure (List.forall_mem_singleton.2 hvalue.tidy)
  · refine gives_skip fun _ => gives_bind (clauseBefore_spec hg ";") fun test htest => ?_
    refine gives_skip fun _ => gives_bind (clauseBefore_spec hg ")") fun update hupdate => ?_
    exact gives_pure (List.forall_mem_append.2 ⟨htest, hupdate⟩)

@[spec] theorem forRest_spec (s : Nat) (isEach : Bool) {head : List Node}
    (hhead : ∀ n ∈ head, n.IsTidy) : Gives (forRest g s isEach head) IsTidy := by
  refine gives_bind (forClauses_spec hg isEach) fun clauses hclauses => gives_skip fun _ => ?_
  refine gives_bind hg.statement fun body hbody => statementOf_spec s ?_
  exact List.forall_mem_append.2
    ⟨List.forall_mem_append.2 ⟨hhead, hclauses⟩, List.forall_mem_singleton.2 hbody⟩

omit hg in
@[spec] theorem usingHead_spec : Gives usingHead IsTidy := by
  mvcgen [usingHead]
  all_goals grind -ring -linarith

@[spec] theorem forHead_spec : Gives (forHead g) fun r => ∀ n ∈ r.1, n.IsTidy := by
  have hpattern : ∀ n : Node, n.IsExpression → n.toPattern.IsTidy := fun _ h => h.toPattern.tidy
  mvcgen [forHead]
  all_goals grind -ring -linarith

@[spec] theorem forRule_spec (s : Nat) : Gives (forRule g s) IsTidy := by
  refine gives_skip fun _ => gives_skip fun _ => gives_skip fun _ => ?_
  exact gives_bind (forHead_spec hg) fun r hhead => forRest_spec hg s r.2 hhead

@[spec] theorem doRule_spec (s : Nat) : Gives (doRule g s) IsTidy := by
  refine gives_skip fun _ => gives_bind hg.statement fun body hbody => gives_skip fun _ => ?_
  refine gives_bind (inParentheses_spec hg) fun test htest => gives_skip fun _ => ?_
  refine statementOf_spec s (List.forall_mem_cons.2 ⟨htest.tidy, ?_⟩)
  exact List.forall_mem_singleton.2 hbody

@[spec] theorem caseRule_spec : Gives (caseRule g) IsTidy := by
  have hstatements := many_gives IsTidy
  mvcgen [caseRule, hstatements]
  all_goals grind -ring -linarith

@[spec] theorem switchRule_spec (s : Nat) : Gives (switchRule g s) IsTidy := by
  have hcase : Gives (do
      if ← isSymbol "\x7d" then return none else return some (← caseRule g)) fun r =>
        ∀ n ∈ r, n.IsTidy := by
    refine gives_skip fun _ => gives_ite (gives_pure nofun) ?_
    refine gives_bind (caseRule_spec hg) fun node hnode => gives_pure ?_
    rintro _ ⟨⟩
    exact hnode
  refine gives_skip fun _ => gives_bind (inParentheses_spec hg) fun value hvalue => ?_
  refine gives_skip fun _ => gives_bind (many_gives IsTidy _ hcase) fun cases hcases => ?_
  refine gives_skip fun _ => statementOf_spec s ?_
  exact List.forall_mem_cons.2 ⟨hvalue.tidy, hcases⟩

@[spec] theorem catchTarget_spec : Gives (catchTarget g) fun ns => ∀ n ∈ ns, n.IsTidy := by
  mvcgen [catchTarget]
  all_goals grind -ring -linarith

@[spec] theorem catchRule_spec : Gives (catchRule g) fun ns => ∀ n ∈ ns, n.IsTidy := by
  mvcgen [catchRule]
  all_goals grind -ring -linarith

@[spec] theorem finallyRule_spec : Gives (finallyRule g) fun ns => ∀ n ∈ ns, n.IsTidy := by
  mvcgen [finallyRule]
  all_goals grind -ring -linarith

@[spec] theorem tryRule_spec (s : Nat) : Gives (tryRule g s) IsTidy := by
  refine gives_skip fun _ => gives_bind (blockRule_spec hg) fun body hbody => ?_
  refine gives_bind (catchRule_spec hg) fun handler hhandler => ?_
  refine gives_bind (finallyRule_spec hg) fun final hfinal => ?_
  refine gives_ite (gives_fail) (statementOf_spec s ?_)
  exact List.forall_mem_cons.2 ⟨hbody, List.forall_mem_append.2 ⟨hhandler, hfinal⟩⟩

omit hg in
@[spec] theorem jumpRule_spec (s : Nat) : Gives (jumpRule s) IsTidy := by
  mvcgen [jumpRule]
  all_goals grind -ring -linarith

@[spec] theorem returnRule_spec (s : Nat) : Gives (returnRule g s) IsTidy := by
  mvcgen [returnRule]
  all_goals grind -ring -linarith

@[spec] theorem throwRule_spec (s : Nat) : Gives (throwRule g s) IsTidy := by
  mvcgen [throwRule]
  all_goals grind -ring -linarith

@[spec] theorem keywordStatement?_spec (s : Nat) (text : String) :
    Gives (keywordStatement? g s text) fun r => ∀ n, r = some n → n.IsTidy := by
  mvcgen -trivial [keywordStatement?]
  all_goals grind -ring -linarith

@[spec] theorem markedStatement?_spec (s : Nat) :
    Gives (markedStatement? g s) fun r => ∀ n, r = some n → n.IsTidy := by
  mvcgen -trivial [markedStatement?]
  all_goals grind -ring -linarith

@[spec] theorem expressionStatement_spec (s : Nat) : Gives (expressionStatement g s) IsTidy := by
  mvcgen [expressionStatement]
  all_goals grind -ring -linarith

theorem statementRule_spec : Gives (statementRule g) IsTidy := by
  refine gives_under _ (gives_skip fun s => ?_)
  refine gives_bind (declaration?_spec hg) fun declaration hdeclaration => ?_
  cases declaration with
  | some node => exact gives_pure (hdeclaration node rfl)
  | none =>
    refine gives_bind (markedStatement?_spec hg s) fun statement hstatement => ?_
    cases statement with
    | some node => exact gives_pure (hstatement node rfl)
    | none => exact expressionStatement_spec hg s

@[spec] theorem moduleSource_spec :
    Gives (moduleSource g) fun ns => ∀ n ∈ ns, n.IsExpression := by
  mvcgen [moduleSource]
  all_goals grind -ring -linarith

omit hg in
@[spec] theorem importAlias_spec (s : Nat) : Gives (importAlias s) IsTidy := by
  mvcgen [importAlias]
  all_goals grind -ring -linarith

@[spec] theorem importClause_spec (s : Nat) : Gives (importClause g s) IsTidy := by
  mvcgen [importClause]
  all_goals grind -ring -linarith

@[spec] theorem importDeclaration_spec (s : Nat) : Gives (importDeclaration g s) IsTidy := by
  mvcgen -trivial [importDeclaration]
  all_goals grind -ring -linarith

@[spec] theorem exportDefault_spec (s : Nat) : Gives (exportDefault g s) IsTidy := by
  mvcgen [exportDefault]
  all_goals grind -ring -linarith

@[spec] theorem exportAll_spec (s : Nat) : Gives (exportAll g s) IsTidy := by
  mvcgen [exportAll]
  all_goals grind -ring -linarith

@[spec] theorem exportSource_spec :
    Gives (exportSource g) fun ns => ∀ n ∈ ns, n.IsExpression := by
  mvcgen [exportSource]
  all_goals grind -ring -linarith

@[spec] theorem exportNames_spec (s : Nat) : Gives (exportNames g s) IsTidy := by
  mvcgen [exportNames]
  all_goals grind -ring -linarith

@[spec] theorem typedExport?_spec (s : Nat) :
    Gives (typedExport? g s) fun r => ∀ n, r = some n → n.IsTidy := by
  mvcgen -trivial [typedExport?]
  all_goals grind -ring -linarith

@[spec] theorem exportDeclaration_spec (s : Nat) : Gives (exportDeclaration g s) IsTidy := by
  mvcgen -trivial [exportDeclaration]
  all_goals grind -ring -linarith

theorem itemRule_spec : Gives (itemRule g) IsTidy := by
  mvcgen [itemRule]
  all_goals grind -ring -linarith

end

@[spec] theorem parseItems_spec {g : Grammar} (hg : g.Sound) :
    Gives (parseItems g) fun ns => ∀ n ∈ ns, n.IsTidy := by
  have hitems := many_gives IsTidy
  mvcgen [parseItems, hitems]
  all_goals grind -ring -linarith

end Parser

/-- A rule that always fails claims nothing; each level refers to the level below. -/
theorem Grammar.sound_nested (depth : Nat) : (Grammar.nested depth).Sound := by
  induction depth with
  | zero =>
    constructor <;> exact Parser.gives_fail
  | succ depth ih =>
    exact
      { expression := Parser.expressionRule_spec ih
        assignment := Parser.assignmentRule_spec ih
        unary := Parser.unaryRule_spec ih
        binding := Parser.bindingRule_spec ih
        element := Parser.elementRule_spec ih
        statement := Parser.statementRule_spec ih
        item := Parser.itemRule_spec ih }

theorem isTidy_of_parse {dialect : Dialect} {text : List Char} {parsed : Parsed}
    (h : parse dialect text = .ok parsed) : parsed.program.IsTidy := by
  have hitems := Parser.gives_iff.1 (Parser.parseItems_spec (Grammar.sound_nested
    (8 * text.length + 16)))
  unfold parse at h
  dsimp only at h
  split at h
  · rename_i items c hparse
    cases h
    exact hitems _ _ _ _ hparse
  · cases h

-- The specifications hold of parsers that fail; this one does not.
example : ((parse .plain "var a".toList).toOption.map fun parsed =>
    Node.hoistedNamesOfAll parsed.program.items) = some ["a"] := by
  cbv

end MessageCatalog.Script
