import MessageCatalog.Proofs.ExpressionSpecs

/-! All that a script can say is laid out: every rule for statements lays out what it reads, and so
does the whole parser, whatever the nesting. -/

set_option mvcgen.warning false

namespace MessageCatalog.Script
open Node (Stand FunctionAt)

namespace Parser
open Std.Do

section
variable (c : Cursor)

@[spec 2000] theorem statementOf_lays (s : Nat) (parts : List Node) :
    Reading c (statementOf s parts) fun n c' => s < c.previousStop →
      Stand s c.previousStop parts → Stand s c'.previousStop [n] := by
  apply reading
  unfold statementOf
  mvcgen
  all_goals grind -ring -linarith [Node.parts]

@[spec 2000] theorem varKind?_peeks :
    Peeking c varKind? fun r => r.isSome → ∃ text, c.token = .word text false := by
  unfold varKind?
  mvcgen [-kind_spec]
  all_goals grind -ring -linarith

@[spec 2000] theorem precedes_peeks (accepts : Token → Bool) :
    Peeking c (precedes accepts) fun _ => True := by
  unfold precedes
  mvcgen [-bool_spec]

variable {g : Grammar} (hg : g.Lays)
include hg

@[spec 2000] theorem inParentheses_lays : Reading c (inParentheses g) fun n c' =>
    c.start < c'.previousStop ∧ Stand c.start c'.previousStop [n] := by
  apply reading
  unfold inParentheses
  mvcgen [-unit_spec]
  all_goals grind -ring -linarith

@[spec 2000] theorem declaratorRule_lays : Lays c (declaratorRule g) := by
  apply reading
  unfold declaratorRule whenTyped
  mvcgen [-unit_spec]
  all_goals grind -ring -linarith [Node.parts]

@[spec 2000] theorem declarators_lays : Reading c (declarators g) fun ns c' =>
    c.start < c'.previousStop ∧ Stand c.start c'.previousStop ns := by
  have hothers := many_nodes
  apply reading
  unfold declarators
  mvcgen [-unit_spec, hothers]
  all_goals grind -ring -linarith

@[spec 2000] theorem variableStatement_lays (s : Nat) (kind : VarKind) :
    Reading c (variableStatement g s kind) fun n c' =>
      s ≤ c.start → Stand s c'.previousStop [n] := by
  apply reading
  unfold variableStatement
  mvcgen [-unit_spec]
  all_goals grind -ring -linarith [Node.parts]

@[spec 2000] theorem usingDeclaration_lays (s : Nat) :
    Reading c (usingDeclaration g s) fun n c' => s ≤ c.start → Stand s c'.previousStop [n] := by
  apply reading
  unfold usingDeclaration
  mvcgen [-unit_spec]
  all_goals grind -ring -linarith [Node.parts]

@[spec 2000] theorem functionDeclaration_lays (s : Nat) (isAsync : Bool) :
    Reading c (functionDeclaration g s isAsync) fun n c' =>
      s ≤ c.start → Stand s c'.previousStop [n] := by
  apply reading
  unfold functionDeclaration
  mvcgen [-unit_spec]
  all_goals grind -ring -linarith [Node.parts]

@[spec 2000] theorem classDeclaration_lays (s : Nat) :
    Reading c (classDeclaration g s) fun n c' =>
      s ≤ c.start → Stand s c'.previousStop [n] := by
  apply reading
  unfold classDeclaration
  mvcgen [-unit_spec]
  all_goals grind -ring -linarith [Node.parts]

@[spec 2000] theorem aliasDeclaration_lays (s : Nat) :
    Reading c (aliasDeclaration g s) fun n c' =>
      s ≤ c.start → Stand s c'.previousStop [n] := by
  apply reading
  unfold aliasDeclaration
  mvcgen [-unit_spec]
  all_goals grind -ring -linarith [Node.parts]

@[spec 2000] theorem interfaceDeclaration_lays (s : Nat) :
    Reading c (interfaceDeclaration g s) fun n c' =>
      s ≤ c.start → Stand s c'.previousStop [n] := by
  apply reading
  unfold interfaceDeclaration
  mvcgen [-unit_spec]
  all_goals grind -ring -linarith [Node.parts]

@[spec 2000] theorem enumMember_lays : Lays c (enumMember g) := by
  apply reading
  unfold enumMember
  mvcgen [-unit_spec]
  all_goals grind -ring -linarith [Node.parts]

@[spec 2000] theorem enumDeclaration_lays (s : Nat) :
    Reading c (enumDeclaration g s) fun n c' =>
      s ≤ c.start → Stand s c'.previousStop [n] := by
  have hmember := fun c => readingGoal (enumMember_lays c hg)
  refine reading_bind (expectWord_reads c "enum") fun _ c₁ h₁ _ => ?_
  refine reading_bind (name_reads c₁) fun _ c₂ h₂ _ => ?_
  refine reading_bind (expectSymbol_reads c₂ _) fun _ c₃ h₃ _ => ?_
  refine reading_bind (commaList_nodes _ _ hmember c₃) fun members c₄ h₄ ⟨hlt, hmembers⟩ => ?_
  refine reading_peek (spanFrom_peeks c₄ s) fun span hspan => reading_pure fun hs => ?_
  have hstart : s ≤ c₃.start := Nat.le_trans hs (h₁.trans (h₂.trans h₃)).start_le
  have hparts := hmembers.mono hstart (Nat.le_refl _)
  exact hspan ▸ Node.stand_of_parts hparts rfl (Nat.lt_of_le_of_lt hstart hlt)

@[spec 2000] theorem namespaceBody_lays : Lays c (namespaceBody g) := by
  have hitems := many_nodes
  apply reading
  unfold namespaceBody
  mvcgen [-unit_spec, hitems]
  all_goals try simp only [wp_ok, wp_spanFrom]
  all_goals grind -ring -linarith [Node.parts, Cursor.Sound]

@[spec 2000] theorem namespaceDeclaration_lays (s : Nat) :
    Reading c (namespaceDeclaration g s) fun n c' =>
      s ≤ c.start → c.start < c.stop → Stand s c'.previousStop [n] := by
  apply reading
  unfold namespaceDeclaration
  mvcgen [-unit_spec]
  all_goals grind -ring -linarith [Node.parts]

@[spec 2000] theorem plainDeclaration?_lays (s : Nat) :
    Reading c (plainDeclaration? g s) fun r c' =>
      s ≤ c.start → ∀ n ∈ r, Stand s c'.previousStop [n] := by
  apply reading
  unfold plainDeclaration?
  mvcgen [-unit_spec]
  all_goals grind -ring -linarith

@[spec 2000] theorem typedDeclaration?_lays (s bound : Nat) :
    Reading c (typedDeclaration? g s bound) fun r c' =>
      s ≤ c.start → ∀ n ∈ r, Stand s c'.previousStop [n] := by
  induction bound generalizing c with
  | zero =>
    unfold typedDeclaration?
    mvcgen
    all_goals grind -ring -linarith
  | succ bound ih =>
    apply reading
    unfold typedDeclaration? isDeclareMark
    mvcgen [-unit_spec, -typedDeclaration?_spec, ih]
    all_goals grind -ring -linarith

@[spec 2000] theorem declaration?_lays : Reading c (declaration? g) fun r c' =>
    ∀ n ∈ r, Stand c.start c'.previousStop [n] := by
  apply reading
  unfold declaration?
  mvcgen [-unit_spec]
  all_goals grind -ring -linarith

@[spec 2000] theorem blockRule_lays : Lays c (blockRule g) := by
  apply reading
  unfold blockRule
  mvcgen
  all_goals grind -ring -linarith [Node.parts]

@[spec 2000] theorem ifRule_lays (s : Nat) : Reading c (ifRule g s) fun n c' =>
    s ≤ c.start → Stand s c'.previousStop [n] := by
  apply reading
  unfold ifRule
  mvcgen [-unit_spec]
  all_goals grind -ring -linarith [Node.parts]

omit hg in
@[spec 2000] theorem isEach_peeks : Peeking c isEach fun _ => True := by
  unfold isEach
  mvcgen [-bool_spec]
  all_goals grind -ring -linarith

theorem clauseBefore_lays (close : String) : Reading c (clauseBefore g close) fun ns c' =>
    Stand c.start c'.previousStop ns := by
  apply reading
  unfold clauseBefore
  mvcgen
  all_goals grind -ring -linarith

theorem forClauses_lays (isEach : Bool) : Reading c (forClauses g isEach) fun ns c' =>
    Stand c.start c'.previousStop ns := by
  refine reading_ite ?_ ?_
  · refine reading_bind (advance_reads c) fun _ c₁ h₁ _ => ?_
    refine reading_bind (expressionWithin_lays c₁ hg) fun value c₂ _ hvalue => reading_pure ?_
    exact hvalue.mono h₁.start_le (Nat.le_refl _)
  · refine reading_bind (expectSymbol_reads c ";") fun _ c₁ h₁ _ => ?_
    refine reading_bind (clauseBefore_lays c₁ hg ";") fun test c₂ h₂ htest => ?_
    refine reading_bind (expectSymbol_reads c₂ ";") fun _ c₃ h₃ _ => ?_
    refine reading_bind (clauseBefore_lays c₃ hg ")") fun update c₄ h₄ hupdate => reading_pure ?_
    have hclauses := stand_append_of_reads h₂ h₃ h₄ htest hupdate
    exact hclauses.mono h₁.start_le (Nat.le_refl _)

@[spec 2000] theorem forRest_lays (s : Nat) (isEach : Bool) (head : List Node) :
    Reading c (forRest g s isEach head) fun n c' => s ≤ c.start →
      Stand s c.previousStop head → Stand s c'.previousStop [n] := by
  refine reading_of_sound fun hc => ?_
  refine reading_bind (forClauses_lays c hg isEach) fun clauses c₁ h₁ hclauses => ?_
  refine reading_bind (expectSymbol_reads c₁ ")") fun _ c₂ h₂ hclose => ?_
  refine reading_bind (hg.statement c₂) fun body c₃ h₃ hbody => ?_
  refine reading_mono (statementOf_lays c₃ s _) fun node c₄ h₄ hnode hs hhead => ?_
  have hrest : Stand c.start c₃.previousStop (clauses ++ [body]) :=
    stand_append_of_reads h₁ h₂ h₃ hclauses hbody
  have hparts : Stand s c₃.previousStop (head ++ (clauses ++ [body])) :=
    hhead.append hrest (Nat.le_refl _) hc.previous hs (by grind) (Nat.le_refl _)
  have hlt : s < c₃.previousStop := by grind
  exact hnode hlt (List.append_assoc head clauses [body] ▸ hparts)

omit hg in
@[spec 2000] theorem usingHead_lays : Lays c usingHead := by
  apply reading
  unfold usingHead
  mvcgen [-unit_spec, -bool_spec, -string_spec]
  all_goals grind -ring -linarith [Node.parts]

@[spec 2000] theorem forHead_lays : Reading c (forHead g) fun r c' =>
    Stand c.start c'.previousStop r.1 := by
  apply reading
  unfold forHead
  mvcgen [-unit_spec, -bool_spec, -kind_spec]
  all_goals grind -ring -linarith [Node.parts]

@[spec 2000] theorem forRule_lays (s : Nat) : Reading c (forRule g s) fun n c' =>
    s ≤ c.start → Stand s c'.previousStop [n] := by
  refine reading_bind (advance_reads c) fun _ c₁ h₁ _ => ?_
  refine reading_bind (eatWord_reads c₁ "await") fun _ c₂ h₂ _ => ?_
  refine reading_bind (expectSymbol_reads c₂ "(") fun _ c₃ h₃ _ => ?_
  refine reading_bind (forHead_lays c₃ hg) fun r c₄ h₄ hhead => ?_
  refine reading_mono (forRest_lays c₄ hg s r.2 r.1) fun node c₅ _ hnode hs => ?_
  have hstart : s ≤ c₃.start := Nat.le_trans hs (h₁.trans (h₂.trans h₃)).start_le
  exact hnode (Nat.le_trans hstart h₄.start_le) (hhead.mono hstart (Nat.le_refl _))

@[spec 2000] theorem doRule_lays (s : Nat) : Reading c (doRule g s) fun n c' =>
    s ≤ c.start → Stand s c'.previousStop [n] := by
  refine reading_bind (advance_reads c) fun _ c₁ h₁ _ => ?_
  refine reading_bind (hg.statement c₁) fun body c₂ h₂ hbody => ?_
  refine reading_bind (expectWord_reads c₂ "while") fun _ c₃ h₃ _ => ?_
  refine reading_bind (inParentheses_lays c₃ hg) fun test c₄ h₄ ⟨hopen, htest⟩ => ?_
  refine reading_bind (eatSymbol_reads c₄ ";") fun _ c₅ h₅ _ => ?_
  refine reading_peek (spanFrom_peeks c₅ s) fun span hspan => reading_pure fun hs => ?_
  have hstart : s ≤ c₁.start := Nat.le_trans hs h₁.start_le
  have hread : Stand c₁.start c₄.previousStop [body, test] :=
    stand_append_of_reads h₂ h₃ h₄ hbody htest
  have hlaid := Node.isLaidOut_doLoop (hread.mono hstart h₅.previousStop_le)
  exact hspan ▸ hlaid.stand rfl (by grind)

@[spec 2000] theorem caseRule_lays : Lays c (caseRule g) := by
  have hstatements := many_nodes
  apply reading
  unfold caseRule
  mvcgen [-unit_spec, hstatements]
  all_goals grind -ring -linarith [Node.isLaidOut_case]

@[spec 2000] theorem switchRule_lays (s : Nat) : Reading c (switchRule g s) fun n c' =>
    s ≤ c.start → Stand s c'.previousStop [n] := by
  have hcase : ∀ c, Reading c (do
      if ← isSymbol "\x7d" then return none else return some (← caseRule g)) fun r c' =>
        ∀ n ∈ r, Stand c.start c'.previousStop [n] := by
    intro c
    refine reading_peek (isSymbol_peeks c _) fun _ _ => reading_ite (reading_pure nofun) ?_
    refine reading_bind (caseRule_lays c hg) fun node c₁ _ hnode => reading_pure ?_
    rintro _ ⟨⟩
    exact hnode
  refine reading_bind (advance_reads c) fun _ c₁ h₁ _ => ?_
  refine reading_bind (inParentheses_lays c₁ hg) fun value c₂ h₂ ⟨hopen, hvalue⟩ => ?_
  refine reading_bind (expectSymbol_reads c₂ _) fun _ c₃ h₃ _ => ?_
  refine reading_bind (many_nodes _ (fun c => readingGoal (hcase c)) c₃) fun cases c₄ h₄ hcases => ?_
  refine reading_bind (expectSymbol_reads c₄ _) fun _ c₅ h₅ _ => ?_
  refine reading_mono (statementOf_lays c₅ s _) fun node c₆ _ hnode hs => ?_
  have hstart : s ≤ c₁.start := Nat.le_trans hs h₁.start_le
  have hparts : Stand c₁.start c₄.previousStop (value :: cases) :=
    stand_append_of_reads h₂ h₃ h₄ hvalue hcases
  have hlt : s < c₅.previousStop := by grind
  exact hnode hlt (hparts.mono hstart h₅.previousStop_le)

theorem catchTarget_lays : Reading c (catchTarget g) fun ns c' =>
    Stand c.start c'.previousStop ns := by
  apply reading
  unfold catchTarget
  mvcgen [-unit_spec]
  all_goals grind -ring -linarith

theorem catchRule_lays : Reading c (catchRule g) fun ns c' =>
    Stand c.start c'.previousStop ns := by
  refine reading_bind (eatWord_reads c "catch") fun _ c₁ h₁ _ => ?_
  refine reading_ite ?_ (reading_pure Node.stand_nil)
  refine reading_bind (catchTarget_lays c₁ hg) fun target c₂ h₂ htarget => ?_
  refine reading_bind (blockRule_lays c₂ hg) fun body c₃ h₃ hbody => reading_pure ?_
  have hboth := stand_append_of_reads h₂ (.refl h₂.sound) h₃ htarget hbody
  exact hboth.mono h₁.start_le (Nat.le_refl _)

theorem finallyRule_lays : Reading c (finallyRule g) fun ns c' =>
    Stand c.start c'.previousStop ns := by
  apply reading
  unfold finallyRule
  mvcgen
  all_goals grind -ring -linarith

@[spec 2000] theorem tryRule_lays (s : Nat) : Reading c (tryRule g s) fun n c' =>
    s ≤ c.start → Stand s c'.previousStop [n] := by
  refine reading_bind (advance_reads c) fun _ c₁ h₁ _ => ?_
  refine reading_bind (blockRule_lays c₁ hg) fun body c₂ h₂ hbody => ?_
  refine reading_bind (catchRule_lays c₂ hg) fun handler c₃ h₃ hhandler => ?_
  refine reading_bind (finallyRule_lays c₃ hg) fun final c₄ h₄ hfinal => ?_
  refine reading_ite (fail_reads c₄) ?_
  refine reading_mono (statementOf_lays c₄ s _) fun node c₅ _ hnode hs => ?_
  have hrest : Stand c₂.start c₄.previousStop (handler ++ final) :=
    stand_append_of_reads h₃ (.refl h₃.sound) h₄ hhandler hfinal
  have hparts : Stand c₁.start c₄.previousStop (body :: (handler ++ final)) :=
    stand_append_of_reads h₂ (.refl h₂.sound) (h₃.trans h₄) hbody hrest
  have hlt : s < c₄.previousStop := by grind
  exact hnode hlt (hparts.mono (Nat.le_trans hs h₁.start_le) (Nat.le_refl _))

omit hg in
@[spec 2000] theorem jumpRule_lays (s : Nat) : Reading c (jumpRule s) fun n c' =>
    s ≤ c.start → c.start < c.stop → Stand s c'.previousStop [n] := by
  apply reading
  unfold jumpRule
  mvcgen [-unit_spec]
  all_goals grind -ring -linarith

@[spec 2000] theorem returnRule_lays (s : Nat) : Reading c (returnRule g s) fun n c' =>
    s ≤ c.start → c.start < c.stop → Stand s c'.previousStop [n] := by
  apply reading
  unfold returnRule
  mvcgen [-unit_spec]
  all_goals grind -ring -linarith [Node.parts]

@[spec 2000] theorem throwRule_lays (s : Nat) : Reading c (throwRule g s) fun n c' =>
    s ≤ c.start → Stand s c'.previousStop [n] := by
  apply reading
  unfold throwRule
  mvcgen [-unit_spec]
  all_goals grind -ring -linarith [Node.parts]

@[spec 2000] theorem keywordStatement?_lays (s : Nat) (text : String) :
    Reading c (keywordStatement? g s text) fun r c' => s ≤ c.start → c.start < c.stop →
      ∀ n ∈ r, Stand s c'.previousStop [n] := by
  apply reading
  unfold keywordStatement?
  mvcgen [-unit_spec]
  all_goals grind -ring -linarith

@[spec 2000] theorem markedStatement?_lays (s : Nat) :
    Reading c (markedStatement? g s) fun r c' =>
      s ≤ c.start → ∀ n ∈ r, Stand s c'.previousStop [n] := by
  apply reading
  unfold markedStatement? isLabel
  mvcgen [-unit_spec, -bool_spec]
  all_goals grind -ring -linarith [Node.parts]

@[spec 2000] theorem expressionStatement_lays (s : Nat) :
    Reading c (expressionStatement g s) fun n c' => s ≤ c.start → Stand s c'.previousStop [n] := by
  apply reading
  unfold expressionStatement
  mvcgen [-unit_spec]
  all_goals grind -ring -linarith [Node.parts]

theorem statementRule_lays : Lays c (statementRule g) := by
  refine reading_under _ (reading_peek (start_peeks c) fun s hs => ?_)
  refine reading_bind (declaration?_lays c hg) fun declaration c₁ h₁ hdeclaration => ?_
  cases declaration with
  | some node => exact reading_pure (hdeclaration node rfl)
  | none =>
    have hstart : s ≤ c₁.start := hs ▸ h₁.start_le
    refine reading_bind (markedStatement?_lays c₁ hg s) fun statement c₂ h₂ hstatement => ?_
    cases statement with
    | some node => exact reading_pure (hs ▸ hstatement hstart node rfl)
    | none =>
      refine reading_mono (expressionStatement_lays c₂ hg s) fun node c₃ _ hnode => ?_
      exact hs ▸ hnode (Nat.le_trans hstart h₂.start_le)

omit hg in
@[spec 2000] theorem specifierName_reads : ReadingOn c specifierName := by
  apply reading
  unfold specifierName
  mvcgen [-unit_spec]
  all_goals grind -ring -linarith

omit hg in
@[spec 2000] theorem isTypeMark_peeks : Peeking c isTypeMark fun _ => True := by
  unfold isTypeMark
  mvcgen [-bool_spec]
  all_goals grind -ring -linarith

omit hg in
@[spec 2000] theorem importSpecifier_reads : ReadingOn c importSpecifier := by
  apply reading
  unfold importSpecifier
  mvcgen [-string_spec, -unit_spec]
  all_goals grind -ring -linarith

omit hg in
@[spec 2000] theorem importBindings_reads : ReadingOn c importBindings := by
  have hlist := @commaList_reads String
  apply reading
  unfold importBindings
  mvcgen [-strings_spec, -string_spec, -unit_spec, hlist]
  all_goals grind -ring -linarith

omit hg in
@[spec 2000] theorem importAlias_lays (s : Nat) : Reading c (importAlias s) fun n c' =>
    s ≤ c.start → Stand s c'.previousStop [n] := by
  apply reading
  unfold importAlias
  mvcgen [-unit_spec]
  all_goals grind -ring -linarith [Node.parts]

omit hg in
@[spec 2000] theorem exportSpecifier_reads : ReadingOn c exportSpecifier := by
  apply reading
  unfold exportSpecifier
  mvcgen [-unit_spec]
  all_goals grind -ring -linarith

@[spec 2000] theorem moduleSource_lays : Reading c (moduleSource g) fun ns c' =>
    Stand c.start c'.previousStop ns := by
  apply reading
  unfold moduleSource
  mvcgen [-unit_spec]
  all_goals grind -ring -linarith

omit hg in
@[spec 2000] theorem isTypeImport_peeks : Peeking c isTypeImport fun _ => True := by
  unfold isTypeImport
  mvcgen [-bool_spec]
  all_goals grind -ring -linarith

omit hg in
@[spec 2000] theorem isImportAlias_peeks : Peeking c isImportAlias fun _ => True := by
  unfold isImportAlias
  mvcgen [-bool_spec]
  all_goals grind -ring -linarith

@[spec 2000] theorem importClause_lays (s : Nat) : Reading c (importClause g s) fun n c' =>
    s ≤ c.start → Stand s c'.previousStop [n] := by
  refine reading_bind (importBindings_reads c) fun locals c₁ h₁ _ => ?_
  refine reading_bind (expectWord_reads c₁ "from") fun _ c₂ h₂ hfrom => ?_
  refine reading_bind (moduleSource_lays c₂ hg) fun attributes c₃ h₃ hattributes => ?_
  refine reading_bind (semicolon_reads c₃) fun _ c₄ h₄ _ => ?_
  refine reading_peek (spanFrom_peeks c₄ s) fun span hspan => reading_pure fun hs => ?_
  have hstart : s ≤ c₂.start := Nat.le_trans hs (h₁.trans h₂).start_le
  have hlt : s < c₄.previousStop := by grind
  exact hspan ▸ Node.stand_of_parts (hattributes.mono hstart h₄.previousStop_le) rfl hlt

@[spec 2000] theorem importDeclaration_lays (s : Nat) :
    Reading c (importDeclaration g s) fun n c' => s ≤ c.start → Stand s c'.previousStop [n] := by
  apply reading
  unfold importDeclaration
  mvcgen [-unit_spec, -bool_spec]
  all_goals grind -ring -linarith [Node.parts]

@[spec 2000] theorem exportDefault_lays (s : Nat) :
    Reading c (exportDefault g s) fun n c' => s ≤ c.start → Stand s c'.previousStop [n] := by
  apply reading
  unfold exportDefault
  mvcgen [-unit_spec]
  all_goals grind -ring -linarith [Node.parts]

@[spec 2000] theorem exportAll_lays (s : Nat) : Reading c (exportAll g s) fun n c' =>
    s ≤ c.start → Stand s c'.previousStop [n] := by
  apply reading
  unfold exportAll
  mvcgen [-unit_spec]
  all_goals grind -ring -linarith

@[spec 2000] theorem exportSource_lays : Reading c (exportSource g) fun ns c' =>
    Stand c.start c'.previousStop ns := by
  apply reading
  unfold exportSource
  mvcgen
  all_goals grind -ring -linarith

@[spec 2000] theorem exportNames_lays (s : Nat) : Reading c (exportNames g s) fun n c' =>
    s ≤ c.start → Stand s c'.previousStop [n] := by
  have hlist := @commaList_reads Unit
  apply reading
  unfold exportNames
  mvcgen [-unit_spec, -units_spec, hlist]
  all_goals grind -ring -linarith

omit hg in
@[spec 2000] theorem isTypeExport_peeks : Peeking c isTypeExport fun _ => True := by
  unfold isTypeExport
  mvcgen [-bool_spec]
  all_goals grind -ring -linarith

@[spec 2000] theorem typedExport?_lays (s : Nat) : Reading c (typedExport? g s) fun r c' =>
    s ≤ c.start → ∀ n ∈ r, Stand s c'.previousStop [n] := by
  apply reading
  unfold typedExport?
  mvcgen [-unit_spec, -bool_spec]
  all_goals grind -ring -linarith

@[spec 2000] theorem exportDeclaration_lays (s : Nat) :
    Reading c (exportDeclaration g s) fun n c' => s ≤ c.start → Stand s c'.previousStop [n] := by
  apply reading
  unfold exportDeclaration
  mvcgen [-unit_spec, -bool_spec]
  all_goals grind -ring -linarith [Node.parts]

theorem itemRule_lays : Lays c (itemRule g) := by
  apply reading
  unfold itemRule
  mvcgen
  all_goals grind -ring -linarith

@[spec 2000] theorem parseItems_lays : Reading c (parseItems g) fun ns c' =>
    Stand c.start c'.previousStop ns := by
  have hitems := many_nodes
  apply reading
  unfold parseItems
  mvcgen [hitems]
  all_goals grind -ring -linarith

end

end Parser

/-- A rule that always fails claims nothing; each level refers to the level below. -/
theorem Grammar.lays_nested (depth : Nat) : (Grammar.nested depth).Lays := by
  induction depth with
  | zero =>
    constructor <;> exact fun c => Parser.fail_reads c
  | succ depth ih =>
    exact
      { expression := fun c => Parser.expressionRule_lays c ih
        assignment := fun c => Parser.assignmentRule_lays c ih
        unary := fun c => Parser.unaryRule_lays c ih
        binding := fun c => Parser.bindingRule_lays c ih
        type := fun c => Parser.typeRule_reads c ih
        element := fun c => Parser.elementRule_lays c ih
        statement := fun c => Parser.statementRule_lays c ih
        item := fun c => Parser.itemRule_lays c ih }

theorem stand_of_parse {dialect : Dialect} {text : List Char} {parsed : Parsed}
    (h : parse dialect text = .ok parsed) : ∃ stop, Stand 0 stop parsed.program.items := by
  have hitems := Parser.reading_iff.1 (Parser.parseItems_lays (.ofText text)
    (Grammar.lays_nested (8 * text.length + 16)))
  unfold parse at h
  dsimp only at h
  split at h
  · rename_i items c hparse
    cases h
    have hstand := (hitems _ _ _ hparse (Cursor.sound_ofText text)).2
    exact ⟨_, hstand.mono (Nat.zero_le _) (Nat.le_refl _)⟩
  · cases h

end MessageCatalog.Script
