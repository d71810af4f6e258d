import MessageCatalog.Proofs.Sites

/-! Which comments describe an assignment: those in front of it, or in front of the innermost
expression statement around it that stands in a list of statements. -/

namespace MessageCatalog

namespace Script.Node

def isExpressionStatement : Node → Bool
  | .expressionStatement .. => true
  | _ => false

variable {k m n : Node}

def Lists (n statement : Node) : Prop :=
  statement.isExpressionStatement ∧ ∃ m ∈ n.subnodes, statement ∈ m.statements

theorem Lists.mem_subnodes (h : n.Lists m) : m ∈ n.subnodes := by
  obtain ⟨-, k, hk, hm⟩ := h
  exact mem_subnodes_trans (mem_subnodes_of_mem_parts (mem_parts_of_mem_statements hm)) hk

theorem lists_iff : n.Lists m ↔
    (m.isExpressionStatement ∧ m ∈ n.statements) ∨ ∃ k ∈ n.parts, k.Lists m := by
  constructor
  · rintro ⟨hm, l, hl, hmem⟩
    rcases Node.mem_subnodes.1 hl with rfl | ⟨k, hk, hl⟩
    · exact .inl ⟨hm, hmem⟩
    · exact .inr ⟨k, hk, hm, l, hl, hmem⟩
  · rintro (⟨hm, hmem⟩ | ⟨k, hk, hm, l, hl, hmem⟩)
    · exact ⟨hm, n, n.self_mem_subnodes, hmem⟩
    · exact ⟨hm, l, Node.mem_subnodes.2 (.inr ⟨k, hk, hl⟩), hmem⟩

structure Innermost (IsListed : Node → Prop) (n statement : Node) : Prop where
  listed : IsListed statement
  mem : n ∈ statement.subnodes
  least : ∀ around, IsListed around → n ∈ around.subnodes → statement ∈ around.subnodes

end Script.Node

def Script.Program.Lists (p : Script.Program) (statement : Script.Node) : Prop :=
  statement.isExpressionStatement ∧
    (statement ∈ p.items ∨ ∃ m ∈ p.subnodes, statement ∈ m.statements)

namespace Definition
open Script (Node Span Program)
open Script.Node (parts_induction)

variable {statement : Option Nat} {ns : List Node} {n : Node} {s : Site} {step : Step}

theorem startIn_of_isExpressionStatement (h : n.isExpressionStatement) :
    startIn statement n = some n.span.start := by
  cases n with
  | expressionStatement => rfl
  | _ => cases h

theorem startIn_of_not_isExpressionStatement (h : n.isExpressionStatement = false) :
    startIn statement n = statement := by
  cases n with
  | expressionStatement => cases h
  | _ => rfl

theorem exists_mem_walk_of_walkStatements (hs : s.kind = .assignment)
    (h : .site s ∈ walkStatements statement none ns) :
    ∃ n ∈ ns, .site s ∈ walk (startIn statement n) n := by
  obtain ⟨earlier, n, later, rfl, hn⟩ := exists_of_mem_walkStatements [] h
  refine ⟨n, by simp, ?_⟩
  cases hn with
  | declarators mem => exact mem_walk_declarations mem
  | declaration mem =>
    rw [kind_of_mem_declaratorSites mem] at hs
    cases hs
  | other _ mem => exact mem

inductive Enters (statement : Option Nat) (n : Node) : Node → Option Nat → Prop
  | statement {m : Node} (mem : m ∈ n.statements) : Enters statement n m (startIn statement m)
  | part {m : Node} (mem : m ∈ n.parts) (not_mem : m ∉ n.statements) :
    Enters statement n m statement

theorem Enters.mem_parts {m : Node} {start : Option Nat} (h : Enters statement n m start) :
    m ∈ n.parts := by
  cases h with
  | statement mem => exact Node.mem_parts_of_mem_statements mem
  | part mem => exact mem

def IsAssignment (n : Node) (s : Site) : Prop :=
  ∃ base targetSpan value, n = .assign "=" (.member base s.name targetSpan) value s.span ∧
    s.value = some value

theorem isAssignment_of_mem {operator : String} {target value : Node} {span : Span}
    (h : .site s ∈ assignmentSites statement operator target value span) :
    IsAssignment (.assign operator target value span) s ∧
      s.docs = [s.span.start, statement.getD s.span.start] := by
  obtain ⟨base, name, memberSpan, rfl, rfl, hs⟩ := exists_of_mem_assignmentSites h
  cases hs
  exact ⟨⟨base, memberSpan, value, rfl, rfl⟩, rfl⟩

theorem not_mem_walk_of_isBlank (h : n.isBlank) : step ∉ walk statement n := by
  unfold Node.isBlank at h
  split at h
  · simp [walk, walkStatements]
  · cases h

theorem not_mem_statements_of_mem_walk {m : Node} (hn : n.IsLaidOut) (hm : m ∈ n.operands)
    (h : step ∈ walk statement m) : m ∉ n.statements := by
  intro hstatement
  have hparts := hn.apart
  rw [Node.parts_eq_append] at hparts
  have hapart := (List.pairwise_append.1 hparts).2.2 m hm m hstatement
  cases hblank : m.isBlank with
  | true => exact not_mem_walk_of_isBlank hblank h
  | false => exact hapart m hblank m.self_mem_subnodes m.self_mem_subnodes

theorem walk_site_cases (hn : n.IsLaidOut) (h : .site s ∈ walk statement n) :
    (∃ m ∈ n.parts, m ∉ n.statements ∧ .site s ∈ walk statement m) ∨
      .site s ∈ walkStatements statement none n.statements ∨ .site s ∈ ownSites statement n := by
  rcases walk_step_cases h with ⟨m, hm, h⟩ | h | h | h
  · exact .inl ⟨m, Node.mem_parts_of_mem_operands hm, not_mem_statements_of_mem_walk hn hm h, h⟩
  · exact .inr (.inl h)
  · exact .inr (.inr h)
  · exact absurd h ne_site_of_mem_ownBounds

theorem walk_cases (hn : n.IsLaidOut) (hs : s.kind = .assignment) (h : .site s ∈ walk statement n) :
    (∃ m start, Enters statement n m start ∧ .site s ∈ walk start m) ∨
      (IsAssignment n s ∧ s.docs = [s.span.start, statement.getD s.span.start]) := by
  rcases walk_site_cases hn h with ⟨m, hm, hnot, h⟩ | h | h
  · exact .inl ⟨m, statement, .part hm hnot, h⟩
  · obtain ⟨m, hm, h⟩ := exists_mem_walk_of_walkStatements hs h
    exact .inl ⟨m, _, .statement hm, h⟩
  · unfold ownSites at h
    split at h
    · exact .inr (isAssignment_of_mem h)
    · rw [kind_of_mem_propertySites h] at hs
      cases hs
    · rw [kind_of_mem_declaratorSites h] at hs
      cases hs
    · rw [kind_of_mem_declaratorSites h] at hs
      cases hs
    · cases h

inductive DocsAround (IsListed : Node → Prop) (a : Node) (statement : Option Nat) (s : Site) : Prop
  | statement {e : Node} (innermost : Node.Innermost IsListed a e)
    (docs : s.docs = [s.span.start, e.span.start]) : DocsAround IsListed a statement s
  | alone (unlisted : ∀ e, IsListed e → a ∉ e.subnodes)
    (docs : s.docs = [s.span.start, statement.getD s.span.start]) :
    DocsAround IsListed a statement s

theorem IsAssignment.isBlank (h : IsAssignment n s) : n.isBlank = false := by
  obtain ⟨base, targetSpan, value, rfl, -⟩ := h
  rfl

theorem IsAssignment.span (h : IsAssignment n s) : n.span = s.span := by
  obtain ⟨base, targetSpan, value, rfl, -⟩ := h
  rfl

theorem lists_of_mem_part {a e m : Node} (hn : n.IsLaidOut) (hm : m ∈ n.parts) (ha : a ∈ m.subnodes)
    (hblank : a.isBlank = false) (he : n.Lists e) (hae : a ∈ e.subnodes) :
    (e = m ∧ m ∈ n.statements ∧ m.isExpressionStatement) ∨ m.Lists e := by
  have hsame : ∀ {k}, k ∈ n.parts → a ∈ k.subnodes → k = m := by
    intro k hk hak
    by_contra hne
    exact hn.apart.forall hk hm hne a hblank hak ha
  rcases Node.lists_iff.1 he with ⟨hexpression, hmem⟩ | ⟨k, hk, he⟩
  · obtain rfl := hsame (Node.mem_parts_of_mem_statements hmem) hae
    exact .inl ⟨rfl, hmem, hexpression⟩
  · obtain rfl := hsame hk (Node.mem_subnodes_trans hae he.mem_subnodes)
    exact .inr he

theorem DocsAround.of_part {a m : Node} {start : Option Nat} (h : DocsAround m.Lists a start s)
    (hn : n.IsLaidOut) (henters : Enters statement n m start) (ha : a ∈ m.subnodes)
    (hblank : a.isBlank = false) : DocsAround n.Lists a statement s := by
  have hm := henters.mem_parts
  have hpart := fun e => lists_of_mem_part (e := e) hn hm ha hblank
  cases h with
  | statement innermost docs =>
    refine .statement ⟨?_, innermost.mem, fun around hlisted hmem => ?_⟩ docs
    · exact Node.lists_iff.2 (.inr ⟨m, hm, innermost.listed⟩)
    · rcases hpart around hlisted hmem with ⟨rfl, -⟩ | hlisted
      · exact innermost.listed.mem_subnodes
      · exact innermost.least around hlisted hmem
  | alone unlisted docs =>
    cases henters with
    | part _ hnot =>
      refine .alone (fun e hlisted hmem => ?_) docs
      rcases hpart e hlisted hmem with ⟨-, hstatement, -⟩ | hlisted
      · exact hnot hstatement
      · exact unlisted e hlisted hmem
    | statement hstatement =>
      cases hexpression : m.isExpressionStatement with
      | true =>
        rw [startIn_of_isExpressionStatement hexpression] at docs
        refine .statement ⟨?_, ha, fun around hlisted hmem => ?_⟩ docs
        · exact Node.lists_iff.2 (.inl ⟨hexpression, hstatement⟩)
        · rcases hpart around hlisted hmem with ⟨rfl, -⟩ | hlisted
          · exact Node.self_mem_subnodes _
          · exact absurd hmem (unlisted around hlisted)
      | false =>
        rw [startIn_of_not_isExpressionStatement hexpression] at docs
        refine .alone (fun e hlisted hmem => ?_) docs
        rcases hpart e hlisted hmem with ⟨-, -, htrue⟩ | hlisted
        · rw [hexpression] at htrue
          cases htrue
        · exact unlisted e hlisted hmem

theorem docsAround_walk (hn : n.IsLaidOut) (hs : s.kind = .assignment)
    (h : .site s ∈ walk statement n) :
    ∃ a ∈ n.subnodes, IsAssignment a s ∧ DocsAround n.Lists a statement s := by
  induction n using parts_induction generalizing statement with
  | whole n ih =>
    rcases walk_cases hn hs h with ⟨m, start, henters, h⟩ | ⟨hself, hdocs⟩
    · have hm := henters.mem_parts
      obtain ⟨a, ha, hassignment, hdocs⟩ := ih m hm ((Node.isLaidOut_iff.1 hn).1 m hm) h
      exact ⟨a, Node.mem_subnodes.2 (.inr ⟨m, hm, ha⟩), hassignment,
        hdocs.of_part hn henters ha hassignment.isBlank⟩
    · refine ⟨n, n.self_mem_subnodes, hself, .alone (fun e hlisted hmem => ?_) hdocs⟩
      obtain ⟨base, targetSpan, value, rfl, -⟩ := hself
      rcases Node.lists_iff.1 hlisted with ⟨-, hstatement⟩ | ⟨k, hk, hlisted⟩
      · cases hstatement
      · exact Node.not_mem_subnodes_of_mem_parts hk
          (Node.mem_subnodes_trans hmem hlisted.mem_subnodes)

theorem lists_whole {p : Program} {span : Span} {e : Node} :
    (p.whole span).Lists e ↔ p.Lists e := by
  unfold Node.Lists Program.Lists
  rw [Program.subnodes_whole]
  refine and_congr_right fun _ => ?_
  simp only [List.mem_append, List.mem_singleton, or_and_right, exists_or, exists_eq_left]
  exact or_comm

theorem docsAround_stepsOf {p : Program} (hp : p.IsLaidOut) (hs : s.kind = .assignment)
    (h : .site s ∈ stepsOf p) :
    ∃ a ∈ p.subnodes, IsAssignment a s ∧ DocsAround p.Lists a none s := by
  obtain ⟨start, stop, hstand⟩ := hp
  have hwalk := site_mem_walkStatements h
  obtain ⟨a, ha, hassignment, hdocs⟩ :=
    docsAround_walk (n := p.whole ⟨start, stop⟩) (Program.isLaidOut_whole hstand) hs hwalk
  have hlists : (p.whole ⟨start, stop⟩).Lists = p.Lists := by
    funext e
    exact propext lists_whole
  rw [hlists] at hdocs
  rw [Program.subnodes_whole, List.mem_append, List.mem_singleton] at ha
  rcases ha with ha | rfl
  · exact ⟨a, ha, hassignment, hdocs⟩
  · obtain ⟨base, targetSpan, value, hwhole, -⟩ := hassignment
    cases hwhole

theorem metadata_annotate_draft (env : Surroundings) (site : Site) :
    (env.annotate site (site.draft env)).metadata = (env.docCommentAt site.docs).getD {} := by
  unfold Surroundings.annotate
  cases env.docCommentAt site.docs with
  | none => rfl
  | some doc => simp [DocComment.applyTo, Site.draft]

theorem metadata_of_defined {env : Surroundings} {site : Site} {message : Message}
    (hkind : site.kind = .assignment)
    (h : (candidateOf env site).outcome = .defined message) :
    message.metadata = (env.docCommentAt site.docs).getD {} := by
  have hverdict := verdict_outcome env site
  rw [h] at hverdict
  obtain ⟨value, -, -, d, hd, rfl⟩ := hverdict
  rw [draftOf, hkind] at hd
  rw [← metadata_annotate_draft, ← (ofCall_filled hd).metadata, Draft.build]

/-- The comments in front of `e` are the last to be asked about the assignment `a`. -/
inductive Documents (p : Program) (a : Node) : Node → Prop
  | statement {e : Node} (innermost : Node.Innermost p.Lists a e) : Documents p a e
  | alone (unlisted : ∀ e, p.Lists e → a ∉ e.subnodes) : Documents p a a

theorem DocsAround.exists_documents {p : Program} {a : Node} (h : DocsAround p.Lists a none s)
    (hspan : a.span = s.span) :
    ∃ e, Documents p a e ∧ s.docs = [a.span.start, e.span.start] := by
  rw [hspan]
  cases h with
  | statement innermost docs => exact ⟨_, .statement innermost, docs⟩
  | alone unlisted docs => exact ⟨a, .alone unlisted, by rw [docs, hspan]; rfl⟩

theorem Documents.mem_subnodes {p : Program} {a e around inner : Node} (h : Documents p a e)
    (haround : around ∈ p.subnodes) (hinner : around.Lists inner) (ha : a ∈ inner.subnodes) :
    e ∈ around.subnodes := by
  have hin := hinner.mem_subnodes
  obtain ⟨hexpression, m, hm, hmem⟩ := hinner
  have hlists : p.Lists inner :=
    ⟨hexpression, .inr ⟨m, Program.mem_subnodes_trans hm haround, hmem⟩⟩
  cases h with
  | statement innermost =>
    exact Node.mem_subnodes_trans (innermost.least inner hlists ha) hin
  | alone unlisted => exact absurd ha (unlisted inner hlists)

/-- What is said of the message of an assignment stands in front of the assignment, or else in front
of the innermost expression statement around it, in every program that is laid out, as all are that
are read from texts. -/
theorem assignmentDocs_run (settings : Settings) {c : Compilation} {f : Forwarded}
    (hf : f ∈ forwarded settings c) (hkind : f.site.kind = .assignment) :
    (∀ es ss, c.MadeFrom es ss → f.env.source.program.IsLaidOut) ∧
    (f.env.source.program.IsLaidOut →
      ∃ a ∈ f.env.source.program.subnodes, IsAssignment a f.site ∧
        ∃ e, Documents f.env.source.program a e ∧
          f.message.metadata = (f.env.docCommentAt [a.span.start, e.span.start]).getD {} ∧
          ∀ around ∈ f.env.source.program.subnodes, ∀ inner, around.Lists inner →
            a ∈ inner.subnodes → e ∈ around.subnodes) := by
  obtain ⟨hvisit, -, houtcome⟩ := mem_forwarded hf
  obtain ⟨-, hsource, hstep⟩ := mem_visitsFrom hvisit
  refine ⟨fun es ss h => h.isLaidOut hsource, fun hlaid => ?_⟩
  obtain ⟨a, ha, hassignment, hdocs⟩ := docsAround_stepsOf hlaid hkind hstep
  obtain ⟨e, he, hdocs⟩ := hdocs.exists_documents hassignment.span
  refine ⟨a, ha, hassignment, e, he, ?_, fun around haround inner hinner hmem =>
    he.mem_subnodes haround hinner hmem⟩
  rw [← hdocs]
  exact metadata_of_defined hkind houtcome

/-- In `/** @desc d */a.MSG_A=goog.getMsg('x');`, the statement starts with the assignment. -/
theorem assignmentDocs_run_plain :
    let c := Compilation.ofFiles [] [("a.js", "/** @desc d */a.MSG_A=goog.getMsg('x');")]
    ∃ f ∈ forwarded {} c, f.message.metadata.desc = some "d" ∧
      ∃ a ∈ f.env.source.program.subnodes, IsAssignment a f.site ∧
        ∃ e, Documents f.env.source.program a e ∧
          f.message.metadata = (f.env.docCommentAt [a.span.start, e.span.start]).getD {} := by
  intro c
  have hone : (forwarded {} c).map (fun f => (f.message.metadata.desc, f.site.kind)) =
      [(some "d", .assignment)] := by decide +kernel
  obtain ⟨f, hf, hfacts⟩ := List.map_eq_singleton_iff.1 hone
  obtain ⟨hdesc, hkind⟩ := Prod.mk.inj hfacts
  have hmem : f ∈ forwarded {} c := by simp [hf]
  obtain ⟨hlaid, hdocs⟩ := assignmentDocs_run {} hmem hkind
  obtain ⟨a, ha, hassignment, e, he, hmetadata, -⟩ := hdocs (hlaid _ _ (.ofFiles [] _))
  exact ⟨f, hmem, hdesc, a, ha, hassignment, e, he, hmetadata⟩

-- An assignment that is the result of a function has no expression statement around it in there:
-- it is described by what stands in front of the statement around the function.

namespace Callback

def code : String :=
  "/** @desc outer */\nf(function() \x7b return a.MSG_X = goog.getMsg('x'); \x7d);"

def value : Node :=
  .call (.member (.name "goog" ⟨51, 55⟩) "getMsg" ⟨51, 62⟩) [.string (some "x") ⟨63, 66⟩] ⟨51, 67⟩

def assignment : Node :=
  .assign "=" (.member (.name "a" ⟨41, 42⟩) "MSG_X" ⟨41, 48⟩) value ⟨41, 67⟩

def function : Node :=
  .function false [] [.returnStatement (some assignment) ⟨34, 68⟩] ⟨32, 70⟩ ⟨21, 70⟩

def source : Source where
  path := "a.js"
  text := code.toList
  program := ⟨false,
    [.expressionStatement (.call (.name "f" ⟨19, 20⟩) [function] ⟨19, 71⟩) ⟨19, 72⟩]⟩
  comments := [(19, "* @desc outer ")]

theorem parse_code : Source.parse "a.js" code = .ok source := by
  set_option maxRecDepth 100000 in
  exact rfl

theorem ofFiles_code : Compilation.ofFiles [] [("a.js", code)] = ⟨[], [source], []⟩ :=
  Compilation.ofFiles_of_parse parse_code

theorem function_mem : function ∈ source.program.subnodes :=
  Program.mem_subnodes_trans
    (Node.mem_subnodes_trans (Node.mem_subnodes_of_mem_parts (by simp [Node.parts]))
      (Node.mem_subnodes_of_mem_parts List.mem_cons_self))
    (Program.mem_subnodes_of_mem_items List.mem_cons_self)

theorem assignment_mem : assignment ∈ function.subnodes :=
  Node.mem_subnodes_trans (Node.mem_subnodes_of_mem_parts List.mem_cons_self)
    (Node.mem_subnodes_of_mem_parts List.mem_cons_self)

theorem isAssignment (h : .site s ∈ stepsOf source.program) : IsAssignment assignment s := by
  have hsite : s = ⟨.assignment, "MSG_X", some value, ⟨41, 67⟩, [41, 19], []⟩ := by
    simpa [stepsOf, source, function, assignment, value, walkStatements, walk, walkAll, walkOption,
      assignmentSites] using h
  subst hsite
  exact ⟨_, _, _, rfl, rfl⟩

end Callback

theorem assignmentDocs_run_callback :
    ¬ ∀ (c : Compilation) (es ss : List Loaded), c.MadeFrom es ss →
      ∀ f ∈ forwarded {} c, ∀ around ∈ f.env.source.program.subnodes, around.isFunction →
        ∀ a ∈ around.subnodes, IsAssignment a f.site → ∀ desc, f.message.metadata.desc = some desc →
          ∃ offset, around.span.start ≤ offset ∧
            ((f.env.docCommentAt [offset]).bind (·.desc)) = some desc := by
  intro h
  have hmade := Compilation.MadeFrom.ofFiles [] [("a.js", Callback.code)]
  have hone : (forwarded {} (Compilation.ofFiles [] [("a.js", Callback.code)])).map
      (·.message.metadata.desc) = [some "outer"] := by decide +kernel
  rw [Callback.ofFiles_code] at hmade hone
  obtain ⟨f, hf, hdesc⟩ := List.map_eq_singleton_iff.1 hone
  have hmem : f ∈ forwarded {} ⟨[], [Callback.source], []⟩ := by simp [hf]
  obtain ⟨-, hsource, hstep⟩ := mem_visitsFrom (mem_forwarded hmem).1
  have hsource : f.env.source = Callback.source := List.mem_singleton.1 hsource
  rw [hsource] at hstep
  obtain ⟨offset, hoffset, hdoc⟩ := h _ _ _ hmade f hmem Callback.function
    (hsource ▸ Callback.function_mem) rfl _ Callback.assignment_mem (Callback.isAssignment hstep) _
    hdesc
  have hoffset : 21 ≤ offset := hoffset
  have hnone : f.env.source.commentsAt offset = [] := by
    rw [hsource]
    simp [Source.commentsAt, Callback.source]
    omega
  simp [Surroundings.docCommentAt, hnone, DocComment.find?] at hdoc

end Definition

end MessageCatalog
