import MessageCatalog.Proofs.WalkSteps

/-! The walk as a traversal that keeps in its state where the statement around it starts, and that
shows what the steps leave out: which scopes belong to function bodies, and which sites to `var`
declarations. -/

namespace MessageCatalog

namespace Script.Node

def ownNames : Node → List String
  | .declarations .var declarators _ => declaredNames declarators
  | _ => []

def isFunction : Node → Bool
  | .function .. => true
  | .lambda .. => true
  | _ => false

def visitedNames (n : Node) : List String :=
  if n.isFunction then []
  else n.parts.attach.flatMap (fun m => visitedNames m.1) ++ n.ownNames
termination_by sizeOf n
decreasing_by exact sizeOf_lt_of_mem_parts m.2

theorem visitedNames_of_isFunction {n : Node} (h : n.isFunction) : n.visitedNames = [] := by
  rw [visitedNames, if_pos h]

theorem visitedNames_eq {n : Node} (h : n.isFunction = false) :
    n.visitedNames = n.parts.flatMap visitedNames ++ n.ownNames := by
  rw [visitedNames, h, List.flatMap_subtype (g := visitedNames) fun _ _ => rfl,
    List.unattach_attach]
  rfl

end Script.Node

namespace Definition
open Script (Node Span Program VarKind)
open Script.Node (parts_induction visitedNames)

inductive Act where
  /-- The scope of a function body, or of a module, is entered. The names of the `var` declarations
  in its statements are declared between those of the parameters and those of the block. -/
  | body (before : List String) (statements : List Node) (after : List String)
  | block (names : List String)
  | exit
  | declares (kind : VarKind) (declarators : List Node)
  | declared (kind : VarKind) (s : Site)
  | site (s : Site)
  | call (callee : Node) (arguments : List Node) (span : Span)

namespace Act

def step? : Act → Option Step
  | .body before statements after =>
    some (.enter (before ++ Node.hoistedNamesOfAll statements ++ after))
  | .block names => some (.enter names)
  | .exit => some .exit
  | .declares .. => none
  | .declared _ s => some (.site s)
  | .site s => some (.site s)
  | .call callee arguments span => some (.call callee arguments span)

end Act

def siteAct? : Step → Option Act
  | .site s => some (.site s)
  | _ => none

def declaredAct? (kind : VarKind) : Step → Option Act
  | .site s => some (.declared kind s)
  | _ => none

def declarationActs (kind : VarKind) (docs : List Nat) (neighbours declarators : List Node) :
    List Act :=
  .declares kind declarators ::
    (declaratorSites docs neighbours declarators).filterMap (declaredAct? kind)

structure Progress where
  statement : Option Nat
  acts : List Act

namespace Progress

def emit (p : Progress) (acts : List Act) : Progress := { p with acts := p.acts ++ acts }

def within (p : Progress) (start : Nat) (visit : Progress → Progress) : Progress :=
  { visit { p with statement := some start } with statement := p.statement }

end Progress

mutual

def tour : Node → Progress → Progress
  | .name .. => id
  | .this .. => id
  | .string .. => id
  | .imports _ attributes _ => tourAll attributes
  | .template _ values _ => tourAll values
  | .paren inner _ => tour inner
  | .member base _ _ => tour base
  | .call callee arguments span => fun p =>
    (tourAll arguments (tour callee p)).emit [.call callee arguments span]
  | .binary _ left right _ => fun p => tour right (tour left p)
  | .assign operator target value span => fun p =>
    let q := tour value (tour target p)
    q.emit ((assignmentSites q.statement operator target value span).filterMap siteAct?)
  | .function _ parameters body _ _ => fun p =>
    let q := p.emit [.body (boundParameters parameters) body (Node.lexicalNames body)]
    (tourStatements none body (tourAll parameters q)).emit [.exit]
  | .lambda parameters result _ => fun p =>
    let q := p.emit [.body (boundParameters parameters) [] []]
    (tour result (tourAll parameters q)).emit [.exit]
  | .object properties _ => tourAll properties
  | .property key value _ => fun p =>
    (tour value (tour key p)).emit ((propertySites key value).filterMap siteAct?)
  | .method key body _ => fun p => tour body (tour key p)
  | .computed key _ => tour key
  | .spread value _ => tour value
  | .other _ parts _ => tourAll parts
  | .declarations kind declarators span => fun p =>
    (tourAll declarators p).emit (declarationActs kind [span.start] [] declarators)
  | .declarator target value _ => fun p => tourOption value (tour target p)
  | .functionDeclaration _ body _ => tour body
  | .classDeclaration _ body _ => tour body
  | .expressionStatement value _ => tour value
  | .returnStatement value _ => tourOption value
  | .block statements _ => fun p =>
    (tourStatements none statements (p.emit [.block (Node.lexicalNames statements)])).emit [.exit]
  | .sequence statements _ => tourStatements none statements
  | .exported (.declarations kind declarators inner) span => fun p =>
    (tourAll declarators p).emit (declarationActs kind [span.start, inner.start] [] declarators)
  | .exported declaration _ => tour declaration
  | .objectPattern properties _ => tourAll properties
  | .patternProperty key target _ => fun p => tour target (tour key p)
  | .arrayPattern elements _ => tourAll elements
  | .withDefault target value _ => fun p => tour value (tour target p)
  | .rest target _ => tour target

def tourAll : List Node → Progress → Progress
  | [] => id
  | n :: ns => fun p => tourAll ns (tour n p)

def tourOption : Option Node → Progress → Progress
  | none => id
  | some n => tour n

def tourStatements (before : Option Node) : List Node → Progress → Progress
  | [] => id
  | .declarations kind declarators span :: rest => fun p =>
    tourStatements (some (.declarations kind declarators span)) rest
      ((tourAll declarators p).emit
        (declarationActs kind [span.start] (before.toList ++ rest.head?.toList) declarators))
  | .expressionStatement value span :: rest => fun p =>
    tourStatements (some (.expressionStatement value span)) rest (p.within span.start (tour value))
  | n :: rest => fun p => tourStatements (some n) rest (tour n p)

end

def actsOf (p : Program) : List Act :=
  if p.isModule then
    .body (p.items.flatMap Node.itemNames) p.items [] ::
      ((tourStatements none p.items ⟨none, []⟩).acts ++ [.exit])
  else (tourStatements none p.items ⟨none, []⟩).acts

/-- Acts that leave every scope they enter, with the names of the `var` declarations outside of the
function bodies among them. `R` relates the statements of a body to the names in it. -/
inductive Level (R : List Node → List String → Prop) : List Act → List String → Prop where
  | nil : Level R [] []
  | site (s : Site) : Level R [.site s] []
  | call (callee : Node) (arguments : List Node) (span : Span) :
    Level R [.call callee arguments span] []
  | declaration (kind : VarKind) (docs : List Nat) (neighbours declarators : List Node) :
    Level R (declarationActs kind docs neighbours declarators)
      (if kind = .var then Node.declaredNames declarators else [])
  | block (names : List String) {acts : List Act} {vars : List String} (inner : Level R acts vars) :
    Level R (.block names :: (acts ++ [.exit])) vars
  | body (before : List String) (statements : List Node) (after : List String) {acts : List Act}
    {vars : List String} (inner : Level R acts vars) (names : R statements vars) :
    Level R (.body before statements after :: (acts ++ [.exit])) []
  | append {acts acts' : List Act} {vars vars' : List String} (first : Level R acts vars)
    (second : Level R acts' vars') : Level R (acts ++ acts') (vars ++ vars')

def Traces (R : List Node → List String → Prop) (t : Progress → Progress)
    (steps : Option Nat → List Step) (vars : List String) : Prop :=
  ∀ p, ∃ acts, t p = p.emit acts ∧ acts.filterMap Act.step? = steps p.statement ∧ Level R acts vars

variable {R : List Node → List String → Prop}

theorem level_siteActs (steps : List Step) : Level R (steps.filterMap siteAct?) [] := by
  induction steps with
  | nil => exact .nil
  | cons step steps ih =>
    cases step with
    | site s => exact .append (.site s) ih
    | _ => exact ih

theorem step?_scope (act : Act) {names : List String} (h : act.step? = some (.enter names))
    (acts : List Act) :
    (act :: (acts ++ [.exit])).filterMap Act.step? =
      .enter names :: (acts.filterMap Act.step? ++ [.exit]) := by
  rw [List.filterMap_cons_some h, List.filterMap_append]
  rfl

theorem step?_siteActs {steps : List Step} (h : ∀ step ∈ steps, ∃ s, step = .site s) :
    (steps.filterMap siteAct?).filterMap Act.step? = steps := by
  induction steps with
  | nil => rfl
  | cons step steps ih =>
    obtain ⟨⟨s, rfl⟩, hsteps⟩ := List.forall_mem_cons.1 h
    exact congrArg (_ :: ·) (ih hsteps)

theorem step?_declarationActs (kind : VarKind) (docs : List Nat)
    (neighbours declarators : List Node) :
    (declarationActs kind docs neighbours declarators).filterMap Act.step? =
      declaratorSites docs neighbours declarators := by
  rw [declarationActs, List.filterMap_cons_none rfl]
  induction declarators using declaratorSites.induct with
  | case1 => rfl
  | case2 text nameSpan value span rest ih => exact congrArg (_ :: ·) ih
  | case3 declarator rest hother ih =>
    rwa [declaratorSites.eq_3 docs neighbours declarator rest hother]

namespace Progress

theorem emit_emit (p : Progress) (acts acts' : List Act) :
    (p.emit acts).emit acts' = p.emit (acts ++ acts') := by
  unfold emit
  rw [List.append_assoc]

end Progress

namespace Traces

variable {t t' : Progress → Progress} {steps steps' : Option Nat → List Step}
  {vars vars' : List String}

theorem congr (h : Traces R t steps vars) (hvars : vars = vars') : Traces R t steps vars' :=
  hvars ▸ h

theorem node (h : Traces R t steps vars) {n : Node} (hn : n.isFunction = false)
    (hvars : vars = n.parts.flatMap visitedNames ++ n.ownNames) :
    Traces R t steps n.visitedNames := by
  rw [Node.visitedNames_eq hn, ← hvars]
  exact h

theorem stay : Traces R id (fun _ => []) [] := by
  intro p
  refine ⟨[], ?_, rfl, .nil⟩
  unfold Progress.emit
  rw [List.append_nil]
  rfl

theorem comp (h : Traces R t steps vars) (h' : Traces R t' steps' vars') :
    Traces R (fun p => t' (t p)) (fun s => steps s ++ steps' s) (vars ++ vars') := by
  intro p
  obtain ⟨acts, ht, hsteps, hlevel⟩ := h p
  obtain ⟨acts', ht', hsteps', hlevel'⟩ := h' (p.emit acts)
  refine ⟨acts ++ acts', ?_, ?_, hlevel.append hlevel'⟩
  · show t' (t p) = p.emit (acts ++ acts')
    rw [ht, ht', Progress.emit_emit]
  · rw [List.filterMap_append, hsteps, hsteps']
    rfl

theorem emit (h : Traces R t steps vars) (acts : Option Nat → List Act)
    (hsteps : ∀ s, (acts s).filterMap Act.step? = steps' s) (hlevel : ∀ s, Level R (acts s) vars') :
    Traces R (fun p => (t p).emit (acts (t p).statement)) (fun s => steps s ++ steps' s)
      (vars ++ vars') := by
  have hacts : Traces R (fun p => p.emit (acts p.statement)) steps' vars' := by
    intro p
    exact ⟨acts p.statement, rfl, hsteps p.statement, hlevel p.statement⟩
  exact h.comp hacts

theorem sites (h : Traces R t steps vars) (sites : Option Nat → List Step)
    (hsites : ∀ s, ∀ step ∈ sites s, ∃ site, step = .site site) :
    Traces R (fun p => (t p).emit ((sites (t p).statement).filterMap siteAct?))
      (fun s => steps s ++ sites s) vars :=
  (h.emit _ (fun s => step?_siteActs (hsites s)) fun s => level_siteActs (sites s)).congr
    (List.append_nil vars)

theorem within (h : Traces R t steps vars) (start : Nat) :
    Traces R (fun p => p.within start t) (fun _ => steps (some start)) vars := by
  intro p
  obtain ⟨acts, ht, hsteps, hlevel⟩ := h { p with statement := some start }
  refine ⟨acts, ?_, hsteps, hlevel⟩
  show p.within start t = p.emit acts
  rw [Progress.within, ht]
  rfl

theorem scope (h : Traces R t steps vars) (act : Act) {names : List String}
    (hact : act.step? = some (.enter names))
    (hlevel : ∀ acts, Level R acts vars → Level R (act :: (acts ++ [.exit])) vars') :
    Traces R (fun p => (t (p.emit [act])).emit [.exit])
      (fun s => .enter names :: (steps s ++ [.exit])) vars' := by
  intro p
  obtain ⟨acts, ht, hsteps, hacts⟩ := h (p.emit [act])
  refine ⟨act :: (acts ++ [.exit]), ?_, ?_, hlevel acts hacts⟩
  · show (t (p.emit [act])).emit [.exit] = p.emit (act :: (acts ++ [.exit]))
    rw [ht, Progress.emit_emit, Progress.emit_emit]
    rfl
  · rw [step?_scope act hact, hsteps]
    rfl

end Traces

def Traced (R : List Node → List String → Prop) (n : Node) : Prop :=
  ∀ m ∈ n.subnodes, Traces R (tour m) (walk · m) m.visitedNames

theorem Traced.self {n : Node} (h : Traced R n) : Traces R (tour n) (walk · n) n.visitedNames :=
  h n n.self_mem_subnodes

theorem Traced.part {m n : Node} (h : Traced R n) (hm : m ∈ n.parts) : Traced R m :=
  fun l hl => h l (Node.mem_subnodes_trans hl (Node.mem_subnodes_of_mem_parts hm))

variable {ns : List Node}

theorem traces_all (h : ∀ n ∈ ns, Traced R n) :
    Traces R (tourAll ns) (walkAll · ns) (ns.flatMap visitedNames) := by
  induction ns with
  | nil => exact .stay
  | cons n ns ih =>
    obtain ⟨hn, hns⟩ := List.forall_mem_cons.1 h
    exact hn.self.comp (ih hns)

theorem traces_option {value : Option Node} (h : ∀ n ∈ value.toList, Traced R n) :
    Traces R (tourOption value) (walkOption · value) (value.toList.flatMap visitedNames) := by
  cases value with
  | none => exact .stay
  | some n =>
    have hn : Traced R n := h n (List.mem_singleton_self n)
    exact hn.self.congr (List.append_nil _).symm

theorem traces_declarations {declarators : List Node} (h : ∀ n ∈ declarators, Traced R n)
    (kind : VarKind) (span : Span) (docs : List Nat) (neighbours : List Node) :
    Traces R
      (fun p => (tourAll declarators p).emit (declarationActs kind docs neighbours declarators))
      (fun s => walkAll s declarators ++ declaratorSites docs neighbours declarators)
      (Node.declarations kind declarators span).visitedNames := by
  have hacts := (traces_all h).emit
    (fun _ => declarationActs kind docs neighbours declarators)
    (fun _ => step?_declarationActs kind docs neighbours declarators)
    (fun _ => .declaration kind docs neighbours declarators)
  apply hacts.congr
  rw [Node.visitedNames_eq rfl]
  cases kind <;> rfl

theorem traces_statements (h : ∀ n ∈ ns, Traced R n) (before : Option Node) :
    Traces R (tourStatements before ns) (walkStatements · before ns)
      (ns.flatMap visitedNames) := by
  induction ns generalizing before with
  | nil => exact .stay
  | cons n ns ih =>
    obtain ⟨hn, hns⟩ := List.forall_mem_cons.1 h
    cases n with
    | declarations kind declarators span =>
      have hdeclarators : ∀ d ∈ declarators, Traced R d := fun d hd => hn.part hd
      exact (traces_declarations hdeclarators kind span _ _).comp (ih hns _)
    | expressionStatement value span =>
      have hvalue : Traced R value := hn.part (List.mem_singleton_self value)
      have hacts : Traces R _ _ (Node.expressionStatement value span).visitedNames :=
        (hvalue.self.within span.start).node rfl (by simp [Node.parts, Node.ownNames])
      exact hacts.comp (ih hns _)
    | _ => exact hn.self.comp (ih hns _)

def KeepsNames (R : List Node → List String → Prop) : Node → Prop
  | .function _ parameters body _ _ =>
    R body (parameters.flatMap visitedNames ++ body.flatMap visitedNames)
  | .lambda parameters result _ => R [] (parameters.flatMap visitedNames ++ result.visitedNames)
  | _ => True

theorem traces_of_parts {n : Node} (hparts : ∀ m ∈ n.parts, Traced R m) (hself : KeepsNames R n) :
    Traces R (tour n) (walk · n) n.visitedNames := by
  cases n with
  | call callee arguments span =>
    obtain ⟨hcallee, harguments⟩ := List.forall_mem_cons.1 hparts
    have hacts := (hcallee.self.comp (traces_all harguments)).emit
      (fun _ => [.call callee arguments span]) (fun _ => rfl)
      (fun _ => .call callee arguments span)
    exact hacts.node rfl (by simp [Node.parts, Node.ownNames])
  | assign operator target value span =>
    have htarget := hparts target (by simp [Node.parts])
    have hvalue := hparts value (by simp [Node.parts])
    have hacts := (htarget.self.comp hvalue.self).sites
      (assignmentSites · operator target value span) fun _ _ => eq_site_of_mem_assignmentSites
    exact hacts.node rfl (by simp [Node.parts, Node.ownNames])
  | property key value span =>
    have hkey := hparts key (by simp [Node.parts])
    have hvalue := hparts value (by simp [Node.parts])
    have hacts := (hkey.self.comp hvalue.self).sites (fun _ => propertySites key value)
      fun _ _ => eq_site_of_mem_propertySites
    exact hacts.node rfl (by simp [Node.parts, Node.ownNames])
  | function isArrow parameters body bodySpan span =>
    obtain ⟨hparameters, hbody⟩ := List.forall_mem_append.1 hparts
    have hinner := (traces_all hparameters).comp (traces_statements hbody none)
    have hacts : Traces R _ _ [] :=
      hinner.scope (.body (boundParameters parameters) body (Node.lexicalNames body)) rfl
        fun acts hacts => hacts.body _ _ _ hself
    exact hacts.congr (Node.visitedNames_of_isFunction rfl).symm
  | lambda parameters result span =>
    obtain ⟨hparameters, hresult⟩ := List.forall_mem_append.1 hparts
    have hresult := hresult result (List.mem_singleton_self result)
    have hinner := (traces_all hparameters).comp hresult.self
    have hnames : (Act.body (boundParameters parameters) [] []).step? =
        some (.enter (boundParameters parameters)) := by
      simp [Act.step?, Node.hoistedNamesOfAll]
    have hacts : Traces R _ _ [] := hinner.scope _ hnames fun acts hacts => hacts.body _ _ _ hself
    exact hacts.congr (Node.visitedNames_of_isFunction rfl).symm
  | declarations kind declarators span =>
    exact traces_declarations hparts kind span [span.start] []
  | declarator target value span =>
    obtain ⟨htarget, hvalue⟩ := List.forall_mem_cons.1 hparts
    exact (htarget.self.comp (traces_option hvalue)).node rfl (by simp [Node.parts, Node.ownNames])
  | returnStatement value span =>
    exact (traces_option hparts).node rfl (by simp [Node.parts, Node.ownNames])
  | block statements span =>
    have hacts := (traces_statements hparts none).scope
      (.block (Node.lexicalNames statements)) rfl fun acts hacts => hacts.block _
    exact hacts.node rfl (by simp [Node.parts, Node.ownNames])
  | sequence statements span =>
    exact (traces_statements hparts none).node rfl (by simp [Node.parts, Node.ownNames])
  | exported declaration span =>
    have hdeclaration := hparts declaration (List.mem_singleton_self declaration)
    -- An exported declaration is walked together with its `export`.
    cases declaration with
    | declarations kind declarators inner =>
      have hdeclarators : ∀ d ∈ declarators, Traced R d := fun d hd => hdeclaration.part hd
      have hacts := traces_declarations hdeclarators kind inner [span.start, inner.start] []
      exact hacts.node rfl (by simp [Node.parts, Node.ownNames])
    | _ => exact hdeclaration.self.node rfl (by simp [Node.parts, Node.ownNames])
  | template text values span =>
    exact (traces_all hparts).node rfl (by simp [Node.parts, Node.ownNames])
  | object parts span | other form parts span | objectPattern parts span
  | arrayPattern parts span | imports locals parts span =>
    exact (traces_all hparts).node rfl (by simp [Node.parts, Node.ownNames])
  | name | this | string =>
    exact Traces.stay.node rfl (by simp [Node.parts, Node.ownNames])
  | paren part span | member part text span | computed part span | spread part span
  | functionDeclaration text part span | classDeclaration text part span
  | expressionStatement part span | rest part span =>
    have hpart := hparts part (List.mem_singleton_self part)
    exact hpart.self.node rfl (by simp [Node.parts, Node.ownNames])
  | binary operator first second span | method first second span
  | patternProperty first second span | withDefault first second span =>
    have hfirst := hparts first (by simp [Node.parts])
    have hsecond := hparts second (by simp [Node.parts])
    exact (hfirst.self.comp hsecond.self).node rfl (by simp [Node.parts, Node.ownNames])

theorem traced {n : Node} (h : ∀ m ∈ n.subnodes, KeepsNames R m) : Traced R n := by
  induction n using parts_induction with
  | whole n ih =>
    have hparts : ∀ m ∈ n.parts, Traced R m := fun m hm =>
      ih m hm fun l hl => h l (Node.mem_subnodes_trans hl (Node.mem_subnodes_of_mem_parts hm))
    have hself := h n n.self_mem_subnodes
    intro m hm
    rcases Node.mem_subnodes.1 hm with rfl | ⟨part, hpart, hm⟩
    · exact traces_of_parts hparts hself
    · exact hparts part hpart m hm

theorem traces_items {p : Program} (h : ∀ m ∈ p.subnodes, KeepsNames R m) :
    Traces R (tourStatements none p.items) (walkStatements · none p.items)
      (p.items.flatMap visitedNames) := by
  apply traces_statements
  intro n hn
  exact traced fun m hm => h m (List.mem_flatMap.2 ⟨n, hn, hm⟩)

theorem level_actsOf {p : Program} (h : ∀ m ∈ p.subnodes, KeepsNames R m)
    (hitems : p.isModule → R p.items (p.items.flatMap visitedNames)) :
    Level R (actsOf p) (if p.isModule then [] else p.items.flatMap visitedNames) := by
  obtain ⟨acts, hacts, -, hlevel⟩ := traces_items h ⟨none, []⟩
  unfold actsOf
  rw [hacts]
  split_ifs with hmodule
  · exact hlevel.body _ _ _ (hitems hmodule)
  · exact hlevel

theorem step?_actsOf (p : Program) : (actsOf p).filterMap Act.step? = stepsOf p := by
  have hkeeps : ∀ m ∈ p.subnodes, KeepsNames (fun _ _ => True) m := by
    intro m _
    cases m <;> exact trivial
  obtain ⟨acts, hacts, hsteps, -⟩ := traces_items hkeeps ⟨none, []⟩
  unfold actsOf stepsOf
  rw [hacts]
  split_ifs
  · have henter : (Act.body (p.items.flatMap Node.itemNames) p.items []).step? =
        some (.enter (Node.moduleNames p.items)) := by
      rw [Act.step?, List.append_nil, Node.moduleNames]
    rw [step?_scope _ henter]
    exact congrArg (_ :: · ++ [.exit]) hsteps
  · exact hsteps

end Definition

end MessageCatalog
