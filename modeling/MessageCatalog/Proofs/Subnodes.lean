import MessageCatalog.Definition.Walk
import MessageCatalog.Script.Shape
import Mathlib.Tactic.SplitIfs

/-! All nodes of a tree in one list, each after its parts, and the steps of a walk as what is seen
at these nodes. -/

namespace MessageCatalog

namespace Script.Node

def parts : Node → List Node
  | .name .. => []
  | .this .. => []
  | .string .. => []
  | .imports _ attributes _ => attributes
  | .template _ values _ => values
  | .paren inner _ => [inner]
  | .member base _ _ => [base]
  | .call callee arguments _ => callee :: arguments
  | .binary _ left right _ => [left, right]
  | .assign _ target value _ => [target, value]
  | .function _ parameters body _ _ => parameters ++ body
  | .lambda parameters result _ => parameters ++ [result]
  | .object properties _ => properties
  | .property key value _ => [key, value]
  | .method key body _ => [key, body]
  | .computed key _ => [key]
  | .spread value _ => [value]
  | .other _ parts _ => parts
  | .declarations _ declarators _ => declarators
  | .declarator target value _ => target :: value.toList
  | .functionDeclaration _ body _ => [body]
  | .classDeclaration _ body _ => [body]
  | .expressionStatement value _ => [value]
  | .returnStatement value _ => value.toList
  | .block statements _ => statements
  | .sequence statements _ => statements
  | .exported declaration _ => [declaration]
  | .objectPattern properties _ => properties
  | .patternProperty key target _ => [key, target]
  | .arrayPattern elements _ => elements
  | .withDefault target value _ => [target, value]
  | .rest target _ => [target]

theorem sizeOf_lt_of_mem_parts {m n : Node} (h : m ∈ n.parts) : sizeOf m < sizeOf n := by
  have hlist : ∀ {ns : List Node}, m ∈ ns → sizeOf m < sizeOf ns := List.sizeOf_lt_of_mem
  have hoption : ∀ {value : Option Node}, m ∈ value.toList → sizeOf m < sizeOf value := by
    intro value hm
    cases value <;> simp_all
  cases n <;> simp only [parts] at h <;> simp
  all_goals grind

theorem parts_induction {P : Node → Prop} (whole : ∀ n, (∀ m ∈ n.parts, P m) → P n) (n : Node) :
    P n :=
  whole n fun m _ => parts_induction whole m
termination_by sizeOf n
decreasing_by exact sizeOf_lt_of_mem_parts ‹_›

def subnodes (n : Node) : List Node :=
  n.parts.attach.flatMap (fun m => subnodes m.1) ++ [n]
termination_by sizeOf n
decreasing_by exact sizeOf_lt_of_mem_parts m.2

theorem subnodes_eq (n : Node) : n.subnodes = n.parts.flatMap subnodes ++ [n] := by
  rw [subnodes, List.flatMap_subtype (g := subnodes) fun _ _ => rfl, List.unattach_attach]

theorem mem_subnodes {m n : Node} : m ∈ n.subnodes ↔ m = n ∨ ∃ p ∈ n.parts, m ∈ p.subnodes := by
  rw [subnodes_eq, List.mem_append, List.mem_flatMap, List.mem_singleton, or_comm]

theorem self_mem_subnodes (n : Node) : n ∈ n.subnodes := mem_subnodes.2 (.inl rfl)

theorem mem_subnodes_of_mem_parts {m n : Node} (h : m ∈ n.parts) : m ∈ n.subnodes :=
  mem_subnodes.2 (.inr ⟨m, h, self_mem_subnodes m⟩)

theorem forall_mem_subnodes {P : Node → Prop} {n : Node} :
    (∀ m ∈ n.subnodes, P m) ↔ (∀ part ∈ n.parts, ∀ m ∈ part.subnodes, P m) ∧ P n := by
  simp only [mem_subnodes (n := n), forall_eq_or_imp, forall_exists_index, and_imp]
  exact ⟨fun h => ⟨fun part hpart m hm => h.2 m part hpart hm, h.1⟩,
    fun h => ⟨h.2, fun m part hpart hm => h.1 part hpart m hm⟩⟩

theorem mem_subnodes_trans {l m n : Node} (hl : l ∈ m.subnodes) (hm : m ∈ n.subnodes) :
    l ∈ n.subnodes := by
  induction n using parts_induction with
  | whole n ih =>
    rcases mem_subnodes.1 hm with rfl | ⟨p, hp, hm⟩
    · exact hl
    · exact mem_subnodes.2 (.inr ⟨p, hp, ih p hp hm⟩)

theorem unparenthesized_mem_subnodes (n : Node) : n.unparenthesized ∈ n.subnodes := by
  induction n using unparenthesized.induct with
  | case1 inner span ih =>
    rw [unparenthesized]
    exact mem_subnodes.2 (.inr ⟨inner, by simp [parts], ih⟩)
  | case2 n hn =>
    rw [unparenthesized.eq_2 n hn]
    exact self_mem_subnodes n

end Script.Node

def Script.Program.subnodes (p : Script.Program) : List Script.Node :=
  p.items.flatMap Script.Node.subnodes

namespace Definition
open Script (Node Span Program VarKind)
open Script.Node (parts_induction)

/-- A step without the names of its scope, and without where its documentation stands. -/
inductive Mark where
  | site (kind : Kind) (name : String) (value : Option Node) (span : Span)
  | call (callee : Node) (arguments : List Node) (span : Span)

def Mark.value? : Mark → Option Node
  | .site _ _ value _ => value
  | .call .. => none

def Step.mark? : Step → Option Mark
  | .enter _ => none
  | .exit => none
  | .site s => some (.site s.kind s.name s.value s.span)
  | .call callee arguments span => some (.call callee arguments span)

def declaratorMarks : Node → List Mark
  | .declarator (.name text span) value _ => [.site .variable text value span]
  | _ => []

def marksAt : Node → List Mark
  | .call callee arguments span => [.call callee arguments span]
  | .assign operator (.member _ text _) value span =>
    if operator = "=" then [.site .assignment text (some value) span] else []
  | .property (.name text span) value _ => [.site .objectKey text (some value) span]
  | .declarations _ declarators _ => declarators.flatMap declaratorMarks
  | _ => []

def marks (n : Node) : List Mark := n.subnodes.flatMap marksAt

def marksOf (p : Program) : List Mark := p.subnodes.flatMap marksAt

theorem marks_eq (n : Node) : marks n = n.parts.flatMap marks ++ marksAt n := by
  rw [marks, Node.subnodes_eq, List.flatMap_append, List.flatMap_assoc, List.flatMap_singleton]
  rfl

inductive Shows : Node → Mark → Prop
  | declarator {kind : VarKind} {declarators : List Node} {name : String} {value : Option Node}
    {nameSpan span around : Span}
    (mem : .declarator (.name name nameSpan) value span ∈ declarators) :
    Shows (.declarations kind declarators around) (.site .variable name value nameSpan)
  | assignment (base value : Node) (name : String) (targetSpan span : Span) :
    Shows (.assign "=" (.member base name targetSpan) value span)
      (.site .assignment name (some value) span)
  | property (name : String) (value : Node) (nameSpan span : Span) :
    Shows (.property (.name name nameSpan) value span) (.site .objectKey name (some value) nameSpan)
  | call (callee : Node) (arguments : List Node) (span : Span) :
    Shows (.call callee arguments span) (.call callee arguments span)

theorem mem_declaratorMarks {declarator : Node} {m : Mark} :
    m ∈ declaratorMarks declarator ↔ ∃ name nameSpan value span,
      declarator = .declarator (.name name nameSpan) value span ∧
        m = .site .variable name value nameSpan := by
  unfold declaratorMarks
  split
  · next name nameSpan value span =>
    rw [List.mem_singleton]
    constructor
    · rintro rfl
      exact ⟨name, nameSpan, value, span, rfl, rfl⟩
    · rintro ⟨_, _, _, _, hdeclarator, rfl⟩
      cases hdeclarator
      rfl
  · next hother =>
    simp only [List.not_mem_nil, false_iff, not_exists, not_and]
    rintro name nameSpan value span rfl
    exact absurd rfl (hother name nameSpan value span)

theorem mem_marksAt {n : Node} {m : Mark} : m ∈ marksAt n ↔ Shows n m := by
  constructor
  · intro hm
    unfold marksAt at hm
    split at hm
    · rw [List.mem_singleton.1 hm]
      exact .call ..
    · split_ifs at hm with hplain
      · rw [List.mem_singleton.1 hm, hplain]
        exact .assignment ..
      · cases hm
    · rw [List.mem_singleton.1 hm]
      exact .property ..
    · obtain ⟨declarator, hmem, hm⟩ := List.mem_flatMap.1 hm
      obtain ⟨name, nameSpan, value, span, rfl, rfl⟩ := mem_declaratorMarks.1 hm
      exact .declarator hmem
    · cases hm
  · intro h
    cases h with
    | declarator mem =>
      exact List.mem_flatMap.2 ⟨_, mem, mem_declaratorMarks.2 ⟨_, _, _, _, rfl, rfl⟩⟩
    | assignment | property | call => exact List.mem_singleton_self _

theorem value_mem_parts {n value : Node} {m : Mark} (hm : m ∈ marksAt n)
    (hvalue : m.value? = some value) : ∃ part ∈ n.parts, value ∈ part.subnodes := by
  cases mem_marksAt.1 hm with
  | declarator mem =>
    cases hvalue
    exact ⟨_, mem, Node.mem_subnodes_of_mem_parts (by simp [Node.parts])⟩
  | assignment | property =>
    cases hvalue
    exact ⟨value, by simp [Node.parts], value.self_mem_subnodes⟩
  | call => cases hvalue

theorem marksOf_eq (p : Program) : marksOf p = p.items.flatMap marks := List.flatMap_assoc

theorem marks_declaratorSites (docs : List Nat) (neighbours declarators : List Node) :
    (declaratorSites docs neighbours declarators).filterMap Step.mark? =
      declarators.flatMap declaratorMarks := by
  induction declarators using declaratorSites.induct with
  | case1 => rfl
  | case2 text nameSpan value span rest ih =>
    simp [declaratorSites, declaratorMarks, Step.mark?, ih]
  | case3 declarator rest hother ih =>
    rw [declaratorSites.eq_3 docs neighbours declarator rest hother, ih, List.flatMap_cons,
      declaratorMarks.eq_2 declarator hother, List.nil_append]

theorem marks_assignmentSites (statement : Option Nat) (operator : String) (target value : Node)
    (span : Span) :
    (assignmentSites statement operator target value span).filterMap Step.mark? =
      marksAt (.assign operator target value span) := by
  cases target with
  | member base text span =>
    simp only [assignmentSites, marksAt]
    split_ifs <;> rfl
  | _ => rfl

theorem marks_propertySites (key value : Node) (span : Span) :
    (propertySites key value).filterMap Step.mark? = marksAt (.property key value span) := by
  cases key <;> rfl

theorem marks_scope (names : List String) (steps : List Step) :
    (Step.enter names :: (steps ++ [.exit])).filterMap Step.mark? = steps.filterMap Step.mark? := by
  rw [List.filterMap_cons_none rfl, List.filterMap_append]
  exact List.append_nil _

def Marked (n : Node) : Prop :=
  ∀ statement, (walk statement n).filterMap Step.mark? = marks n

theorem Marked.walk {n : Node} (h : Marked n) (statement : Option Nat) :
    (walk statement n).filterMap Step.mark? = marks n := h statement

variable {ns : List Node}

theorem marks_walkAll (h : ∀ n ∈ ns, Marked n) (statement : Option Nat) :
    (walkAll statement ns).filterMap Step.mark? = ns.flatMap marks := by
  induction ns with
  | nil => rfl
  | cons n ns ih =>
    obtain ⟨hn, hns⟩ := List.forall_mem_cons.1 h
    rw [walkAll, List.filterMap_append, hn, ih hns, List.flatMap_cons]

theorem marks_walkOption {value : Option Node} (h : ∀ n ∈ value.toList, Marked n)
    (statement : Option Nat) :
    (walkOption statement value).filterMap Step.mark? = value.toList.flatMap marks := by
  cases value with
  | none => rfl
  | some n => simp [walkOption, h n (by simp) statement]

theorem marks_walkStatements (h : ∀ n ∈ ns, Marked n) (statement : Option Nat)
    (before : Option Node) :
    (walkStatements statement before ns).filterMap Step.mark? = ns.flatMap marks := by
  induction ns generalizing before with
  | nil => rfl
  | cons n ns ih =>
    obtain ⟨hn, hns⟩ := List.forall_mem_cons.1 h
    -- Here a declaration knows its neighbours, and an expression where its statement starts; on
    -- their own they leave the same marks.
    cases n with
    | declarations kind declarators span =>
      have hwalk := hn statement
      rw [walk, List.filterMap_append, marks_declaratorSites] at hwalk
      rw [walkStatements, List.filterMap_append, List.filterMap_append, marks_declaratorSites,
        hwalk, ih hns, List.flatMap_cons]
    | expressionStatement value span =>
      have hwalk := hn (some span.start)
      rw [walk] at hwalk
      rw [walkStatements, List.filterMap_append, hwalk, ih hns, List.flatMap_cons]
    | _ => simp [walkStatements, hn statement, ih hns]

theorem marked (n : Node) : Marked n := by
  induction n using parts_induction with
  | whole n ih =>
    intro statement
    rw [marks_eq]
    cases n with
    | call callee arguments span =>
      obtain ⟨hcallee, harguments⟩ := List.forall_mem_cons.1 ih
      simp [Definition.walk, Node.parts, marksAt, hcallee.walk, marks_walkAll harguments,
        Step.mark?]
    | assign operator target value span =>
      have htarget := ih target (by simp [Node.parts])
      have hvalue := ih value (by simp [Node.parts])
      simp [Definition.walk, Node.parts, htarget.walk, hvalue.walk, marks_assignmentSites]
    | property key value span =>
      have hkey := ih key (by simp [Node.parts])
      have hvalue := ih value (by simp [Node.parts])
      simp [Definition.walk, Node.parts, hkey.walk, hvalue.walk, marks_propertySites _ _ span]
    | function isArrow parameters body bodySpan span =>
      obtain ⟨hparameters, hbody⟩ := List.forall_mem_append.1 ih
      rw [Definition.walk, marks_scope, List.filterMap_append, marks_walkAll hparameters,
        marks_walkStatements hbody]
      simp [Node.parts, marksAt]
    | lambda parameters result span =>
      obtain ⟨hparameters, hresult⟩ := List.forall_mem_append.1 ih
      have hresult := hresult result (by simp)
      rw [Definition.walk, marks_scope, List.filterMap_append, marks_walkAll hparameters,
        hresult.walk]
      simp [Node.parts, marksAt]
    | declarations kind declarators span =>
      have hdeclarators : ∀ n ∈ declarators, Marked n := ih
      simp [Definition.walk, Node.parts, marksAt, marks_walkAll hdeclarators, marks_declaratorSites]
    | declarator target value span =>
      obtain ⟨htarget, hvalue⟩ := List.forall_mem_cons.1 ih
      simp [Definition.walk, Node.parts, marksAt, htarget.walk, marks_walkOption hvalue]
    | returnStatement value span =>
      have hvalue : ∀ n ∈ value.toList, Marked n := ih
      simp [Definition.walk, Node.parts, marksAt, marks_walkOption hvalue]
    | block statements span =>
      have hstatements : ∀ n ∈ statements, Marked n := ih
      rw [Definition.walk, marks_scope, marks_walkStatements hstatements]
      simp [Node.parts, marksAt]
    | sequence statements span =>
      have hstatements : ∀ n ∈ statements, Marked n := ih
      simp [Definition.walk, Node.parts, marksAt, marks_walkStatements hstatements]
    | exported declaration span =>
      -- An exported declaration is walked together with its `export`.
      have hdeclaration := (ih declaration (by simp [Node.parts])).walk statement
      cases declaration with
      | declarations kind declarators inner =>
        rw [Definition.walk, List.filterMap_append, marks_declaratorSites] at hdeclaration
        simpa [Definition.walk, Node.parts, marksAt, marks_declaratorSites] using hdeclaration
      | _ => simpa [Definition.walk, Node.parts, marksAt] using hdeclaration
    | template text values span =>
      have hvalues : ∀ n ∈ values, Marked n := ih
      simp [Definition.walk, Node.parts, marksAt, marks_walkAll hvalues]
    | object parts span | other form parts span | objectPattern parts span
    | arrayPattern parts span | imports locals parts span =>
      have hparts : ∀ n ∈ parts, Marked n := ih
      simp [Definition.walk, Node.parts, marksAt, marks_walkAll hparts]
    | _ =>
      simp [Node.parts] at ih
      simp [Definition.walk, Node.parts, marksAt, Marked.walk, ih]

theorem marks_stepsOf (p : Program) : (stepsOf p).filterMap Step.mark? = marksOf p := by
  rw [marksOf_eq]
  have hitems : ∀ n ∈ p.items, Marked n := fun n _ => marked n
  unfold stepsOf
  split_ifs
  · rw [marks_scope, marks_walkStatements hitems]
  · exact marks_walkStatements hitems none none

end Definition

end MessageCatalog
