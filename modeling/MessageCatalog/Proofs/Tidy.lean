import MessageCatalog.Proofs.Tour

/-! Trees in which `var` declarations stand only among statements, as they do in all that a script
can say. -/

namespace MessageCatalog.Script

namespace Node

/-- No `var` declaration reaches into a place where none is looked for: a declarator, a parameter,
or the result of an arrow function. -/
def KeepsVars : Node → Prop
  | .declarations _ declarators _ => declarators.flatMap visitedNames = []
  | .function _ parameters _ _ _ => parameters.flatMap visitedNames = []
  | .lambda parameters result _ => parameters.flatMap visitedNames ++ result.visitedNames = []
  | _ => True

def IsTidy (n : Node) : Prop := ∀ m ∈ n.subnodes, m.KeepsVars

theorem isTidy_iff {n : Node} : n.IsTidy ↔ (∀ m ∈ n.parts, m.IsTidy) ∧ n.KeepsVars :=
  forall_mem_subnodes

structure IsExpression (n : Node) : Prop where
  tidy : n.IsTidy
  visited : n.visitedNames = []

theorem visitedNames_eq_nil {ns : List Node} :
    ns.flatMap visitedNames = [] ↔ ∀ n ∈ ns, n.visitedNames = [] := List.flatMap_eq_nil_iff

theorem forall_isExpression_iff {ns : List Node} :
    (∀ n ∈ ns, n.IsExpression) ↔ (∀ n ∈ ns, n.IsTidy) ∧ ns.flatMap visitedNames = [] := by
  rw [visitedNames_eq_nil]
  constructor
  · intro h
    exact ⟨fun n hn => (h n hn).tidy, fun n hn => (h n hn).visited⟩
  · rintro ⟨htidy, hvisited⟩ n hn
    exact ⟨htidy n hn, hvisited n hn⟩

inductive Role where
  | plain
  | declares
  | function
  | lambda
  deriving DecidableEq

-- Written out for each constructor, so that nothing is to be said of a node whose form is unknown.
def role : Node → Role
  | .name .. => .plain
  | .this .. => .plain
  | .string .. => .plain
  | .template .. => .plain
  | .paren .. => .plain
  | .member .. => .plain
  | .call .. => .plain
  | .binary .. => .plain
  | .assign .. => .plain
  | .function .. => .function
  | .lambda .. => .lambda
  | .object .. => .plain
  | .property .. => .plain
  | .method .. => .plain
  | .computed .. => .plain
  | .spread .. => .plain
  | .other .. => .plain
  | .declarations .. => .declares
  | .declarator .. => .plain
  | .functionDeclaration .. => .plain
  | .classDeclaration .. => .plain
  | .expressionStatement .. => .plain
  | .returnStatement .. => .plain
  | .block .. => .plain
  | .sequence .. => .plain
  | .imports .. => .plain
  | .exported .. => .plain
  | .objectPattern .. => .plain
  | .patternProperty .. => .plain
  | .arrayPattern .. => .plain
  | .withDefault .. => .plain
  | .rest .. => .plain

theorem isExpression_iff {n : Node} (h : n.role = .plain ∨ n.role = .lambda) :
    n.IsExpression ↔ ∀ m ∈ n.parts, m.IsExpression := by
  rw [forall_isExpression_iff]
  have hself : n.IsExpression ↔ n.IsTidy ∧ n.visitedNames = [] :=
    ⟨fun h => ⟨h.tidy, h.visited⟩, fun h => ⟨h.1, h.2⟩⟩
  rw [hself, isTidy_iff]
  cases n with
  | declarations | function => simp [role] at h
  | lambda parameters result span =>
    rw [visitedNames_of_isFunction rfl]
    simp [KeepsVars, parts]
  | _ =>
    rw [visitedNames_eq rfl]
    simp [KeepsVars, ownNames]

theorem isExpression_function {isArrow : Bool} {parameters body : List Node}
    {bodySpan span : Span} (hparameters : ∀ n ∈ parameters, n.IsExpression)
    (hbody : ∀ n ∈ body, n.IsTidy) :
    (Node.function isArrow parameters body bodySpan span).IsExpression := by
  obtain ⟨htidy, hvisited⟩ := forall_isExpression_iff.1 hparameters
  refine ⟨isTidy_iff.2 ⟨?_, hvisited⟩, visitedNames_of_isFunction rfl⟩
  intro m hm
  rcases List.mem_append.1 hm with hm | hm
  · exact htidy m hm
  · exact hbody m hm

theorem isTidy_declarations {kind : VarKind} {declarators : List Node} {span : Span}
    (h : ∀ n ∈ declarators, n.IsExpression) : (Node.declarations kind declarators span).IsTidy := by
  obtain ⟨htidy, hvisited⟩ := forall_isExpression_iff.1 h
  exact isTidy_iff.2 ⟨htidy, hvisited⟩

theorem isTidy_of_parts {n : Node} (h : n.role = .plain) (hparts : ∀ m ∈ n.parts, m.IsTidy) :
    n.IsTidy := by
  refine isTidy_iff.2 ⟨hparts, ?_⟩
  cases n <;> first | exact trivial | cases h

theorem toPatterns_eq (ns : List Node) : toPatterns ns = ns.map toPattern := by
  induction ns with
  | nil => rfl
  | cons n ns ih => rw [toPatterns, ih, List.map_cons]

theorem IsExpression.toPattern {n : Node} (h : n.IsExpression) : n.toPattern.IsExpression := by
  induction n using parts_induction with
  | whole n ih =>
    have hpattern : ∀ ns : List Node, (∀ m ∈ ns, m ∈ n.parts ∧ m.IsExpression) →
        ∀ m ∈ toPatterns ns, m.IsExpression := by
      intro ns hns
      rw [toPatterns_eq, List.forall_mem_map]
      exact fun m hm => ih m (hns m hm).1 (hns m hm).2
    unfold Node.toPattern
    split
    · rw [isExpression_iff (.inl rfl)] at h ⊢
      exact hpattern _ fun m hm => ⟨hm, h m hm⟩
    · rw [isExpression_iff (.inl rfl)] at h ⊢
      simp_all [parts]
    · rw [isExpression_iff (.inl rfl)] at h ⊢
      simp_all [parts]
    · rw [isExpression_iff (.inl rfl)] at h ⊢
      exact hpattern _ fun m hm => ⟨hm, h m hm⟩
    · rw [isExpression_iff (.inl rfl)] at h ⊢
      simp_all [parts]
    · exact h

end Node

def Program.IsTidy (p : Program) : Prop := ∀ n ∈ p.items, n.IsTidy

end MessageCatalog.Script
