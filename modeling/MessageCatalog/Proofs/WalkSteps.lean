import MessageCatalog.Proofs.Subnodes

/-! Where a step of a walk is from: from a part of the node, from one of its statements, or from the
node itself. -/

namespace MessageCatalog

namespace Script.Node

def statements : Node → List Node
  | .function _ _ body _ _ => body
  | .block statements _ => statements
  | .sequence statements _ => statements
  | _ => []

def operands : Node → List Node
  | .function _ parameters _ _ _ => parameters
  | .block .. | .sequence .. => []
  | n => n.parts

variable {m n : Node}

theorem parts_eq_append (n : Node) : n.parts = n.operands ++ n.statements := by
  cases n with
  | function | block | sequence => rfl
  | _ => exact (List.append_nil _).symm

theorem mem_parts_of_mem_operands (h : m ∈ n.operands) : m ∈ n.parts := by
  rw [parts_eq_append]
  exact List.mem_append_left _ h

theorem mem_parts_of_mem_statements (h : m ∈ n.statements) : m ∈ n.parts := by
  rw [parts_eq_append]
  exact List.mem_append_right _ h

end Script.Node

namespace Definition
open Script (Node Program Span)

variable {statement : Option Nat} {ns : List Node} {n : Node} {step : Step}

section Sites
variable {docs : List Nat} {neighbours declarators : List Node} {operator : String}
  {target value key : Node} {span : Span} {s : Site}

theorem exists_of_mem_declaratorSites (h : step ∈ declaratorSites docs neighbours declarators) :
    ∃ name nameSpan value span, .declarator (.name name nameSpan) value span ∈ declarators ∧
      step = .site ⟨.variable, name, value, nameSpan, docs, neighbours⟩ := by
  induction declarators using declaratorSites.induct with
  | case1 => cases h
  | case2 text nameSpan value span rest ih =>
    rcases List.mem_cons.1 h with rfl | h
    · exact ⟨text, nameSpan, value, span, List.mem_cons_self, rfl⟩
    · obtain ⟨name, nameSpan, value, span, hmem, hs⟩ := ih h
      exact ⟨name, nameSpan, value, span, List.mem_cons_of_mem _ hmem, hs⟩
  | case3 declarator rest hother ih =>
    rw [declaratorSites.eq_3 docs neighbours declarator rest hother] at h
    obtain ⟨name, nameSpan, value, span, hmem, hs⟩ := ih h
    exact ⟨name, nameSpan, value, span, List.mem_cons_of_mem _ hmem, hs⟩

theorem exists_of_mem_assignmentSites
    (h : step ∈ assignmentSites statement operator target value span) :
    ∃ base name memberSpan, operator = "=" ∧ target = .member base name memberSpan ∧
      step = .site ⟨.assignment, name, some value, span,
        [span.start, statement.getD span.start], []⟩ := by
  unfold assignmentSites at h
  split at h
  · split_ifs at h with hplain
    · exact ⟨_, _, _, hplain, rfl, List.mem_singleton.1 h⟩
    · cases h
  · cases h

theorem exists_of_mem_propertySites (h : step ∈ propertySites key value) :
    ∃ name nameSpan, key = .name name nameSpan ∧
      step = .site ⟨.objectKey, name, some value, nameSpan, [nameSpan.start], []⟩ := by
  unfold propertySites at h
  split at h
  · exact ⟨_, _, rfl, List.mem_singleton.1 h⟩
  · cases h

theorem eq_site_of_mem_declaratorSites (h : step ∈ declaratorSites docs neighbours declarators) :
    ∃ s, step = .site s := by
  obtain ⟨_, _, _, _, -, hs⟩ := exists_of_mem_declaratorSites h
  exact ⟨_, hs⟩

theorem eq_site_of_mem_assignmentSites
    (h : step ∈ assignmentSites statement operator target value span) : ∃ s, step = .site s := by
  obtain ⟨_, _, _, -, -, hs⟩ := exists_of_mem_assignmentSites h
  exact ⟨_, hs⟩

theorem eq_site_of_mem_propertySites (h : step ∈ propertySites key value) :
    ∃ s, step = .site s := by
  obtain ⟨_, _, -, hs⟩ := exists_of_mem_propertySites h
  exact ⟨_, hs⟩

theorem kind_of_mem_declaratorSites (h : .site s ∈ declaratorSites docs neighbours declarators) :
    s.kind = .variable := by
  obtain ⟨_, _, _, _, -, hs⟩ := exists_of_mem_declaratorSites h
  cases hs
  rfl

theorem kind_of_mem_assignmentSites
    (h : .site s ∈ assignmentSites statement operator target value span) :
    s.kind = .assignment := by
  obtain ⟨_, _, _, -, -, hs⟩ := exists_of_mem_assignmentSites h
  cases hs
  rfl

theorem kind_of_mem_propertySites (h : .site s ∈ propertySites key value) :
    s.kind = .objectKey := by
  obtain ⟨_, _, -, hs⟩ := exists_of_mem_propertySites h
  cases hs
  rfl

end Sites

theorem exists_of_mem_walkAll (h : step ∈ walkAll statement ns) :
    ∃ n ∈ ns, step ∈ walk statement n := by
  induction ns with
  | nil => cases h
  | cons n ns ih =>
    rcases List.mem_append.1 h with h | h
    · exact ⟨n, List.mem_cons_self, h⟩
    · obtain ⟨m, hm, h⟩ := ih h
      exact ⟨m, List.mem_cons_of_mem n hm, h⟩

theorem exists_of_mem_walkOption {value : Option Node} (h : step ∈ walkOption statement value) :
    ∃ n ∈ value.toList, step ∈ walk statement n := by
  cases value with
  | none => cases h
  | some n => exact ⟨n, by simp, h⟩

theorem mem_walk_declarations {kind : Script.VarKind} {declarators : List Node} {span : Span}
    (h : step ∈ walkAll statement declarators) :
    step ∈ walk statement (.declarations kind declarators span) := List.mem_append_left _ h

def startIn (statement : Option Nat) : Node → Option Nat
  | .expressionStatement _ span => some span.start
  | _ => statement

inductive FromStatement (statement : Option Nat) (before after : List Node) (step : Step) :
    Node → Prop
  | declarators {kind : Script.VarKind} {declarators : List Node} {span : Span}
    (mem : step ∈ walkAll statement declarators) :
    FromStatement statement before after step (.declarations kind declarators span)
  | declaration {kind : Script.VarKind} {declarators : List Node} {span : Span}
    (mem : step ∈ declaratorSites [span.start] (before.getLast?.toList ++ after.head?.toList)
      declarators) :
    FromStatement statement before after step (.declarations kind declarators span)
  | other {n : Node} (other : ∀ kind declarators span, n ≠ .declarations kind declarators span)
    (mem : step ∈ walk (startIn statement n) n) : FromStatement statement before after step n

theorem exists_of_mem_walkStatements (before : List Node)
    (h : step ∈ walkStatements statement before.getLast? ns) :
    ∃ earlier n later, ns = earlier ++ n :: later ∧
      FromStatement statement (before ++ earlier) later step n := by
  induction ns generalizing before with
  | nil => cases h
  | cons n ns ih =>
    have hhere : FromStatement statement before ns step n → ∃ earlier m later,
        n :: ns = earlier ++ m :: later ∧
          FromStatement statement (before ++ earlier) later step m := fun h =>
      ⟨[], n, ns, rfl, by rwa [List.append_nil]⟩
    have hrest : step ∈ walkStatements statement (some n) ns → ∃ earlier m later,
        n :: ns = earlier ++ m :: later ∧
          FromStatement statement (before ++ earlier) later step m := by
      intro h
      rw [← List.getLast?_concat] at h
      obtain ⟨earlier, m, later, rfl, hm⟩ := ih (before ++ [n]) h
      exact ⟨n :: earlier, m, later, rfl, by rwa [List.append_assoc] at hm⟩
    cases n with
    | declarations kind declarators span =>
      rw [walkStatements, List.mem_append, List.mem_append] at h
      rcases h with (h | h) | h
      · exact hhere (.declarators h)
      · exact hhere (.declaration h)
      · exact hrest h
    | expressionStatement value span =>
      rw [walkStatements, List.mem_append] at h
      rcases h with h | h
      · exact hhere (.other (by simp) h)
      · exact hrest h
    | _ =>
      rw [walkStatements.eq_4, List.mem_append] at h
      · rcases h with h | h
        · exact hhere (.other (by simp) h)
        · exact hrest h
      all_goals simp

def ownSites (statement : Option Nat) : Node → List Step
  | .assign operator target value span => assignmentSites statement operator target value span
  | .property key value _ => propertySites key value
  | .declarations _ declarators span => declaratorSites [span.start] [] declarators
  | .exported (.declarations _ declarators inner) span =>
    declaratorSites [span.start, inner.start] [] declarators
  | _ => []

theorem eq_site_of_mem_ownSites (h : step ∈ ownSites statement n) : ∃ s, step = .site s := by
  unfold ownSites at h
  split at h
  · exact eq_site_of_mem_assignmentSites h
  · exact eq_site_of_mem_propertySites h
  · exact eq_site_of_mem_declaratorSites h
  · exact eq_site_of_mem_declaratorSites h
  · cases h

def ownBounds : Node → List Step
  | .function _ parameters body _ _ =>
    [.enter (boundParameters parameters ++ Node.hoistedNamesOfAll body ++ Node.lexicalNames body),
      .exit]
  | .lambda parameters _ _ => [.enter (boundParameters parameters), .exit]
  | .block statements _ => [.enter (Node.lexicalNames statements), .exit]
  | .call callee arguments span => [.call callee arguments span]
  | _ => []

theorem ne_site_of_mem_ownBounds {s : Site} : .site s ∉ ownBounds n := by
  unfold ownBounds
  split <;> simp

theorem mem_scope {names : List String} {steps : List Step} :
    step ∈ .enter names :: (steps ++ [.exit]) ↔ step ∈ steps ∨ step ∈ [.enter names, .exit] := by
  simp only [List.mem_cons, List.mem_append, List.not_mem_nil, or_false]
  exact or_left_comm

theorem walk_step_cases (h : step ∈ walk statement n) :
    (∃ m ∈ n.operands, step ∈ walk statement m) ∨
      step ∈ walkStatements statement none n.statements ∨
      step ∈ ownSites statement n ∨ step ∈ ownBounds n := by
  cases n with
  | name | this | string => simp [walk] at h
  | function isArrow parameters body bodySpan span =>
    rcases mem_scope.1 h with h | h
    · rcases List.mem_append.1 h with h | h
      · exact .inl (exists_of_mem_walkAll h)
      · exact .inr (.inl h)
    · exact .inr (.inr (.inr h))
  | lambda parameters result span =>
    rcases mem_scope.1 h with h | h
    · rcases List.mem_append.1 h with h | h
      · obtain ⟨m, hm, h⟩ := exists_of_mem_walkAll h
        exact .inl ⟨m, List.mem_append_left [result] hm, h⟩
      · exact .inl ⟨result, by simp [Node.operands, Node.parts], h⟩
    · exact .inr (.inr (.inr h))
  | block statements span =>
    rcases mem_scope.1 h with h | h
    · exact .inr (.inl h)
    · exact .inr (.inr (.inr h))
  | sequence statements span => exact .inr (.inl h)
  | call callee arguments span =>
    rw [walk, List.mem_append, List.mem_append] at h
    rcases h with (h | h) | h
    · exact .inl ⟨callee, List.mem_cons_self, h⟩
    · obtain ⟨m, hm, h⟩ := exists_of_mem_walkAll h
      exact .inl ⟨m, List.mem_cons_of_mem callee hm, h⟩
    · exact .inr (.inr (.inr h))
  | declarations kind declarators span =>
    rcases List.mem_append.1 h with h | h
    · exact .inl (exists_of_mem_walkAll h)
    · exact .inr (.inr (.inl h))
  | exported declaration span =>
    -- An exported declaration is walked together with its `export`.
    cases declaration with
    | declarations kind declarators inner =>
      rcases List.mem_append.1 h with h | h
      · exact .inl ⟨_, List.mem_cons_self, mem_walk_declarations h⟩
      · exact .inr (.inr (.inl h))
    | _ => exact .inl ⟨_, List.mem_cons_self, h⟩
  | assign operator target value span =>
    rw [walk, List.mem_append, List.mem_append] at h
    rcases h with (h | h) | h
    · exact .inl ⟨target, by simp [Node.operands, Node.parts], h⟩
    · exact .inl ⟨value, by simp [Node.operands, Node.parts], h⟩
    · exact .inr (.inr (.inl h))
  | property key value span =>
    rw [walk, List.mem_append, List.mem_append] at h
    rcases h with (h | h) | h
    · exact .inl ⟨key, by simp [Node.operands, Node.parts], h⟩
    · exact .inl ⟨value, by simp [Node.operands, Node.parts], h⟩
    · exact .inr (.inr (.inl h))
  | declarator target value span =>
    rcases List.mem_append.1 h with h | h
    · exact .inl ⟨target, by simp [Node.operands, Node.parts], h⟩
    · obtain ⟨m, hm, h⟩ := exists_of_mem_walkOption h
      exact .inl ⟨m, List.mem_cons_of_mem target hm, h⟩
  | returnStatement value span => exact .inl (exists_of_mem_walkOption h)
  | template | object | other | objectPattern | arrayPattern | imports => exact .inl (exists_of_mem_walkAll h)
  | binary _ left right | method left right | patternProperty left right
  | withDefault left right =>
    rcases List.mem_append.1 h with h | h
    · exact .inl ⟨left, by simp [Node.operands, Node.parts], h⟩
    · exact .inl ⟨right, by simp [Node.operands, Node.parts], h⟩
  | _ => exact .inl ⟨_, List.mem_singleton_self _, h⟩

theorem stepsOf_cases {p : Program} (h : step ∈ stepsOf p) :
    step ∈ walkStatements none none p.items ∨
      step ∈ [.enter (Node.moduleNames p.items), .exit] := by
  unfold stepsOf at h
  split_ifs at h
  · exact mem_scope.1 h
  · exact .inl h

theorem site_mem_walkStatements {p : Program} {s : Site} (h : .site s ∈ stepsOf p) :
    .site s ∈ walkStatements none none p.items :=
  (stepsOf_cases h).resolve_right (by simp)

end Definition

end MessageCatalog
