import MessageCatalog.Proofs.Names

/-! Other names for the names in a tree, and other places for its tokens: the walk of the renamed
tree is the renamed walk. -/

namespace MessageCatalog

namespace Script
variable (ρ : String → String) (σ : Nat → Nat)

def Span.move (s : Span) : Span := ⟨σ s.start, σ s.stop⟩

@[simp] theorem Span.start_move (s : Span) : (s.move σ).start = σ s.start := rfl

namespace Node

mutual

/-- The node with its names and property names changed by `ρ` and its offsets by `σ`. -/
def rename : Node → Node
  | .name text span => .name (ρ text) (span.move σ)
  | .this span => .this (span.move σ)
  | .string text span => .string text (span.move σ)
  | .template text values span => .template text (renameAll values) (span.move σ)
  | .paren inner span => .paren (rename inner) (span.move σ)
  | .member base last span => .member (rename base) (ρ last) (span.move σ)
  | .call callee arguments span => .call (rename callee) (renameAll arguments) (span.move σ)
  | .binary operator left right span => .binary operator (rename left) (rename right) (span.move σ)
  | .assign operator target value span =>
    .assign operator (rename target) (rename value) (span.move σ)
  | .function isArrow parameters body bodySpan span =>
    .function isArrow (renameAll parameters) (renameAll body) (bodySpan.move σ) (span.move σ)
  | .lambda parameters result span => .lambda (renameAll parameters) (rename result) (span.move σ)
  | .object properties span => .object (renameAll properties) (span.move σ)
  | .property key value span => .property (rename key) (rename value) (span.move σ)
  | .method key body span => .method (rename key) (rename body) (span.move σ)
  | .computed key span => .computed (rename key) (span.move σ)
  | .spread value span => .spread (rename value) (span.move σ)
  | .other form parts span => .other form (renameAll parts) (span.move σ)
  | .declarations kind declarators span =>
    .declarations kind (renameAll declarators) (span.move σ)
  | .declarator target value span => .declarator (rename target) (renameOption value) (span.move σ)
  | .functionDeclaration text body span =>
    .functionDeclaration (ρ text) (rename body) (span.move σ)
  | .classDeclaration text body span => .classDeclaration (ρ text) (rename body) (span.move σ)
  | .expressionStatement value span => .expressionStatement (rename value) (span.move σ)
  | .returnStatement value span => .returnStatement (renameOption value) (span.move σ)
  | .block statements span => .block (renameAll statements) (span.move σ)
  | .sequence statements span => .sequence (renameAll statements) (span.move σ)
  | .imports locals attributes span =>
    .imports (locals.map ρ) (renameAll attributes) (span.move σ)
  | .exported declaration span => .exported (rename declaration) (span.move σ)
  | .objectPattern properties span => .objectPattern (renameAll properties) (span.move σ)
  | .patternProperty key target span => .patternProperty (rename key) (rename target) (span.move σ)
  | .arrayPattern elements span => .arrayPattern (renameAll elements) (span.move σ)
  | .withDefault target value span => .withDefault (rename target) (rename value) (span.move σ)
  | .rest target span => .rest (rename target) (span.move σ)

def renameAll : List Node → List Node
  | [] => []
  | n :: ns => rename n :: renameAll ns

def renameOption : Option Node → Option Node
  | none => none
  | some n => some (rename n)

end

-- The equations are made here, before all the proofs that open `rename`.
attribute [grind =] rename

@[simp] theorem renameAll_eq (ns : List Node) : renameAll ρ σ ns = ns.map (rename ρ σ) := by
  induction ns with
  | nil => rfl
  | cons n ns ih => rw [renameAll, ih, List.map_cons]

@[simp] theorem renameOption_eq (value : Option Node) :
    renameOption ρ σ value = value.map (rename ρ σ) := by
  cases value <;> rfl

@[simp] theorem span_rename (n : Node) : (n.rename ρ σ).span = n.span.move σ := by
  cases n <;> rfl

theorem isCall_rename (n : Node) : (n.rename ρ σ).isCall = n.isCall := by
  cases n <;> rfl

theorem unparenthesized_rename (n : Node) :
    (n.rename ρ σ).unparenthesized = n.unparenthesized.rename ρ σ := by
  induction n using unparenthesized.induct with
  | case1 inner span ih => simpa [rename, unparenthesized] using ih
  | case2 n hn =>
    rw [unparenthesized.eq_2 n hn]
    cases n with
    | paren inner span => exact absurd rfl (hn inner span)
    | _ => rfl

theorem flatMap_rename {f : Node → List String} {ns : List Node}
    (h : ∀ n ∈ ns, f (n.rename ρ σ) = (f n).map ρ) :
    (ns.map (rename ρ σ)).flatMap f = (ns.flatMap f).map ρ := by
  rw [List.flatMap_map, List.map_flatMap]
  exact List.flatMap_congr h

theorem boundNames_rename (n : Node) : (n.rename ρ σ).boundNames = n.boundNames.map ρ := by
  induction n using parts_induction with
  | whole n ih =>
    cases n with
    | objectPattern elements span | arrayPattern elements span =>
      have helements : ∀ m ∈ elements, (m.rename ρ σ).boundNames = m.boundNames.map ρ := ih
      simpa [rename, boundNames, boundNamesOfAll_eq] using flatMap_rename ρ σ helements
    | patternProperty key target span | withDefault target value span | rest target span =>
      simpa [rename, boundNames] using ih target (by simp [parts])
    | _ => simp [rename, boundNames]

theorem declaredNames_rename (declarators : List Node) :
    declaredNames (declarators.map (rename ρ σ)) = (declaredNames declarators).map ρ := by
  refine flatMap_rename ρ σ fun n _ => ?_
  cases n with
  | declarator target value span => exact boundNames_rename ρ σ target
  | _ => rfl

theorem ownNames_rename (n : Node) : (n.rename ρ σ).ownNames = n.ownNames.map ρ := by
  cases n with
  | declarations kind declarators span =>
    cases kind <;> simp [rename, ownNames, declaredNames_rename]
  | _ => rfl

theorem searchedParts_rename (n : Node) :
    (n.rename ρ σ).searchedParts = n.searchedParts.map (rename ρ σ) := by
  cases n <;> simp [rename, searchedParts, parts, Option.toList_map]

theorem hoistedNames_rename (n : Node) : (n.rename ρ σ).hoistedNames = n.hoistedNames.map ρ := by
  induction n using parts_induction with
  | whole n ih =>
    have hparts := flatMap_rename ρ σ fun m hm => ih m (n.searchedParts_subset hm)
    rw [hoistedNames_eq, hoistedNames_eq, searchedParts_rename, hparts, ownNames_rename,
      List.map_append]

theorem hoistedNamesOfAll_rename (ns : List Node) :
    hoistedNamesOfAll (ns.map (rename ρ σ)) = (hoistedNamesOfAll ns).map ρ := by
  rw [hoistedNamesOfAll_eq, hoistedNamesOfAll_eq]
  exact flatMap_rename ρ σ fun n _ => hoistedNames_rename ρ σ n

theorem blockNames_rename (n : Node) : (n.rename ρ σ).blockNames = n.blockNames.map ρ := by
  cases n with
  | declarations kind declarators span =>
    cases kind <;> simp [rename, blockNames, declaredNames_rename]
  | _ => rfl

theorem lexicalNames_rename (ns : List Node) :
    lexicalNames (ns.map (rename ρ σ)) = (lexicalNames ns).map ρ :=
  flatMap_rename ρ σ fun n _ => blockNames_rename ρ σ n

theorem itemNames_rename (n : Node) : (n.rename ρ σ).itemNames = n.itemNames.map ρ := by
  have hblock := blockNames_rename ρ σ n
  cases n with
  | imports => rfl
  | exported declaration span => exact blockNames_rename ρ σ declaration
  | _ => exact hblock

theorem moduleNames_rename (items : List Node) :
    moduleNames (items.map (rename ρ σ)) = (moduleNames items).map ρ := by
  rw [moduleNames, moduleNames, List.map_append, hoistedNamesOfAll_rename,
    flatMap_rename ρ σ fun n _ => itemNames_rename ρ σ n]

end Node

def Program.rename (p : Program) : Program := ⟨p.isModule, p.items.map (Node.rename ρ σ)⟩

theorem Program.topNames_rename (p : Program) : (p.rename ρ σ).topNames = p.topNames.map ρ := by
  unfold Program.topNames Program.rename
  dsimp only
  split_ifs
  · exact Node.moduleNames_rename ρ σ p.items
  · rw [Node.hoistedNamesOfAll_rename, Node.lexicalNames_rename, List.map_append]

end Script

namespace Definition
open Script (Node Span Program)
open Script.Node (parts_induction)
variable (ρ : String → String) (σ : Nat → Nat)

def Site.rename (s : Site) : Site where
  kind := s.kind
  name := ρ s.name
  value := s.value.map (Node.rename ρ σ)
  span := s.span.move σ
  docs := s.docs.map σ
  neighbours := s.neighbours.map (Node.rename ρ σ)

@[simp] theorem Site.value_rename (s : Site) :
    (s.rename ρ σ).value = s.value.map (Node.rename ρ σ) := rfl

@[simp] theorem Site.kind_rename (s : Site) : (s.rename ρ σ).kind = s.kind := rfl

def Step.rename : Step → Step
  | .enter names => .enter (names.map ρ)
  | .exit => .exit
  | .site s => .site (s.rename ρ σ)
  | .call callee arguments span =>
    .call (callee.rename ρ σ) (arguments.map (Node.rename ρ σ)) (span.move σ)

theorem declaratorSites_rename (docs : List Nat) (neighbours declarators : List Node) :
    declaratorSites (docs.map σ) (neighbours.map (Node.rename ρ σ))
        (declarators.map (Node.rename ρ σ)) =
      (declaratorSites docs neighbours declarators).map (Step.rename ρ σ) := by
  induction declarators using declaratorSites.induct with
  | case1 => rfl
  | case2 text nameSpan value span rest ih =>
    simp [declaratorSites, Node.rename, Step.rename, Site.rename, ih]
  | case3 declarator rest hother ih =>
    rw [List.map_cons, declaratorSites.eq_3 docs neighbours declarator rest hother,
      declaratorSites.eq_3, ih]
    -- No other node is renamed to such a declarator.
    intro text nameSpan value span h
    cases declarator with
    | declarator target value span =>
      cases target with
      | name => exact hother _ _ _ _ rfl
      | _ => simp [Node.rename] at h
    | _ => simp [Node.rename] at h

theorem assignmentSites_rename (statement : Option Nat) (operator : String) (target value : Node)
    (span : Span) :
    assignmentSites (statement.map σ) operator (target.rename ρ σ) (value.rename ρ σ)
        (span.move σ) =
      (assignmentSites statement operator target value span).map (Step.rename ρ σ) := by
  cases target with
  | member base text memberSpan =>
    simp only [Node.rename, assignmentSites]
    split_ifs
    · cases statement <;> rfl
    · rfl
  | _ => rfl

theorem propertySites_rename (key value : Node) :
    propertySites (key.rename ρ σ) (value.rename ρ σ) =
      (propertySites key value).map (Step.rename ρ σ) := by
  cases key <;> rfl

theorem boundParameters_rename (parameters : List Node) :
    boundParameters (parameters.map (Node.rename ρ σ)) = (boundParameters parameters).map ρ :=
  Node.flatMap_rename ρ σ fun n _ => Node.boundNames_rename ρ σ n

def WalkRenames (n : Node) : Prop :=
  ∀ statement : Option Nat,
    walk (statement.map σ) (n.rename ρ σ) = (walk statement n).map (Step.rename ρ σ)

variable {ρ σ} {ns : List Node}

theorem WalkRenames.walk {n : Node} (h : WalkRenames ρ σ n) (statement : Option Nat) :
    walk (statement.map σ) (n.rename ρ σ) = (walk statement n).map (Step.rename ρ σ) := h statement

theorem walkAll_rename (h : ∀ n ∈ ns, WalkRenames ρ σ n) (statement : Option Nat) :
    walkAll (statement.map σ) (ns.map (Node.rename ρ σ)) =
      (walkAll statement ns).map (Step.rename ρ σ) := by
  induction ns with
  | nil => rfl
  | cons n ns ih =>
    obtain ⟨hn, hns⟩ := List.forall_mem_cons.1 h
    rw [List.map_cons, walkAll, walkAll, List.map_append, hn, ih hns]

theorem walkOption_rename {value : Option Node} (h : ∀ n ∈ value.toList, WalkRenames ρ σ n)
    (statement : Option Nat) :
    walkOption (statement.map σ) (value.map (Node.rename ρ σ)) =
      (walkOption statement value).map (Step.rename ρ σ) := by
  cases value with
  | none => rfl
  | some n => exact h n (by simp) statement

theorem walkAll_rename_of_declarations {kind : Script.VarKind} {declarators : List Node}
    {span : Span} (h : WalkRenames ρ σ (.declarations kind declarators span))
    (statement : Option Nat) :
    walkAll (statement.map σ) (declarators.map (Node.rename ρ σ)) =
      (walkAll statement declarators).map (Step.rename ρ σ) := by
  have hwalk := h statement
  have hsites : declaratorSites [(span.move σ).start] [] (declarators.map (Node.rename ρ σ)) =
      (declaratorSites [span.start] [] declarators).map (Step.rename ρ σ) :=
    declaratorSites_rename ρ σ [span.start] [] declarators
  rw [Node.rename, Definition.walk, Definition.walk, Node.renameAll_eq, List.map_append,
    hsites] at hwalk
  exact List.append_cancel_right hwalk

theorem walkStatements_rename (h : ∀ n ∈ ns, WalkRenames ρ σ n) (statement : Option Nat)
    (before : Option Node) :
    walkStatements (statement.map σ) (before.map (Node.rename ρ σ)) (ns.map (Node.rename ρ σ)) =
      (walkStatements statement before ns).map (Step.rename ρ σ) := by
  induction ns generalizing before with
  | nil => rfl
  | cons n ns ih =>
    obtain ⟨hn, hns⟩ := List.forall_mem_cons.1 h
    have hrest := ih hns (some n)
    cases n with
    | declarations kind declarators span =>
      have hneighbours : (before.map (Node.rename ρ σ)).toList ++
          (ns.map (Node.rename ρ σ)).head?.toList =
            (before.toList ++ ns.head?.toList).map (Node.rename ρ σ) := by
        cases before <;> cases ns <;> rfl
      have hsites : declaratorSites [(span.move σ).start]
          ((before.toList ++ ns.head?.toList).map (Node.rename ρ σ))
            (declarators.map (Node.rename ρ σ)) =
          (declaratorSites [span.start] (before.toList ++ ns.head?.toList) declarators).map
            (Step.rename ρ σ) :=
        declaratorSites_rename ρ σ [span.start] _ declarators
      rw [List.map_cons, Node.rename, walkStatements, walkStatements, Node.renameAll_eq,
        walkAll_rename_of_declarations hn, hneighbours, hsites, List.map_append, List.map_append,
        ← hrest, Option.map_some, Node.rename, Node.renameAll_eq]
    | expressionStatement value span =>
      have hwalk := hn (some span.start)
      rw [Node.rename, Definition.walk, Definition.walk] at hwalk
      rw [List.map_cons, Node.rename, walkStatements, walkStatements, List.map_append, ← hrest,
        ← hwalk]
      rfl
    | _ =>
      have hwalk := hn statement
      rw [walkStatements.eq_4, List.map_append, ← hwalk, ← hrest]
      · rfl
      all_goals simp

theorem walkRenames (n : Node) : WalkRenames ρ σ n := by
  induction n using parts_induction with
  | whole n ih =>
    intro statement
    cases n with
    | call callee arguments span =>
      obtain ⟨hcallee, harguments⟩ := List.forall_mem_cons.1 ih
      simp [Node.rename, Definition.walk, hcallee.walk, walkAll_rename harguments, Step.rename]
    | assign operator target value span =>
      have htarget := ih target (by simp [Node.parts])
      have hvalue := ih value (by simp [Node.parts])
      simp [Node.rename, Definition.walk, htarget.walk, hvalue.walk, assignmentSites_rename]
    | property key value span =>
      have hkey := ih key (by simp [Node.parts])
      have hvalue := ih value (by simp [Node.parts])
      simp [Node.rename, Definition.walk, hkey.walk, hvalue.walk, propertySites_rename]
    | function isArrow parameters body bodySpan span =>
      obtain ⟨hparameters, hbody⟩ := List.forall_mem_append.1 ih
      have hstatements := walkStatements_rename hbody statement none
      simp [Node.rename, Definition.walk, Step.rename, boundParameters_rename,
        Node.hoistedNamesOfAll_rename, Node.lexicalNames_rename, walkAll_rename hparameters,
        ← hstatements]
    | lambda parameters result span =>
      obtain ⟨hparameters, hresult⟩ := List.forall_mem_append.1 ih
      have hresult := hresult result (by simp)
      simp [Node.rename, Definition.walk, Step.rename, boundParameters_rename,
        walkAll_rename hparameters, hresult.walk]
    | declarations kind declarators span =>
      have hdeclarators : ∀ n ∈ declarators, WalkRenames ρ σ n := ih
      have hsites := declaratorSites_rename ρ σ [span.start] [] declarators
      simpa [Node.rename, Definition.walk, walkAll_rename hdeclarators] using hsites
    | declarator target value span =>
      obtain ⟨htarget, hvalue⟩ := List.forall_mem_cons.1 ih
      simp [Node.rename, Definition.walk, htarget.walk, walkOption_rename hvalue]
    | returnStatement value span =>
      have hvalue : ∀ n ∈ value.toList, WalkRenames ρ σ n := ih
      simp [Node.rename, Definition.walk, walkOption_rename hvalue]
    | block statements span =>
      have hparts : ∀ n ∈ statements, WalkRenames ρ σ n := ih
      have hstatements := walkStatements_rename hparts statement none
      simp [Node.rename, Definition.walk, Step.rename, Node.lexicalNames_rename, ← hstatements]
    | sequence statements span =>
      have hparts : ∀ n ∈ statements, WalkRenames ρ σ n := ih
      have hstatements := walkStatements_rename hparts statement none
      simp [Node.rename, Definition.walk, ← hstatements]
    | exported declaration span =>
      -- An exported declaration is walked together with its `export`.
      have hdeclaration := ih declaration (by simp [Node.parts])
      cases declaration with
      | declarations kind declarators inner =>
        have hsites := declaratorSites_rename ρ σ [span.start, inner.start] [] declarators
        simpa [Node.rename, Definition.walk, walkAll_rename_of_declarations hdeclaration]
          using hsites
      | _ => exact hdeclaration statement
    | template text values span =>
      have hvalues : ∀ n ∈ values, WalkRenames ρ σ n := ih
      simp [Node.rename, Definition.walk, walkAll_rename hvalues]
    | object parts span | other form parts span | objectPattern parts span
    | arrayPattern parts span | imports locals parts span =>
      have hparts : ∀ n ∈ parts, WalkRenames ρ σ n := ih
      simp [Node.rename, Definition.walk, walkAll_rename hparts]
    | _ =>
      simp [Node.parts] at ih
      simp [Node.rename, Definition.walk, WalkRenames.walk, ih]

theorem stepsOf_rename (p : Program) :
    stepsOf (p.rename ρ σ) = (stepsOf p).map (Step.rename ρ σ) := by
  have hwalk : ∀ n ∈ p.items, WalkRenames ρ σ n := fun n _ => walkRenames n
  have hitems := walkStatements_rename hwalk none none
  unfold stepsOf Program.rename
  dsimp only
  split_ifs
  · simp [Step.rename, Node.moduleNames_rename, ← hitems]
  · exact hitems

end Definition

end MessageCatalog
