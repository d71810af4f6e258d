import MessageCatalog.Proofs.ParserSpecs
import MessageCatalog.Proofs.Tidy

/-! The rules for patterns, functions and expressions answer tidy trees that declare nothing for
the function around them, if the rules that they refer back to do. -/

set_option mvcgen.warning false

namespace MessageCatalog.Script
open Node (IsExpression IsTidy)

attribute [grind =] Node.isExpression_iff Node.role Node.parts
attribute [grind ←] Node.isExpression_function Node.IsExpression.toPattern

structure Grammar.Sound (g : Grammar) : Prop where
  expression : Parser.Gives g.expression IsExpression
  assignment : Parser.Gives g.assignment IsExpression
  unary : Parser.Gives g.unary IsExpression
  binding : Parser.Gives g.binding IsExpression
  element : Parser.Gives g.element IsExpression
  statement : Parser.Gives g.statement IsTidy
  item : Parser.Gives g.item IsTidy

attribute [spec] Grammar.Sound.expression Grammar.Sound.assignment Grammar.Sound.unary
  Grammar.Sound.binding Grammar.Sound.element Grammar.Sound.statement Grammar.Sound.item

namespace Parser
open Std.Do

@[spec] theorem prelude_spec (p : Parser Prelude) : Gives p fun _ => True := gives_true p

@[spec] theorem piece_spec (p : Parser Piece) : Gives p fun _ => True := gives_true p

theorem isExpression_toParameter {i : Item} (h : i.node.IsExpression) :
    i.toParameter.IsExpression := by
  cases i with
  | plain | spread => exact h.toPattern
  | parameter => exact h

theorem isExpression_commaExpression {nodes : List Node} (h : ∀ n ∈ nodes, n.IsExpression) :
    (commaExpression nodes).IsExpression := by
  unfold commaExpression
  split
  · exact h _ (List.mem_singleton_self _)
  · exact (Node.isExpression_iff (.inl rfl)).2 h

section
variable {g : Grammar} (hg : g.Sound)
include hg

@[spec] theorem valueWithin_spec : Gives (valueWithin g) IsExpression := by
  mvcgen [valueWithin]

@[spec] theorem propertyKey_spec : Gives (propertyKey g) IsExpression := by
  mvcgen [propertyKey, privatePart]
  all_goals grind -ring -linarith

@[spec] theorem withDefault?_spec (s : Nat) {target : Node} (h : target.IsExpression) :
    Gives (withDefault? g s target) IsExpression := by
  mvcgen [withDefault?]
  all_goals grind -ring -linarith

@[spec] theorem bindingElement_spec : Gives (bindingElement g) IsExpression := by
  mvcgen [bindingElement]
  all_goals grind -ring -linarith

@[spec] theorem bindingProperty_spec : Gives (bindingProperty g) IsExpression := by
  mvcgen [bindingProperty]
  all_goals grind -ring -linarith

theorem bindingRule_spec : Gives (bindingRule g) IsExpression := by
  have hproperties := commaList_gives IsExpression
  have helements := commaList_gives fun r : Option Node => ∀ n, r = some n → n.IsExpression
  mvcgen [bindingRule, hproperties, helements]
  all_goals grind -ring -linarith

@[spec] theorem parameter_spec : Gives (parameter g) IsExpression := by
  mvcgen [parameter]
  exact fun _ _ => hg

@[spec] theorem parameters_spec : Gives (parameters g) fun ns => ∀ n ∈ ns, n.IsExpression := by
  have hlist := commaList_gives IsExpression
  mvcgen [parameters, hlist]
  exact fun _ _ => hg

@[spec] theorem braced_spec : Gives (braced g) fun ns => ∀ n ∈ ns, n.IsTidy := by
  have hstatements := many_gives IsTidy
  mvcgen [braced, hstatements]
  all_goals grind -ring -linarith

@[spec] theorem functionBody_spec : Gives (functionBody g) fun r => ∀ n ∈ r.1, n.IsTidy := by
  mvcgen [functionBody]

@[spec] theorem functionRest_spec (s : Nat) (isAsync isGenerator superAllowed bodyNeeded : Bool) :
    Gives (functionRest g s isAsync isGenerator superAllowed bodyNeeded) IsExpression := by
  refine gives_under _ (gives_skip fun _ => ?_)
  refine gives_bind (parameters_spec hg) fun ps hparameters => ?_
  refine gives_skip fun _ => gives_skip fun _ => gives_skip fun _ => gives_ite ?_ ?_
  · -- The declaration ends without a body.
    refine gives_skip fun _ => gives_skip fun here => gives_pure ?_
    exact Node.isExpression_function hparameters nofun
  · refine gives_bind (functionBody_spec hg) fun body hbody => gives_skip fun span => gives_pure ?_
    exact Node.isExpression_function hparameters hbody

@[spec] theorem functionRule_spec (s : Nat) (isAsync bodyNeeded : Bool) :
    Gives (functionRule g s isAsync bodyNeeded) fun r => r.2.IsExpression := by
  mvcgen [functionRule]

@[spec] theorem staticBlock_spec (s : Nat) : Gives (staticBlock g s) IsExpression := by
  mvcgen [staticBlock]
  all_goals grind -ring -linarith

@[spec] theorem fieldValue_spec : Gives (fieldValue g) fun ns => ∀ n ∈ ns, n.IsExpression := by
  mvcgen [fieldValue]
  all_goals grind -ring -linarith

@[spec] theorem memberAfter_spec (s : Nat) (prelude : Prelude) {key : Node}
    (hkey : key.IsExpression) : Gives (memberAfter g s prelude key) IsExpression := by
  refine gives_skip fun _ => gives_skip fun _ => gives_ite ?_ ?_
  · refine gives_bind (functionRest_spec hg _ _ _ _ _) fun function hfunction => ?_
    refine gives_skip fun span => gives_pure ((Node.isExpression_iff (.inl rfl)).2 ?_)
    exact List.forall_mem_cons.2 ⟨hkey, List.forall_mem_singleton.2 hfunction⟩
  · refine gives_skip fun _ => gives_bind (fieldValue_spec hg) fun value hvalue => ?_
    refine gives_skip fun _ => gives_skip fun span =>
      gives_pure ((Node.isExpression_iff (.inl rfl)).2 ?_)
    exact List.forall_mem_cons.2 ⟨hkey, hvalue⟩

@[spec] theorem classMember_spec : Gives (classMember g) fun ns => ∀ n ∈ ns, n.IsExpression := by
  refine gives_under _ (gives_skip fun s => gives_skip fun _ => gives_ite ?_ ?_)
  · exact gives_pure nofun
  refine gives_skip fun _ => gives_ite ?_ ?_
  · exact gives_bind (staticBlock_spec hg s) fun block hblock =>
      gives_pure (List.forall_mem_singleton.2 hblock)
  refine gives_skip fun _ => gives_skip fun _ => gives_ite ?_ ?_
  · exact gives_pure nofun
  refine gives_skip fun prelude => gives_bind (propertyKey_spec hg) fun key hkey => ?_
  refine gives_skip fun _ => ?_
  refine gives_bind (memberAfter_spec hg s prelude hkey) fun member hmember => ?_
  exact gives_pure (List.forall_mem_singleton.2 hmember)

omit hg in
@[spec] theorem extended_spec {superclass : Parser Node} (h : Gives superclass IsExpression) :
    Gives (extended g superclass) fun ns => ∀ n ∈ ns, n.IsExpression := by
  mvcgen [extended, h]
  all_goals grind -ring -linarith

@[spec] theorem classBody_spec : Gives (classBody g) fun ns => ∀ n ∈ ns, n.IsExpression := by
  have hmembers := many_gives fun ns : List Node => ∀ n ∈ ns, n.IsExpression
  mvcgen [classBody, hmembers]
  all_goals grind -ring -linarith [List.mem_flatten]

@[spec] theorem classRest_spec (s : Nat) {superclass : Parser Node}
    (h : Gives superclass IsExpression) : Gives (classRest g s superclass) IsExpression := by
  refine gives_skip fun _ => gives_bind (extended_spec h) fun parent hparent => ?_
  refine gives_skip fun _ => gives_bind (classBody_spec hg) fun members hmembers => ?_
  refine gives_skip fun span => gives_pure ((Node.isExpression_iff (.inl rfl)).2 ?_)
  exact List.forall_mem_append.2 ⟨hmembers, hparent⟩

@[spec] theorem classRule_spec (s : Nat) {superclass : Parser Node}
    (h : Gives superclass IsExpression) :
    Gives (classRule g s superclass) fun r => r.2.IsExpression := by
  mvcgen [classRule]

@[spec] theorem expressionWithin_spec : Gives (expressionWithin g) IsExpression := by
  mvcgen [expressionWithin]

@[spec] theorem arrowRest_spec (s : Nat) (isAsync : Bool) {ps : List Node}
    (h : ∀ n ∈ ps, n.IsExpression) : Gives (arrowRest g s isAsync ps) IsExpression := by
  mvcgen [arrowRest]
  all_goals grind -ring -linarith

@[spec] theorem simpleArrow?_spec (s : Nat) (isAsync : Bool) :
    Gives (simpleArrow? g s isAsync) fun r => ∀ n, r = some n → n.IsExpression := by
  mvcgen [simpleArrow?]
  all_goals grind -ring -linarith

@[spec] theorem genericArrow_spec (s : Nat) (isAsync : Bool) :
    Gives (genericArrow g s isAsync) IsExpression := by
  mvcgen [genericArrow]
  all_goals grind -ring -linarith

@[spec] theorem spreadItem_spec (s : Nat) :
    Gives (spreadItem g s) fun i => i.node.IsExpression := by
  mvcgen [spreadItem]
  all_goals grind -ring -linarith [Item.node]

@[spec] theorem item_spec : Gives (item g) fun i => i.node.IsExpression := by
  mvcgen [item]
  all_goals grind -ring -linarith [Item.node]

@[spec] theorem arrowAfter?_spec (s : Nat) (isAsync : Bool) {items : List Item}
    (h : ∀ i ∈ items, i.node.IsExpression) :
    Gives (arrowAfter? g s isAsync items) fun r => ∀ n, r = some n → n.IsExpression := by
  have hparameters : ∀ n ∈ items.map Item.toParameter, n.IsExpression :=
    List.forall_mem_map.2 fun i hi => isExpression_toParameter (h i hi)
  mvcgen [arrowAfter?]
  all_goals grind -ring -linarith

@[spec] theorem parenthesizedItems_spec :
    Gives (parenthesizedItems g) fun r => ∀ i ∈ r.1, i.node.IsExpression := by
  have hitems := iterate_gives fun r : List Item × Bool => ∀ i ∈ r.1, i.node.IsExpression
  mvcgen -trivial [parenthesizedItems, hitems]
  all_goals grind -ring -linarith

@[spec] theorem parenthesized_spec : Gives (parenthesized g) IsExpression := by
  refine gives_skip fun s => gives_skip fun _ => ?_
  refine gives_bind (parenthesizedItems_spec hg) fun r hitems => gives_skip fun _ => ?_
  refine gives_bind (arrowAfter?_spec hg s false hitems) fun arrow harrow => ?_
  cases arrow with
  | some node => exact gives_pure (harrow node rfl)
  | none =>
    refine gives_skip fun span => gives_ite (gives_pure ?_) (gives_failAt _)
    refine (Node.isExpression_iff (.inl rfl)).2 (List.forall_mem_singleton.2 ?_)
    exact isExpression_commaExpression (List.forall_mem_map.2 hitems)

@[spec] theorem argumentItems_spec :
    Gives (argumentItems g) fun is => ∀ i ∈ is, i.node.IsExpression := by
  have hitems := commaList_gives fun i : Item => i.node.IsExpression
  mvcgen [argumentItems, hitems]
  all_goals exact fun _ _ => hg

omit hg in
@[spec] theorem argumentNodes_spec {items : List Item} (h : ∀ i ∈ items, i.node.IsExpression) :
    Gives (argumentNodes items) fun ns => ∀ n ∈ ns, n.IsExpression := by
  unfold argumentNodes
  induction items with
  | nil =>
    rw [List.mapM_nil]
    mvcgen
    simp
  | cons i items ih =>
    obtain ⟨hi, hitems⟩ := List.forall_mem_cons.1 h
    have hrest := ih hitems
    rw [List.mapM_cons]
    mvcgen [hrest]
    all_goals grind -ring -linarith [Item.node]

@[spec] theorem callArguments_spec :
    Gives (callArguments g) fun ns => ∀ n ∈ ns, n.IsExpression := by
  mvcgen [callArguments]
  all_goals grind -ring -linarith

omit hg in
@[spec] theorem memberOf_spec {object : Node} (h : object.IsExpression) :
    Gives (memberOf object) IsExpression := by
  mvcgen [memberOf]
  all_goals grind -ring -linarith

omit hg in
@[spec] theorem templatePieces_spec (tagged : Bool) {p : Parser Node} (h : Gives p IsExpression) :
    Gives (templatePieces tagged p) fun r => ∀ n ∈ r.1, n.IsExpression := by
  have hpieces := iterate_gives fun r : List Node × Bool => ∀ n ∈ r.1, n.IsExpression
  mvcgen [templatePieces, h, hpieces]
  all_goals grind -ring -linarith

@[spec] theorem template_spec (tagged : Bool) : Gives (template g tagged) IsExpression := by
  mvcgen [template]
  all_goals grind -ring -linarith

omit hg in
@[spec] theorem optionalLink_spec (s : Nat) {parts : List Node}
    (h : ∀ n ∈ parts, n.IsExpression) :
    Gives (optionalLink s parts) fun c => c.node.IsExpression := by
  mvcgen [optionalLink]
  all_goals grind -ring -linarith

@[spec] theorem optionalAccess_spec {base : Node} (h : base.IsExpression) :
    Gives (optionalAccess g base) fun c => c.node.IsExpression := by
  mvcgen [optionalAccess]
  all_goals grind -ring -linarith

@[spec] theorem typedLink_spec (isNew : Bool) {chain : Chain} (h : chain.node.IsExpression) :
    Gives (typedLink g isNew chain) fun c => c.node.IsExpression := by
  mvcgen -trivial [typedLink]
  all_goals grind -ring -linarith

@[spec] theorem chainLink_spec (isNew : Bool) {chain : Chain} (h : chain.node.IsExpression) :
    Gives (chainLink g isNew chain) fun r => ∀ c, r = some c → c.node.IsExpression := by
  mvcgen -trivial [chainLink]
  all_goals grind -ring -linarith

@[spec] theorem chainFrom_spec (isNew : Bool) {node : Node} (h : node.IsExpression) :
    Gives (chainFrom g isNew node) IsExpression := by
  have hchain := iterate_gives fun c : Chain => c.node.IsExpression
  mvcgen [chainFrom, hchain]
  all_goals grind -ring -linarith

@[spec] theorem superRule_spec (s : Nat) : Gives (superRule g s) IsExpression := by
  mvcgen -trivial [superRule]
  all_goals grind -ring -linarith

@[spec] theorem importRule_spec (s : Nat) : Gives (importRule g s) IsExpression := by
  mvcgen [importRule]
  all_goals grind -ring -linarith

@[spec] theorem objectProperty_spec : Gives (objectProperty g) IsExpression := by
  mvcgen [objectProperty]
  all_goals grind -ring -linarith

@[spec] theorem objectLiteral_spec : Gives (objectLiteral g) IsExpression := by
  have hproperties := commaList_gives IsExpression
  mvcgen [objectLiteral, hproperties]
  all_goals grind -ring -linarith

@[spec] theorem arrayLiteral_spec : Gives (arrayLiteral g) IsExpression := by
  have helements := commaList_gives fun r : Option Node => ∀ n, r = some n → n.IsExpression
  mvcgen [arrayLiteral, helements]
  all_goals grind -ring -linarith

omit hg in
@[spec] theorem regularExpression_spec : Gives regularExpression IsExpression := by
  mvcgen [regularExpression]
  · exact fun _ _ => False.elim
  · show Node.IsExpression (.other .literal [] _)
    exact (Node.isExpression_iff (.inl rfl)).2 fun _ => nofun

@[spec] theorem newRule_spec {superclass : Parser Node} (h : Gives superclass IsExpression)
    (bound : Nat) : Gives (newRule g superclass bound) IsExpression := by
  induction bound with
  | zero =>
    mvcgen -trivial [newRule]
    all_goals grind -ring -linarith
  | succ bound ih =>
    mvcgen -trivial [newRule, h, ih]
    all_goals grind -ring -linarith

@[spec] theorem operand_spec {superclass : Parser Node} (h : Gives superclass IsExpression) :
    Gives (operand g superclass) IsExpression := by
  mvcgen -trivial [operand, h]
  all_goals grind -ring -linarith [privatePart]

@[spec] theorem chainRule_spec (bound : Nat) : Gives (chainRule g bound) IsExpression := by
  induction bound with
  | zero =>
    mvcgen [chainRule]
    all_goals grind -ring -linarith
  | succ bound ih =>
    mvcgen [chainRule, ih]
    all_goals grind -ring -linarith

@[spec] theorem chain_spec : Gives (chain g) IsExpression := by
  mvcgen [chain]
  exact fun _ _ => hg

@[spec] theorem prefixOperand_spec : Gives (prefixOperand g) IsExpression := by
  mvcgen [prefixOperand]

theorem unaryRule_spec : Gives (unaryRule g) IsExpression := by
  mvcgen -trivial [unaryRule]
  all_goals grind -ring -linarith

@[spec] theorem powerFrom_spec (bound : Nat) {left : Node} (h : left.IsExpression) :
    Gives (powerFrom g bound left) IsExpression := by
  induction bound generalizing left with
  | zero =>
    mvcgen [powerFrom]
    all_goals grind -ring -linarith
  | succ bound ih =>
    mvcgen [powerFrom, ih]
    all_goals grind -ring -linarith

omit hg in
@[spec] theorem typeOperator?_spec (group : List String) {left : Node} (h : left.IsExpression) :
    Gives (typeOperator? g group left) fun r => ∀ n, r = some n → n.IsExpression := by
  mvcgen -trivial [typeOperator?]
  all_goals grind -ring -linarith

@[spec] theorem binaryFrom_spec (groups : List (List String)) {left : Node}
    (h : left.IsExpression) : Gives (binaryFrom g groups left) IsExpression := by
  have hoperands := iterate_gives IsExpression
  induction groups generalizing left with
  | nil =>
    mvcgen -trivial [binaryFrom]
    all_goals grind -ring -linarith
  | cons group tighter ih =>
    mvcgen -trivial [binaryFrom, ih, hoperands]
    all_goals grind -ring -linarith

@[spec] theorem binary_spec : Gives (binary g) IsExpression := by
  mvcgen [binary]
  all_goals grind -ring -linarith

@[spec] theorem conditional_spec : Gives (conditional g) IsExpression := by
  mvcgen [conditional]
  all_goals grind -ring -linarith

@[spec] theorem yieldRule_spec : Gives (yieldRule g) IsExpression := by
  mvcgen [yieldRule]
  all_goals grind -ring -linarith

@[spec] theorem asyncArrow?_spec :
    Gives (asyncArrow? g) fun r => ∀ n, r = some n → n.IsExpression := by
  mvcgen -trivial [asyncArrow?]
  all_goals grind -ring -linarith

@[spec] theorem assignmentRest_spec : Gives (assignmentRest g) IsExpression := by
  mvcgen [assignmentRest]
  all_goals grind -ring -linarith

@[spec] theorem genericArrow?_spec :
    Gives (genericArrow? g) fun r => ∀ n, r = some n → n.IsExpression := by
  mvcgen -trivial [genericArrow?]
  all_goals grind -ring -linarith

theorem assignmentRule_spec : Gives (assignmentRule g) IsExpression := by
  mvcgen -trivial [assignmentRule]
  all_goals grind -ring -linarith

theorem expressionRule_spec : Gives (expressionRule g) IsExpression := by
  have hothers := many_gives IsExpression
  mvcgen [expressionRule, hothers]
  all_goals grind -ring -linarith [isExpression_commaExpression]

@[spec] theorem embedded_spec : Gives (embedded g) fun ns => ∀ n ∈ ns, n.IsExpression := by
  mvcgen [embedded]
  all_goals grind -ring -linarith

@[spec] theorem attributeValue_spec :
    Gives (attributeValue g) fun ns => ∀ n ∈ ns, n.IsExpression := by
  mvcgen [attributeValue]
  all_goals grind -ring -linarith

@[spec] theorem attributeRule_spec :
    Gives (attributeRule g) fun ns => ∀ n ∈ ns, n.IsExpression := by
  mvcgen [attributeRule]
  all_goals grind -ring -linarith

@[spec] theorem elementChildren_spec :
    Gives (elementChildren g) fun ns => ∀ n ∈ ns, n.IsExpression := by
  have hgroups := many_gives fun ns : List Node => ∀ n ∈ ns, n.IsExpression
  mvcgen [elementChildren, hgroups]
  all_goals grind -ring -linarith [List.mem_flatten]

theorem elementRule_spec : Gives (elementRule g) IsExpression := by
  have hattributes := many_gives fun ns : List Node => ∀ n ∈ ns, n.IsExpression
  mvcgen -trivial [elementRule, hattributes]
  all_goals grind -ring -linarith [List.mem_flatten]

end

end Parser

end MessageCatalog.Script
