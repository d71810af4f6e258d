import MessageCatalog.Proofs.FunctionSpecs

/-! The rules for operands lay out what they read: arrow functions, calls and members, literals. -/

set_option mvcgen.warning false

namespace MessageCatalog.Script
open Node (Stand FunctionAt)

namespace Parser
open Std.Do

section
variable (c : Cursor)

@[spec 2000] theorem marksParameter_peeks : Peeking c marksParameter fun _ => True := by
  unfold marksParameter
  mvcgen [-bool_spec]
  all_goals grind -ring -linarith

variable {g : Grammar} (hg : g.Lays)
include hg

@[spec 2000] theorem expressionWithin_lays : Lays c (expressionWithin g) := by
  unfold expressionWithin
  mvcgen [-unit_spec]

@[spec 2000] theorem arrowRest_lays (s : Nat) (isAsync : Bool) (ps : List Node) :
    Reading c (arrowRest g s isAsync ps) fun n c' =>
      s ≤ c.start → Stand s c.previousStop ps → Stand s c'.previousStop [n] := by
  apply reading
  unfold arrowRest
  mvcgen [-unit_spec]
  all_goals grind -ring -linarith [Node.parts]

@[spec 2000] theorem simpleArrow?_lays (s : Nat) (isAsync : Bool) :
    Reading c (simpleArrow? g s isAsync) fun r c' =>
      s ≤ c.start → ∀ n ∈ r, Stand s c'.previousStop [n] := by
  apply reading
  unfold simpleArrow?
  mvcgen [-unit_spec]
  all_goals grind -ring -linarith [Node.parts]

@[spec 2000] theorem genericArrow_lays (s : Nat) (isAsync : Bool) :
    Reading c (genericArrow g s isAsync) fun n c' =>
      s ≤ c.start → Stand s c'.previousStop [n] := by
  apply reading
  unfold genericArrow
  mvcgen [-unit_spec]
  all_goals grind -ring -linarith

@[spec 2000] theorem spreadItem_lays (s : Nat) : Reading c (spreadItem g s) fun i c' =>
    s ≤ c.start → Stand s c'.previousStop [i.node] := by
  apply reading
  unfold spreadItem
  mvcgen [-unit_spec]
  all_goals grind -ring -linarith [Item.node, Node.parts]

omit hg in
@[spec 2000] theorem isThisParameter_peeks :
    Peeking c isThisParameter fun b => b → c.token = .word "this" false := by
  unfold isThisParameter
  mvcgen [-bool_spec, -ahead_peeks, ahead_spec]
  all_goals grind -ring -linarith

omit hg in
@[spec 2000] theorem isTypedParameter_reads : ReadingOn c isTypedParameter := by
  apply reading
  unfold isTypedParameter
  mvcgen [-bool_spec, -unit_spec]
  all_goals grind -ring -linarith

@[spec 2000] theorem item_lays :
    Reading c (item g) fun i c' => Stand c.start c'.previousStop [i.node] := by
  apply reading
  unfold item
  mvcgen [-unit_spec, -bool_spec]
  all_goals grind -ring -linarith [Item.node, Node.parts]

omit hg in
theorem stand_toParameter {items : List Item} {start stop : Nat}
    (h : Stand start stop (items.map Item.node)) :
    Stand start stop (items.map Item.toParameter) := by
  refine h.congr (List.forall₂_map_left_iff.2 (List.forall₂_map_right_iff.2 ?_))
  refine List.forall₂_same.2 fun i hi => ?_
  have hlaid := h.each _ (List.mem_map_of_mem hi)
  cases i with
  | plain node => exact ⟨hlaid.toPattern, node.span_toPattern⟩
  | spread node => exact ⟨hlaid.toPattern, node.span_toPattern⟩
  | parameter node => exact ⟨hlaid, rfl⟩

@[spec 2000] theorem arrowAfter?_lays (s : Nat) (isAsync : Bool) (items : List Item) :
    Reading c (arrowAfter? g s isAsync items) fun r c' =>
      s ≤ c.start → Stand s c.previousStop (items.map Item.node) →
        ∀ n ∈ r, Stand s c'.previousStop [n] := by
  apply reading
  unfold arrowAfter?
  mvcgen [-unit_spec]
  all_goals grind -ring -linarith [stand_toParameter]

omit hg in
theorem stand_commaExpression {nodes : List Node} {start stop : Nat}
    (h : Stand start stop nodes) (hnodes : nodes ≠ []) :
    Stand start stop [commaExpression nodes] := by
  unfold commaExpression
  split
  · exact h
  · obtain ⟨first, rest, rfl⟩ := List.exists_cons_of_ne_nil hnodes
    obtain ⟨hrow, hlt, hle⟩ := h.row.getLast
    rw [List.head?_cons, List.getLast?_eq_some_getLast hnodes, Node.stand_cons]
    refine ⟨Node.isLaidOut_of_stand ⟨hrow, h.each⟩, (h.row.mem List.mem_cons_self).1, hlt, hle,
      Node.stand_nil⟩

theorem parenthesizedItems_lays : Reading c (parenthesizedItems g) fun r c' =>
    Stand c.start c'.previousStop (r.1.map Item.node) := by
  have hitems := iterate_stands (fun r : List Item × Bool => r.1.map Item.node) c.start
  apply reading
  unfold parenthesizedItems
  mvcgen [-unit_spec, hitems]
  all_goals grind -ring -linarith

@[spec 2000] theorem parenthesized_lays : Lays c (parenthesized g) := by
  refine reading_peek (start_peeks c) fun s hs => ?_
  refine reading_bind (expectSymbol_reads c "(") fun _ c₁ h₁ hopen => ?_
  refine reading_bind (parenthesizedItems_lays c₁ hg) fun r c₂ h₂ hitems => ?_
  refine reading_bind (expectSymbol_reads c₂ ")") fun _ c₃ h₃ _ => ?_
  have hinside : Stand c.start c₃.previousStop (r.1.map Item.node) :=
    hitems.mono h₁.start_le h₃.previousStop_le
  have hstart : s ≤ c₃.start := hs ▸ (h₁.trans (h₂.trans h₃)).start_le
  refine reading_bind (arrowAfter?_lays c₃ hg s false r.1) fun arrow c₄ h₄ harrow => ?_
  cases arrow with
  | some node => exact reading_pure (hs ▸ harrow hstart (hs ▸ hinside) node rfl)
  | none =>
    refine reading_peek (spanFrom_peeks c₄ s) fun span hspan => ?_
    split
    · rename_i hplain
      have hsome : r.1.map Item.node ≠ [] := by
        simp only [Bool.and_eq_true, Bool.not_eq_true', List.isEmpty_eq_false_iff] at hplain
        exact List.map_eq_nil_iff.not.2 hplain.1.2
      have hinner : Stand c.start c₄.previousStop [commaExpression (r.1.map Item.node)] :=
        stand_commaExpression (hinside.mono (Nat.le_refl _) h₄.previousStop_le) hsome
      have hlt : c.start < c₄.previousStop := by grind -ring -linarith
      rw [hspan, hs]
      exact reading_pure (Node.stand_of_parts hinner rfl hlt)
    · exact failAt_reads c₄ _

@[spec 2000] theorem argumentItems_lays : Reading c (argumentItems g) fun is c' =>
    c.start < c'.previousStop ∧ Stand c.start c'.previousStop (is.map Item.node) := by
  have hitems := commaList_stands fun i : Item => [i.node]
  simp only [← List.map_eq_flatMap] at hitems
  apply reading
  unfold argumentItems
  mvcgen [-unit_spec, hitems]
  all_goals grind -ring -linarith

omit hg in
@[spec 2000] theorem argumentNodes_peeks (items : List Item) :
    Peeking c (argumentNodes items) fun ns => ns = items.map Item.node := by
  unfold argumentNodes
  induction items with
  | nil =>
    rw [List.mapM_nil]
    mvcgen
  | cons i items ih =>
    rw [List.mapM_cons]
    mvcgen [ih]
    all_goals grind -ring -linarith [Item.node]

@[spec 2000] theorem callArguments_lays : Reading c (callArguments g) fun ns c' =>
    c.start < c'.previousStop ∧ Stand c.start c'.previousStop ns := by
  apply reading
  unfold callArguments
  mvcgen
  all_goals grind -ring -linarith

omit hg in
@[spec 2000] theorem memberOf_lays (object : Node) :
    Reading c (memberOf object) fun n c' =>
      ∀ s, Stand s c.previousStop [object] → Stand s c'.previousStop [n] := by
  apply reading
  unfold memberOf
  mvcgen
  all_goals grind -ring -linarith [Node.parts]

@[spec 2000] theorem template_lays (tagged : Bool) :
    Reading c (template g tagged) fun n c' =>
      c.start < c.stop → Stand c.start c'.previousStop [n] := by
  have hpieces := fun c => templatePieces_stands c fun n : Node => [n]
  simp only [List.flatMap_singleton'] at hpieces
  apply reading
  unfold template
  mvcgen [-templatePieces_spec, hpieces]
  all_goals grind -ring -linarith [Node.parts]

omit hg in
@[spec 2000] theorem endsTypeArguments_peeks : Peeking c endsTypeArguments fun _ => True := by
  unfold endsTypeArguments
  mvcgen [-bool_spec]
  all_goals grind -ring -linarith

omit hg in
@[spec 2000] theorem optionalLink_lays (s : Nat) (parts : List Node) :
    Reading c (optionalLink s parts) fun chain c' => s < c'.previousStop →
      Stand s c'.previousStop parts → Stand s c'.previousStop [chain.node] := by
  unfold optionalLink
  mvcgen
  all_goals grind -ring -linarith [Node.parts]

@[spec 2000] theorem optionalAccess_lays (base : Node) :
    Reading c (optionalAccess g base) fun chain c' => ∀ s, s ≤ c.start →
      Stand s c.previousStop [base] → Stand s c'.previousStop [chain.node] := by
  apply reading
  unfold optionalAccess
  mvcgen [-unit_spec]
  all_goals grind -ring -linarith [Node.parts]

@[spec 2000] theorem typedLink_lays (isNew : Bool) (chain : Chain) :
    Reading c (typedLink g isNew chain) fun b c' => ∀ s, s ≤ c.start →
      Stand s c.previousStop [chain.node] → Stand s c'.previousStop [b.node] := by
  apply reading
  unfold typedLink
  mvcgen [-unit_spec]
  all_goals grind -ring -linarith [Node.parts]

@[spec 2000] theorem chainLink_lays (isNew : Bool) (chain : Chain) :
    Reading c (chainLink g isNew chain) fun r c' => ∀ s, s ≤ c.start →
      Stand s c.previousStop [chain.node] → ∀ b ∈ r, Stand s c'.previousStop [b.node] := by
  apply reading
  unfold chainLink
  mvcgen [-unit_spec]
  all_goals grind -ring -linarith [Node.parts]

@[spec 2000] theorem chainFrom_lays (isNew : Bool) (node : Node) :
    Reading c (chainFrom g isNew node) fun n c' => ∀ s, s ≤ c.start →
      Stand s c.previousStop [node] → Stand s c'.previousStop [n] := by
  refine reading_forall fun s => reading ?_
  have hchain := iterate_stands (fun chain : Chain => [chain.node]) s
  unfold chainFrom
  mvcgen [hchain]
  all_goals grind -ring -linarith

@[spec 2000] theorem superRule_lays (s : Nat) : Reading c (superRule g s) fun n c' =>
    s ≤ c.start → Stand s c'.previousStop [n] := by
  apply reading
  unfold superRule
  mvcgen [-unit_spec]
  all_goals grind -ring -linarith [Node.parts]

@[spec 2000] theorem importRule_lays (s : Nat) : Reading c (importRule g s) fun n c' =>
    s ≤ c.start → Stand s c'.previousStop [n] := by
  apply reading
  unfold importRule
  mvcgen [-unit_spec]
  all_goals grind -ring -linarith [Node.parts]

@[spec 2000] theorem objectProperty_lays : Lays c (objectProperty g) := by
  apply reading
  unfold objectProperty
  mvcgen [-unit_spec]
  all_goals grind -ring -linarith [Node.parts, FunctionAt.isLaidOut_method]

@[spec 2000] theorem objectLiteral_lays : Lays c (objectLiteral g) := by
  have hproperties := commaList_nodes
  apply reading
  unfold objectLiteral
  mvcgen [-unit_spec, hproperties]
  all_goals grind -ring -linarith [Node.parts]

@[spec 2000] theorem arrayLiteral_lays : Lays c (arrayLiteral g) := by
  have helements := commaList_options
  apply reading
  unfold arrayLiteral
  mvcgen [-unit_spec, helements]
  all_goals grind -ring -linarith [Node.parts]

omit hg in
theorem regularExpressionLength?_pos {cs : List Char} {n : Nat}
    (h : regularExpressionLength? cs = some n) : 0 < n ∧ cs ≠ [] := by
  constructor
  · unfold regularExpressionLength? at h
    grind
  · rintro rfl
    cases h

omit hg in
@[spec 2000] theorem regularExpression_lays : Lays c regularExpression := by
  apply reading
  unfold regularExpression
  mvcgen [-unit_spec]
  all_goals try simp only [wp_ok, wp_spanFrom]
  all_goals grind -ring -linarith [Node.parts, Cursor.reread, Cursor.sound_advance,
    byteLength_take_pos, regularExpressionLength?_pos]

@[spec 2000] theorem newRule_lays (superclass : Parser Node) (h : ∀ c, Lays c superclass)
    (bound : Nat) : Lays c (newRule g superclass bound) := by
  induction bound generalizing c with
  | zero =>
    unfold newRule
    mvcgen
    all_goals grind -ring -linarith
  | succ bound ih =>
    apply reading
    unfold newRule
    mvcgen [-unit_spec, -attempt_spec, -newRule_spec, attempt_reads, h, ih]
    all_goals grind -ring -linarith [Node.parts]

@[spec 2000] theorem operand_lays (superclass : Parser Node) (h : ∀ c, Lays c superclass) :
    Lays c (operand g superclass) := by
  apply reading
  unfold operand privatePart
  mvcgen [-unit_spec, h]
  all_goals grind -ring -linarith [Node.parts]

@[spec 2000] theorem chainRule_lays (bound : Nat) : Lays c (chainRule g bound) := by
  induction bound generalizing c with
  | zero =>
    unfold chainRule
    mvcgen
    all_goals grind -ring -linarith
  | succ bound ih =>
    apply reading
    unfold chainRule
    mvcgen [-unit_spec, -chainRule_spec, ih]
    all_goals grind -ring -linarith

@[spec 2000] theorem chain_lays : Lays c (chain g) := by
  unfold chain
  mvcgen
  all_goals grind -ring -linarith

end
end Parser
end MessageCatalog.Script
