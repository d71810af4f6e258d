import MessageCatalog.Proofs.TypeSpecs

/-! The rules for patterns, functions and classes lay out what they read. -/

set_option mvcgen.warning false

namespace MessageCatalog.Script
open Node (Stand FunctionAt)

namespace Parser
open Std.Do

section
variable (c : Cursor)

@[spec 2000] theorem isAsyncFunction_peeks : Peeking c isAsyncFunction fun _ => True := by
  unfold isAsyncFunction
  mvcgen [-bool_spec]
  all_goals grind -ring -linarith

@[spec 2000] theorem isKeyItself_peeks : Peeking c isKeyItself fun _ => True := by
  unfold isKeyItself
  mvcgen [-bool_spec]

@[spec 2000] theorem modifierWord_reads (text : String) (sameLine : Bool) :
    ReadingOn c (modifierWord text sameLine) := by
  apply reading
  unfold modifierWord
  mvcgen [-bool_spec]
  all_goals grind -ring -linarith

@[spec 2000] theorem methodPrelude_reads : ReadingOn c methodPrelude := by
  apply reading
  unfold methodPrelude
  mvcgen [-bool_spec, -prelude_spec]
  all_goals grind -ring -linarith

@[spec 2000] theorem className?_reads : ReadingOn c className? := by
  apply reading
  unfold className?
  mvcgen [-word_spec]
  all_goals grind -ring -linarith

variable {g : Grammar} (hg : g.Lays)
include hg

@[spec 2000] theorem valueWithin_lays : Lays c (valueWithin g) := by
  unfold valueWithin
  mvcgen

@[spec 2000] theorem propertyKey_lays : Lays c (propertyKey g) := by
  apply reading
  unfold propertyKey privatePart
  mvcgen
  all_goals grind -ring -linarith [Node.parts]

@[spec 2000] theorem withDefault?_lays (s : Nat) (target : Node) :
    Reading c (withDefault? g s target) fun n c' =>
      Stand s c.previousStop [target] → s ≤ c.start → Stand s c'.previousStop [n] := by
  apply reading
  unfold withDefault?
  mvcgen
  all_goals grind -ring -linarith [Node.parts]

@[spec 2000] theorem bindingElement_lays : Lays c (bindingElement g) := by
  apply reading
  unfold bindingElement whenTyped
  mvcgen [-unit_spec]
  all_goals grind -ring -linarith [Node.parts]

@[spec 2000] theorem bindingProperty_lays : Lays c (bindingProperty g) := by
  apply reading
  unfold bindingProperty
  mvcgen
  all_goals grind -ring -linarith [Node.parts]

theorem bindingRule_lays : Lays c (bindingRule g) := by
  have hproperties := commaList_nodes
  have helements := commaList_options
  apply reading
  unfold bindingRule
  mvcgen [hproperties, helements]
  all_goals grind -ring -linarith [Node.parts]

omit hg in
@[spec 2000] theorem accessModifiers_reads : ReadingOn c accessModifiers := by
  have hmany := @many_reads Unit
  apply reading
  unfold accessModifiers
  mvcgen [-unit_spec, -units_spec, hmany]
  all_goals grind -ring -linarith

@[spec 2000] theorem parameter_lays : Lays c (parameter g) := by
  refine reading_bind (whenTyped_reads (accessModifiers_reads c)) fun _ c₁ h₁ _ => ?_
  refine reading_mono (bindingElement_lays c₁ hg) fun target c₂ _ htarget => ?_
  exact htarget.mono h₁.start_le (Nat.le_refl _)

@[spec 2000] theorem parameters_lays : Reading c (parameters g) fun ns c' =>
    c.start < c'.previousStop ∧ Stand c.start c'.previousStop ns := by
  have hlist := commaList_nodes
  apply reading
  unfold parameters
  mvcgen [hlist]
  all_goals grind -ring -linarith

@[spec 2000] theorem braced_lays : Reading c (braced g) fun ns c' =>
    c.start < c'.previousStop ∧ Stand c.start c'.previousStop ns := by
  have hstatements := many_nodes
  apply reading
  unfold braced
  mvcgen [hstatements]
  all_goals grind -ring -linarith

@[spec 2000] theorem functionBody_lays : Reading c (functionBody g) fun r c' =>
    c.start < c'.previousStop ∧ Stand c.start c'.previousStop r.1 := by
  apply reading
  unfold functionBody
  mvcgen
  all_goals grind -ring -linarith

@[spec 2000] theorem functionRest_lays (s : Nat)
    (isAsync isGenerator superAllowed bodyNeeded : Bool) :
    Reading c (functionRest g s isAsync isGenerator superAllowed bodyNeeded) fun n c' =>
      FunctionAt s c.start c'.previousStop n := by
  refine reading_under _ ?_
  refine reading_bind (whenTyped_reads (typeParameters?_reads c hg)) fun _ c₁ h₁ _ => ?_
  refine reading_bind (parameters_lays c₁ hg) fun ps c₂ h₂ ⟨hlt, hparameters⟩ => ?_
  refine reading_bind (colonResult?_reads c₂ hg) fun _ c₃ h₃ _ => ?_
  refine reading_peek (mode_peeks c₃) fun _ _ => reading_peek (isSymbol_peeks c₃ _) fun _ _ => ?_
  refine reading_ite ?_ ?_
  · -- The declaration ends without a body.
    refine reading_bind (semicolon_reads c₃) fun _ c₄ h₄ _ => ?_
    refine reading_peek (spanFrom_peeks c₄ s) fun here hhere => reading_pure ?_
    have hlt : c.start < c₄.previousStop := by grind -ring -linarith
    have hrest := h₃.trans h₄
    rw [hhere]
    refine .function hlt ?_
    rw [List.append_nil]
    exact hparameters.mono h₁.start_le hrest.previousStop_le
  · refine reading_bind (functionBody_lays c₃ hg) fun body c₄ h₄ ⟨_, hbody⟩ => ?_
    refine reading_peek (spanFrom_peeks c₄ s) fun span hspan => reading_pure ?_
    have hlt : c.start < c₄.previousStop := by grind -ring -linarith
    have hparts := stand_append_of_reads h₂ h₃ h₄ hparameters hbody
    rw [hspan]
    exact .function hlt (hparts.mono h₁.start_le (Nat.le_refl _))

@[spec 2000] theorem functionRule_lays (s : Nat) (isAsync bodyNeeded : Bool) :
    Reading c (functionRule g s isAsync bodyNeeded) fun r c' =>
      s ≤ c.start → Stand s c'.previousStop [r.2] := by
  apply reading
  unfold functionRule
  mvcgen [-word_spec]
  all_goals grind -ring -linarith [FunctionAt.isLaidOut]

omit hg in
@[spec 2000] theorem isStaticBlock_peeks : Peeking c isStaticBlock fun _ => True := by
  unfold isStaticBlock
  mvcgen [-bool_spec]

@[spec 2000] theorem staticBlock_lays (s : Nat) : Reading c (staticBlock g s) fun n c' =>
    s ≤ c.start → Stand s c'.previousStop [n] := by
  apply reading
  unfold staticBlock
  mvcgen [-unit_spec]
  all_goals grind -ring -linarith

omit hg in
@[spec 2000] theorem memberModifiers_reads : ReadingOn c memberModifiers := by
  have hmany := @many_reads Unit
  apply reading
  unfold memberModifiers
  mvcgen [-unit_spec, -units_spec, hmany]
  all_goals grind -ring -linarith

omit hg in
theorem keyMarks_reads : ReadingOn c keyMarks := by
  refine reading_bind (eatSymbol_reads c "?") fun _ c₁ _ _ => ?_
  exact reading_bind (eatSymbol_reads c₁ "!") fun _ _ _ _ => reading_pure trivial

@[spec 2000] theorem indexSignature_reads : ReadingOn c (indexSignature g) := by
  apply reading
  unfold indexSignature
  mvcgen [-bool_spec, -unit_spec, -attempt_spec, attempt_reads]
  all_goals grind -ring -linarith

@[spec 2000] theorem fieldValue_lays : Reading c (fieldValue g) fun ns c' =>
    Stand c.start c'.previousStop ns := by
  apply reading
  unfold fieldValue
  mvcgen
  all_goals grind -ring -linarith

@[spec 2000] theorem memberAfter_lays (s : Nat) (prelude : Prelude) (key : Node) :
    Reading c (memberAfter g s prelude key) fun n c' => s ≤ c.start →
      Stand s c.previousStop [key] → Stand s c'.previousStop [n] := by
  refine reading_of_sound fun hc => ?_
  refine reading_peek (isSymbol_peeks c _) fun _ _ => ?_
  refine reading_peek (isSymbol_peeks c _) fun _ _ => ?_
  refine reading_ite ?_ ?_
  · refine reading_bind (functionRest_lays c hg s _ _ _ _) fun function c₁ _ hfunction => ?_
    refine reading_peek (spanFrom_peeks c₁ s) fun span hspan => reading_pure fun hs hkey => ?_
    obtain ⟨hlaid, hstart, hlt, hle, -⟩ := Node.stand_cons.1 hkey
    have hbehind : key.span.stop ≤ c.start := Nat.le_trans hle hc.previous
    have hmethod := hfunction.isLaidOut_method hlaid hstart hlt hbehind
    exact hspan ▸ hmethod.stand rfl (Nat.lt_of_le_of_lt hs hfunction.bounds.2)
  · refine reading_bind (colonType?_reads c hg) fun _ c₁ h₁ _ => ?_
    refine reading_bind (fieldValue_lays c₁ hg) fun value c₂ h₂ hvalue => ?_
    refine reading_bind (semicolon_reads c₂) fun _ c₃ h₃ _ => ?_
    refine reading_peek (spanFrom_peeks c₃ s) fun span hspan => reading_pure fun hs hkey => ?_
    obtain ⟨-, hstart, hlt, hle, -⟩ := Node.stand_cons.1 hkey
    have hparts : Stand s c₃.previousStop ([key] ++ value) :=
      hkey.append hvalue (Nat.le_refl _) (by grind) (by grind) (by grind) h₃.previousStop_le
    exact Node.stand_of_parts (hspan ▸ hparts) hspan (by grind)

@[spec 2000] theorem classMember_lays : Reading c (classMember g) fun ns c' =>
    Stand c.start c'.previousStop ns := by
  refine reading_under _ (reading_peek (start_peeks c) fun s hs => ?_)
  refine reading_bind (eatSymbol_reads c ";") fun _ c₁ h₁ _ => ?_
  refine reading_ite (reading_pure Node.stand_nil) ?_
  refine reading_peek (isStaticBlock_peeks c₁) fun _ _ => reading_ite ?_ ?_
  · refine reading_bind (staticBlock_lays c₁ hg s) fun block c₂ _ hblock => reading_pure ?_
    exact hs ▸ hblock (hs ▸ h₁.start_le)
  refine reading_bind (memberModifiers_reads c₁) fun _ c₂ h₂ _ => ?_
  refine reading_bind (indexSignature_reads c₂ hg) fun _ c₃ h₃ _ => ?_
  refine reading_ite (reading_pure Node.stand_nil) ?_
  refine reading_bind (methodPrelude_reads c₃) fun prelude c₄ h₄ _ => ?_
  refine reading_bind (propertyKey_lays c₄ hg) fun key c₅ h₅ hkey => ?_
  refine reading_bind (whenTyped_reads (keyMarks_reads c₅)) fun _ c₆ h₆ _ => ?_
  refine reading_bind (memberAfter_lays c₆ hg s prelude key) fun member c₇ _ hmember => ?_
  have hbefore : c.Reads c₄ := h₁.trans (h₂.trans (h₃.trans h₄))
  have hafter : c.Reads c₆ := hbefore.trans (h₅.trans h₆)
  rw [hs] at hmember
  exact reading_pure (hmember hafter.start_le (hkey.mono hbefore.start_le h₆.previousStop_le))

@[spec 2000] theorem heritage_reads : ReadingOn c (heritage g) := by
  have hmany := @many_reads Unit
  apply reading
  unfold heritage
  mvcgen [-unit_spec, -units_spec, hmany]
  all_goals grind -ring -linarith

theorem implemented_reads : ReadingOn c (implemented g) := by
  refine reading_bind (eatWord_reads c "implements") fun _ c₁ _ _ => ?_
  exact reading_ite (heritage_reads c₁ hg) (reading_pure trivial)

theorem classBody_lays : Reading c (classBody g) fun ns c' =>
    c.start < c'.previousStop ∧ Stand c.start c'.previousStop ns := by
  have hmembers := many_lists
  apply reading
  unfold classBody
  mvcgen [hmembers]
  all_goals grind -ring -linarith

theorem extended_lays (superclass : Parser Node) (h : ∀ c, Lays c superclass) :
    Reading c (extended g superclass) fun ns c' =>
      Stand c.start c'.previousStop ns ∧ ns.length ≤ 1 := by
  refine reading_bind (eatWord_reads c _) fun _ c₁ h₁ _ => ?_
  refine reading_ite ?_ (reading_pure ⟨Node.stand_nil, Nat.zero_le 1⟩)
  refine reading_bind (h c₁) fun parent c₂ _ hparent => ?_
  refine reading_bind (whenTyped_reads (typeArguments?_reads c₂ hg)) fun _ c₃ h₃ _ => ?_
  exact reading_pure ⟨hparent.mono h₁.start_le h₃.previousStop_le, Nat.le_refl 1⟩

@[spec 2000] theorem classRest_lays (s : Nat) (superclass : Parser Node)
    (h : ∀ c, Lays c superclass) : Reading c (classRest g s superclass) fun n c' =>
      s ≤ c.start → Stand s c'.previousStop [n] := by
  refine reading_bind (whenTyped_reads (typeParameters?_reads c hg)) fun _ c₁ h₁ _ => ?_
  refine reading_bind (extended_lays c₁ hg superclass h) fun parent c₂ h₂ ⟨hparent, hone⟩ => ?_
  refine reading_bind (whenTyped_reads (implemented_reads c₂ hg)) fun _ c₃ h₃ _ => ?_
  refine reading_bind (classBody_lays c₃ hg) fun members c₄ h₄ ⟨hbody, hmembers⟩ => ?_
  refine reading_peek (spanFrom_peeks c₄ s) fun span hspan => reading_pure fun hs => ?_
  have hstart : s ≤ c₁.start := Nat.le_trans hs h₁.start_le
  have hparts : Stand s c₄.previousStop (parent ++ members) :=
    (stand_append_of_reads h₂ h₃ h₄ hparent hmembers).mono hstart (Nat.le_refl _)
  have hlaid : (Node.other .expression (members ++ parent) ⟨s, c₄.previousStop⟩).IsLaidOut := by
    match parent, hone with
    | [], _ => exact (List.append_nil members).symm ▸ Node.isLaidOut_of_stand hparts
    | [superclass], _ => exact Node.isLaidOut_heritage hparts
  rw [hspan]
  exact hlaid.stand rfl (by grind)

@[spec 2000] theorem classRule_lays (s : Nat) (superclass : Parser Node)
    (h : ∀ c, Lays c superclass) : Reading c (classRule g s superclass) fun r c' =>
      s ≤ c.start → Stand s c'.previousStop [r.2] := by
  apply reading
  unfold classRule
  mvcgen [h]
  all_goals grind -ring -linarith

end
end Parser
end MessageCatalog.Script
