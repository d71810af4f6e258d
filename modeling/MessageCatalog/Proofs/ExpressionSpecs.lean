import MessageCatalog.Proofs.OperandSpecs

/-! The rules for operators, assignments and markup elements lay out what they read. -/

set_option mvcgen.warning false

namespace MessageCatalog.Script
open Node (Stand)

namespace Parser
open Std.Do

section
variable (c : Cursor) {g : Grammar} (hg : g.Lays)
include hg

omit hg in
@[spec 2000] theorem isAwait_peeks : Peeking c isAwait fun _ => True := by
  unfold isAwait
  mvcgen [-bool_spec]
  all_goals grind -ring -linarith

@[spec 2000] theorem prefixOperand_lays : Lays c (prefixOperand g) := by
  apply reading
  unfold prefixOperand
  mvcgen [-unit_spec]
  all_goals grind -ring -linarith

theorem unaryRule_lays : Lays c (unaryRule g) := by
  apply reading
  unfold unaryRule
  mvcgen [-unit_spec]
  all_goals grind -ring -linarith [Node.parts]

@[spec 2000] theorem powerFrom_lays (bound : Nat) (left : Node) :
    Reading c (powerFrom g bound left) fun n c' => ∀ s, s ≤ c.start →
      Stand s c.previousStop [left] → Stand s c'.previousStop [n] := by
  induction bound generalizing c left with
  | zero =>
    unfold powerFrom
    mvcgen
    all_goals grind -ring -linarith
  | succ bound ih =>
    apply reading
    unfold powerFrom
    mvcgen [-unit_spec, -powerFrom_spec, ih]
    all_goals grind -ring -linarith [Node.parts]

omit hg in
@[spec 2000] theorem operatorOf?_peeks (group : List String) :
    Peeking c (operatorOf? group) fun _ => True := by
  unfold operatorOf?
  mvcgen [-word_spec]
  all_goals grind -ring -linarith

@[spec 2000] theorem typeOperator?_lays (group : List String) (left : Node) :
    Reading c (typeOperator? g group left) fun r c' => ∀ s, s ≤ c.start →
      Stand s c.previousStop [left] → ∀ n ∈ r, Stand s c'.previousStop [n] := by
  apply reading
  unfold typeOperator?
  mvcgen [-unit_spec]
  all_goals grind -ring -linarith [Node.parts]

@[spec 2000] theorem binaryFrom_lays (groups : List (List String)) (left : Node) :
    Reading c (binaryFrom g groups left) fun n c' => ∀ s, s ≤ c.start →
      Stand s c.previousStop [left] → Stand s c'.previousStop [n] := by
  induction groups generalizing c left with
  | nil =>
    unfold binaryFrom
    mvcgen
    all_goals grind -ring -linarith
  | cons group tighter ih =>
    refine reading_forall fun s => reading ?_
    have hoperands := iterate_stands (fun n : Node => [n]) s
    unfold binaryFrom
    mvcgen [-unit_spec, -binaryFrom_spec, -word_spec, ih, hoperands]
    all_goals grind -ring -linarith [Node.parts]

@[spec 2000] theorem binary_lays : Lays c (binary g) := by
  apply reading
  unfold binary
  mvcgen
  all_goals grind -ring -linarith

@[spec 2000] theorem conditional_lays : Lays c (conditional g) := by
  apply reading
  unfold conditional
  mvcgen [-unit_spec]
  all_goals grind -ring -linarith [Node.parts]

@[spec 2000] theorem yieldRule_lays : Lays c (yieldRule g) := by
  apply reading
  unfold yieldRule
  mvcgen [-unit_spec]
  all_goals grind -ring -linarith [Node.parts]

@[spec 2000] theorem asyncArrow?_lays : Reading c (asyncArrow? g) fun r c' =>
    ∀ n ∈ r, Stand c.start c'.previousStop [n] := by
  apply reading
  unfold asyncArrow?
  mvcgen [-unit_spec]
  all_goals grind -ring -linarith [Node.stand_nil]

@[spec 2000] theorem assignmentRest_lays : Lays c (assignmentRest g) := by
  apply reading
  unfold assignmentRest
  mvcgen [-unit_spec]
  all_goals grind -ring -linarith [Node.parts]

@[spec 2000] theorem genericArrow?_lays : Reading c (genericArrow? g) fun r c' =>
    ∀ n ∈ r, Stand c.start c'.previousStop [n] := by
  apply reading
  unfold genericArrow?
  mvcgen [-unit_spec]
  all_goals grind -ring -linarith

theorem assignmentRule_lays : Lays c (assignmentRule g) := by
  apply reading
  unfold assignmentRule
  mvcgen [-unit_spec]
  all_goals grind -ring -linarith

theorem expressionRule_lays : Lays c (expressionRule g) := by
  have hothers := many_nodes
  apply reading
  unfold expressionRule
  mvcgen [-unit_spec, hothers]
  all_goals grind -ring -linarith [stand_commaExpression]

omit hg in
@[spec 2000] theorem tagName_reads : ReadingOn c tagName := by
  apply reading
  unfold tagName
  mvcgen [-string_spec]
  all_goals try simp only [wp_ok]
  all_goals grind -ring -linarith [Cursor.reread, Cursor.sound_advance]

omit hg in
@[spec 2000] theorem elementName_reads : ReadingOn c elementName := by
  have hmany := @many_reads String
  apply reading
  unfold elementName
  mvcgen [-string_spec, -word_spec, -strings_spec, hmany]
  all_goals grind -ring -linarith

omit hg in
@[spec 2000] theorem quotedValue_reads : ReadingOn c quotedValue := by
  apply reading
  unfold quotedValue
  mvcgen [-unit_spec]
  all_goals try simp only [wp_ok]
  all_goals grind -ring -linarith [Cursor.reread, Cursor.sound_advance]

omit hg in
@[spec 2000] theorem stopAtAngle_reads : Reading c stopAtAngle fun _ c' =>
    c'.start = c.start ∧ c'.previousStop = c.previousStop ∧ c.start < c'.stop := by
  apply reading
  unfold stopAtAngle
  mvcgen [-unit_spec]
  all_goals try simp only [wp_ok]
  all_goals grind -ring -linarith [Cursor.reread, Cursor.Sound, byteLength_take_pos]

omit hg in
@[spec 2000] theorem elementText_reads :
    Reading c elementText fun _ c' => c.stop ≤ c'.previousStop := by
  apply reading
  unfold elementText
  mvcgen [-unit_spec]
  all_goals try simp only [wp_ok]
  all_goals grind -ring -linarith [Cursor.Sound]

@[spec 2000] theorem embedded_lays : Reading c (embedded g) fun ns c' =>
    Stand c.start c'.previousStop ns := by
  apply reading
  unfold embedded
  mvcgen [-unit_spec]
  all_goals grind -ring -linarith

@[spec 2000] theorem attributeValue_lays : Reading c (attributeValue g) fun ns c' =>
    Stand c.start c'.previousStop ns := by
  apply reading
  unfold attributeValue
  mvcgen [-unit_spec]
  all_goals grind -ring -linarith

@[spec 2000] theorem attributeRule_lays : Reading c (attributeRule g) fun ns c' =>
    Stand c.start c'.previousStop ns := by
  apply reading
  unfold attributeRule
  mvcgen [-unit_spec, -string_spec]
  all_goals grind -ring -linarith

@[spec 2000] theorem elementChildren_lays : Reading c (elementChildren g) fun ns c' =>
    Stand c.stop c'.previousStop ns := by
  have hgroups := many_lists
  apply reading
  unfold elementChildren
  mvcgen [-unit_spec, hgroups]
  all_goals grind -ring -linarith

theorem elementRule_lays : Reading c (elementRule g) fun n c' => Stand c.start c'.stop [n] := by
  have hattributes := many_lists
  apply reading
  unfold elementRule
  mvcgen [-unit_spec, -word_spec, hattributes]
  all_goals grind -ring -linarith [Node.parts]

end
end Parser
end MessageCatalog.Script
