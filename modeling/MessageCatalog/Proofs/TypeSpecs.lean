import MessageCatalog.Proofs.CursorSpecs

/-! The rules for types leave no nodes; they only read forward. -/

set_option mvcgen.warning false

namespace MessageCatalog.Script
open Node (Stand)

structure Grammar.Lays (g : Grammar) : Prop where
  expression : ∀ c, Parser.Lays c g.expression
  assignment : ∀ c, Parser.Lays c g.assignment
  unary : ∀ c, Parser.Lays c g.unary
  binding : ∀ c, Parser.Lays c g.binding
  type : ∀ c, Parser.ReadingOn c g.type
  /-- The last token of an element is still the current one. -/
  element : ∀ c, Parser.Reading c g.element fun n c' => Stand c.start c'.stop [n]
  statement : ∀ c, Parser.Lays c g.statement
  item : ∀ c, Parser.Lays c g.item

attribute [spec 2000] Grammar.Lays.expression Grammar.Lays.assignment Grammar.Lays.unary
  Grammar.Lays.binding Grammar.Lays.type Grammar.Lays.element Grammar.Lays.statement
  Grammar.Lays.item

namespace Parser
open Std.Do

section
variable (c : Cursor)

@[spec 2000] theorem startsWithAngle_peeks :
    Peeking c startsWithAngle fun b => b = true → c.text ≠ [] := by
  unfold startsWithAngle
  mvcgen [-bool_spec]
  all_goals grind -ring -linarith

@[spec 2000] theorem closeAngle_reads :
    Reading c closeAngle fun _ c' => c.start < c'.previousStop := by
  unfold closeAngle
  mvcgen [-unit_spec]
  all_goals try simp only [wp_ok]
  all_goals grind -ring -linarith [Cursor.reread, Cursor.sound_advance, byteLength_take_pos]

@[spec 2000] theorem angleList_reads (item : Parser Unit) (h : ∀ c, ReadingOn c item) :
    Reading c (angleList item) fun _ c' => c.start < c'.previousStop := by
  have hmany := @many_reads Unit
  apply reading
  unfold angleList
  mvcgen [-unit_spec, -units_spec, h, hmany]
  all_goals grind -ring -linarith

theorem templatePieces_stands {α : Type} (f : α → List Node) (tagged : Bool) (item : Parser α)
    (h : ∀ c, ReadingGoal c item fun a c' => Stand c.start c'.previousStop (f a)) :
    Reading c (templatePieces tagged item) fun r c' =>
      c.stop ≤ c'.previousStop ∧ Stand c.start c'.previousStop (r.1.flatMap f) := by
  have hitem := fun c => reading (h c)
  have hpieces := iterate_stands (fun r : List α × Bool => r.1.flatMap f) c.start
  apply reading
  unfold templatePieces
  -- Reading one piece is a part of this rule, and no rule of its own.
  refine Triple.bind _ _ (start_peeks c) fun opening => ?_
  extract_lets read
  have hread : ∀ c, Reading c read fun _ c' => c.stop ≤ c'.previousStop := by
    intro c
    unfold read
    mvcgen [-piece_spec]
    all_goals try simp only [wp_ok]
    all_goals grind -ring -linarith [Cursor.sound_advance]
  clear_value read
  mvcgen [-piece_spec, -unit_spec, hread, hpieces, hitem]
  all_goals grind -ring -linarith [stand_flatMap_append]

@[spec 2000] theorem entityName_reads : ReadingOn c entityName := by
  have hmany := @many_reads Unit
  apply reading
  unfold entityName
  mvcgen [-unit_spec, -units_spec, hmany]
  all_goals grind -ring -linarith

@[spec 2000] theorem modifier?_reads (words : List String) : ReadingOn c (modifier? words) := by
  apply reading
  unfold modifier?
  mvcgen [-bool_spec]
  all_goals grind -ring -linarith

@[spec 2000] theorem isTypeOperator_peeks (words : List String) :
    Peeking c (isTypeOperator words) fun _ => True := by
  unfold isTypeOperator
  mvcgen [-bool_spec]
  all_goals grind -ring -linarith

@[spec 2000] theorem joinedType_reads (symbol : String) (item : Parser Unit)
    (h : ∀ c, ReadingOn c item) :
    ReadingOn c (joinedType symbol item) := by
  have hmany := @many_reads Unit
  apply reading
  unfold joinedType
  mvcgen [-unit_spec, -units_spec, h, hmany]
  all_goals grind -ring -linarith

variable {g : Grammar} (hg : g.Lays)
include hg

@[spec 2000] theorem typeArguments_reads :
    Reading c (typeArguments g) fun _ c' => c.start < c'.previousStop := by
  apply reading
  unfold typeArguments
  mvcgen [-unit_spec]
  all_goals grind -ring -linarith

@[spec 2000] theorem typeArguments?_reads : ReadingOn c (typeArguments? g) := by
  apply reading
  unfold typeArguments?
  mvcgen [-unit_spec]
  all_goals grind -ring -linarith

@[spec 2000] theorem typeParameter_reads :
    Reading c (typeParameter g) fun _ c' => c.start < c'.previousStop := by
  have hmany := @many_reads Unit
  apply reading
  unfold typeParameter
  mvcgen [-unit_spec, -units_spec, hmany]
  all_goals grind -ring -linarith

@[spec 2000] theorem typeParameters_reads :
    Reading c (typeParameters g) fun _ c' => c.start < c'.previousStop := by
  apply reading
  unfold typeParameters
  mvcgen [-unit_spec]
  all_goals grind -ring -linarith

@[spec 2000] theorem typeParameters?_reads : ReadingOn c (typeParameters? g) := by
  apply reading
  unfold typeParameters?
  mvcgen [-unit_spec]
  all_goals grind -ring -linarith

@[spec 2000] theorem resultType_reads : ReadingOn c (resultType g) := by
  apply reading
  unfold resultType
  mvcgen [-unit_spec, -attempt_spec, attempt_reads]
  all_goals grind -ring -linarith

@[spec 2000] theorem colonType?_reads : ReadingOn c (colonType? g) := by
  apply reading
  unfold colonType?
  mvcgen [-unit_spec]
  all_goals grind -ring -linarith

@[spec 2000] theorem colonResult?_reads : ReadingOn c (colonResult? g) := by
  apply reading
  unfold colonResult?
  mvcgen [-unit_spec]
  all_goals grind -ring -linarith

@[spec 2000] theorem typedParameter_reads : ReadingOn c (typedParameter g) := by
  apply reading
  unfold typedParameter
  mvcgen [-unit_spec]
  all_goals grind -ring -linarith

@[spec 2000] theorem typedParameters_reads :
    Reading c (typedParameters g) fun _ c' => c.start < c'.previousStop := by
  have hlist := @commaList_reads Unit
  apply reading
  unfold typedParameters
  mvcgen [-unit_spec, -units_spec, hlist]
  all_goals grind -ring -linarith

@[spec 2000] theorem functionType_reads : ReadingOn c (functionType g) := by
  apply reading
  unfold functionType
  mvcgen [-unit_spec]
  all_goals grind -ring -linarith

@[spec 2000] theorem typeKey_reads : ReadingOn c (typeKey g) := by
  apply reading
  unfold typeKey
  mvcgen [-unit_spec]
  all_goals grind -ring -linarith

@[spec 2000] theorem indexKey_reads :
    Reading c (indexKey g) fun _ c' => c.start < c'.previousStop := by
  apply reading
  unfold indexKey
  mvcgen [-unit_spec]
  all_goals grind -ring -linarith

@[spec 2000] theorem mappedKey_reads :
    Reading c (mappedKey g) fun _ c' => c.start < c'.previousStop := by
  apply reading
  unfold mappedKey
  mvcgen [-unit_spec]
  all_goals grind -ring -linarith

@[spec 2000] theorem typeMember_reads : ReadingOn c (typeMember g) := by
  apply reading
  unfold typeMember
  mvcgen [-unit_spec, -attempt_spec, attempt_reads]
  all_goals grind -ring -linarith

@[spec 2000] theorem typeMembers_reads :
    Reading c (typeMembers g) fun _ c' => c.start < c'.previousStop := by
  have hmany := @many_reads Unit
  apply reading
  unfold typeMembers
  mvcgen [-unit_spec, -units_spec, hmany]
  all_goals grind -ring -linarith

@[spec 2000] theorem tupleElement_reads : ReadingOn c (tupleElement g) := by
  apply reading
  unfold tupleElement
  mvcgen [-unit_spec, -attempt_spec, attempt_reads]
  all_goals grind -ring -linarith

@[spec 2000] theorem primaryType_reads : ReadingOn c (primaryType g) := by
  have hlist := @commaList_reads Unit
  have hpieces := fun c => templatePieces_stands c fun _ : Unit => []
  apply reading
  unfold primaryType
  mvcgen [-unit_spec, -units_spec, hlist, hpieces]
  all_goals grind -ring -linarith

@[spec 2000] theorem postfixType_reads : ReadingOn c (postfixType g) := by
  have hmany := @many_reads Unit
  apply reading
  unfold postfixType
  mvcgen [-unit_spec, -units_spec, hmany]
  all_goals grind -ring -linarith

@[spec 2000] theorem inferredType_reads : ReadingOn c (inferredType g) := by
  apply reading
  unfold inferredType
  mvcgen [-unit_spec, -attempt_spec, attempt_reads]
  all_goals grind -ring -linarith

@[spec 2000] theorem operatorType_reads : ReadingOn c (operatorType g) := by
  have hmany := @many_reads Unit
  apply reading
  unfold operatorType
  mvcgen [-unit_spec, -units_spec, hmany]
  all_goals grind -ring -linarith

@[spec 2000] theorem unionType_reads : ReadingOn c (unionType g) := by
  apply reading
  unfold unionType
  mvcgen [-unit_spec]
  all_goals grind -ring -linarith

@[spec 2000] theorem plainType_reads : ReadingOn c (plainType g) := by
  apply reading
  unfold plainType
  mvcgen [-unit_spec, -attempt_spec, attempt_reads]
  all_goals grind -ring -linarith

@[spec 2000] theorem typeRule_reads : ReadingOn c (typeRule g) := by
  apply reading
  unfold typeRule
  mvcgen [-unit_spec, -attempt_spec, attempt_reads]
  all_goals grind -ring -linarith

end
end Parser
end MessageCatalog.Script
