import MessageCatalog.Proofs.Renaming
import MessageCatalog.Proofs.Fallbacks

/-! Parentheses do not matter: what is read from the value of a definition, and what a call of the
fallback function refers to, depends on the expression without them. -/

namespace MessageCatalog

namespace Script

def Span.nowhere : Span := ⟨0, 0⟩

namespace Node

def unplaced (n : Node) : Node := n.rename id fun _ => 0

mutual

/-- An expression without its places, and without the parentheses around it, around its operands,
its arguments and their values, and around what it calls or returns. -/
def plain : Node → Node
  -- No script has parentheses around dots.
  | .paren (.spread value dots) span => unplaced (.paren (.spread value dots) span)
  | .paren inner _ => plain inner
  | .member base last _ => .member (plain base) last .nowhere
  | .call callee arguments _ => .call (plain callee) (plainAll arguments) .nowhere
  | .binary operator left right _ => .binary operator (plain left) (plain right) .nowhere
  | .object properties _ => .object (plainProperties properties) .nowhere
  | .function isArrow parameters body _ _ =>
    .function isArrow (parameters.map unplaced) (plainBody body) .nowhere .nowhere
  | .lambda parameters result _ => .lambda (parameters.map unplaced) (plain result) .nowhere
  | node => unplaced node

def plainAll : List Node → List Node
  | [] => []
  | n :: ns => plain n :: plainAll ns

def plainProperty : Node → Node
  | .property key value _ => .property (unplaced key) (plain value) .nowhere
  | node => unplaced node

def plainProperties : List Node → List Node
  | [] => []
  | p :: ps => plainProperty p :: plainProperties ps

def plainBody : List Node → List Node
  | .returnStatement (some value) _ :: others =>
    .returnStatement (some (plain value)) .nowhere :: others.map unplaced
  | statements => statements.map unplaced

end

theorem dottedName_plain (n : Node) : n.plain.dottedName = n.dottedName := by
  induction n using parts_induction with
  | whole n ih =>
    cases n with
    | paren inner span =>
      have hinner := ih inner (by simp [parts])
      cases inner <;> exact hinner
    | member base last span => simp [plain, dottedName, ih base (by simp [parts])]
    | _ => rfl

theorem unparenthesized_plain (n : Node) : n.plain.unparenthesized = n.unparenthesized.plain := by
  induction n using parts_induction with
  | whole n ih =>
    cases n with
    | paren inner span =>
      have hinner := ih inner (by simp [parts])
      cases inner <;> exact hinner
    | _ => rfl

theorem unparenthesized_ne_paren (n : Node) {inner : Node} {span : Span} :
    n.unparenthesized ≠ .paren inner span := by
  induction n using parts_induction with
  | whole n ih =>
    cases n with
    | paren inner' span' => exact ih inner' (by simp [parts])
    | _ => nofun

theorem isCall_unparenthesized_plain (n : Node) :
    n.plain.unparenthesized.isCall = n.unparenthesized.isCall := by
  rw [unparenthesized_plain]
  cases hn : n.unparenthesized with
  | paren inner span => exact absurd hn n.unparenthesized_ne_paren
  | _ => rfl

theorem plainAll_eq (ns : List Node) : plainAll ns = ns.map plain := by
  induction ns with
  | nil => rfl
  | cons n ns ih => rw [plainAll, ih, List.map_cons]

theorem plainProperties_eq (ns : List Node) : plainProperties ns = ns.map plainProperty := by
  induction ns with
  | nil => rfl
  | cons n ns ih => rw [plainProperties, ih, List.map_cons]

end Node
end Script

namespace Definition
open Script (Node Span)
open Script.Node (parts_induction plainProperty unplaced plainBody)

inductive Concur {α β : Type} (R : α → β → Prop) : Except Malformed α → Except Malformed β → Prop
  | ok {a : α} {b : β} (related : R a b) : Concur R (.ok a) (.ok b)
  | error {m m' : Malformed} (same : m.fault = m'.fault) : Concur R (.error m) (.error m')

namespace Concur
variable {α β γ δ : Type} {R : α → β → Prop} {S : γ → δ → Prop}
  {x : Except Malformed α} {y : Except Malformed β}

theorem fault (f : Fault) (span span' : Span) :
    Concur R (Definition.fault f span) (Definition.fault f span') := .error rfl

theorem refl (x : Except Malformed α) : Concur Eq x x := by
  cases x with
  | ok => exact .ok rfl
  | error => exact .error rfl

theorem bind (h : Concur R x y) {f : α → Except Malformed γ} {g : β → Except Malformed δ}
    (hrest : ∀ a b, R a b → Concur S (f a) (g b)) : Concur S (x >>= f) (y >>= g) := by
  cases h with
  | ok related => exact hrest _ _ related
  | error same => exact .error same

theorem map (h : Concur R x y) {f : α → γ} {g : β → δ} (hrest : ∀ a b, R a b → S (f a) (g b)) :
    Concur S (x.map f) (y.map g) := by
  cases h with
  | ok related => exact .ok (hrest _ _ related)
  | error same => exact .error same

theorem of_common {T : β → γ → Prop} {S : α → γ → Prop} {z : Except Malformed γ}
    (h : Concur R x y) (h' : Concur S x z) (hrest : ∀ a b c, R a b → S a c → T b c) :
    Concur T y z := by
  cases h with
  | ok related =>
    cases h' with
    | ok related' => exact .ok (hrest _ _ _ related related')
  | error same =>
    cases h' with
    | error same' => exact .error (same.symm.trans same')

theorem eq_ok_iff {x y : Except Malformed α} (h : Concur Eq x y) {a : α} :
    x = .ok a ↔ y = .ok a := by
  cases h with
  | ok related => rw [related]
  | error => exact ⟨nofun, nofun⟩

theorem ite {p : Prop} [Decidable p] {x' : Except Malformed α} {y' : Except Malformed β}
    (h : Concur R x y) (h' : Concur R x' y') :
    Concur R (if p then x else x') (if p then y else y') := by
  split_ifs
  · exact h
  · exact h'

end Concur

theorem textOf_binary (operator : String) (left right : Node) (span : Span) :
    textOf (.binary operator left right span) =
      if operator = "+" then do
        let l ← textOf left
        let r ← textOf right
        return l ++ r
      else fault (.notText "binary expression") span := by
  rw [textOf]
  cases textOf left <;> cases textOf right <;> rfl

theorem appendReturned_binary (d : Draft) (operator : String) (left right : Node) (span : Span) :
    appendReturned d (.binary operator left right span) =
      if operator = "+" then do
        let d' ← appendReturned d left
        appendReturned d' right
      else fault (.notReturnedText "binary expression") span := by
  rw [appendReturned]
  cases appendReturned d left <;> rfl

theorem textOf_plain (n : Node) : Concur Eq (textOf n.plain) (textOf n) := by
  induction n using parts_induction with
  | whole n ih =>
    cases n with
    | paren inner span =>
      have hinner := ih inner (by simp [Node.parts])
      cases inner <;> exact hinner
    | string text span => cases text <;> [exact .error rfl; exact .ok rfl]
    | template text values span =>
      cases values with
      | nil => cases text <;> [exact .error rfl; exact .ok rfl]
      | cons => exact .error rfl
    | binary operator left right span =>
      have hleft := ih left (by simp [Node.parts])
      have hright := ih right (by simp [Node.parts])
      rw [Node.plain, textOf_binary, textOf_binary]
      split_ifs
      · refine hleft.bind ?_
        rintro l _ rfl
        refine hright.bind ?_
        rintro r _ rfl
        exact .ok rfl
      · exact .error rfl
    | _ => exact .error rfl

theorem appendReturned_plain (d : Draft) (n : Node) :
    Concur Eq (appendReturned d n.plain) (appendReturned d n) := by
  induction n using parts_induction generalizing d with
  | whole n ih =>
    cases n with
    | paren inner span =>
      have hinner := ih inner (by simp [Node.parts])
      cases inner <;> exact hinner d
    | name text span => exact .ok rfl
    | string text span =>
      exact (textOf_plain (.string text span)).map fun _ _ h => congrArg d.appendText h
    | template text values span =>
      exact (textOf_plain (.template text values span)).map fun _ _ h => congrArg d.appendText h
    | binary operator left right span =>
      have hleft := ih left (by simp [Node.parts])
      have hright := ih right (by simp [Node.parts])
      rw [Node.plain, appendReturned_binary, appendReturned_binary]
      split_ifs
      · refine (hleft d).bind ?_
        rintro mid _ rfl
        exact hright mid
      · exact .error rfl
    | _ => exact .error rfl

theorem parameterNames_unplaced (seen : List String) (parameters : List Node) :
    Concur Eq (parameterNames seen (parameters.map unplaced)) (parameterNames seen parameters) := by
  induction parameters generalizing seen with
  | nil => exact .ok rfl
  | cons p ps ih =>
    cases p with
    | name text span =>
      change Concur Eq (parameterNames seen (.name text .nowhere :: ps.map unplaced)) _
      rw [parameterNames, parameterNames]
      exact .ite (.fault _ _ _) (ih _)
    | _ => exact ih seen

def Body.plain : Body → Body
  | .statements list _ => .statements (plainBody list) .nowhere
  | .result node => .result node.plain

theorem checkPlaceholders_concur (used declared : List String) (span span' : Span) :
    Concur Eq (checkPlaceholders used declared span) (checkPlaceholders used declared span') := by
  unfold checkPlaceholders
  split
  · exact .fault _ _ _
  · split
    · exact .fault _ _ _
    · exact .ok rfl

theorem appendBody_plain (d : Draft) (body : Body) :
    Concur (fun x y => x.1 = y.1) (appendBody d body.plain) (appendBody d body) := by
  cases body with
  | result node => exact (appendReturned_plain d node).map fun _ _ h => h
  | statements list span =>
    cases list with
    | nil => exact .fault _ _ _
    | cons n ns =>
      cases n with
      | returnStatement value valueSpan =>
        cases value with
        | none => exact .ok rfl
        | some value => exact (appendReturned_plain d value).map fun _ _ h => h
      | other form parts span => cases form <;> exact .fault _ _ _
      | _ => exact .fault _ _ _

theorem ofFunction_plain (d : Draft) (parameters : List Node) (body : Body) :
    Concur Eq (ofFunction d (parameters.map unplaced) body.plain)
      (ofFunction d parameters body) := by
  refine (parameterNames_unplaced [] parameters).bind ?_
  rintro names _ rfl
  refine (appendBody_plain d body).bind ?_
  rintro ⟨mid, span⟩ ⟨_, span'⟩ rfl
  refine (checkPlaceholders_concur mid.placeholders names span span').bind ?_
  rintro _ _ -
  exact .ok rfl

def Entry.plain (e : Entry) : Entry := ⟨e.name, .nowhere, e.value.map Node.plain⟩

theorem entry?_plain (property : Node) :
    (Option.map Entry.plain <| entry? property) = entry? (plainProperty property) := by
  cases property with
  | property key value span =>
    cases key with
    | string text span => cases text <;> rfl
    | _ => rfl
  | _ => rfl

theorem entryOf_plain (f : Fault) (property : Node) :
    Concur (fun x y => x = y.plain) (entryOf f (plainProperty property)) (entryOf f property) := by
  unfold entryOf
  rw [← entry?_plain]
  cases entry? property with
  | none => exact .fault _ _ _
  | some e => exact .ok rfl

theorem propertiesOf_plain (f : Fault) (n : Node) :
    Concur (fun x y => x = y.map plainProperty) (propertiesOf f n.plain) (propertiesOf f n) := by
  unfold propertiesOf
  rw [Node.unparenthesized_plain]
  cases hn : n.unparenthesized with
  | object properties span =>
    rw [Node.plain, Node.plainProperties_eq]
    exact .ok rfl
  | paren => exact absurd hn (Node.unparenthesized_ne_paren n)
  | _ => exact .fault _ _ _

theorem valueNames_plain (seen : List String) (properties : List Node) :
    Concur Eq (valueNames seen (properties.map plainProperty)) (valueNames seen properties) := by
  induction properties generalizing seen with
  | nil => exact .ok rfl
  | cons p ps ih =>
    refine (entryOf_plain .unplainValueKey p).bind ?_
    rintro _ entry rfl
    exact .ite (.fault _ _ _) (.ite (.fault _ _ _) (ih _))

theorem placeholderTexts_plain (used : List String) (texts : Table String String)
    (properties : List Node) :
    Concur Eq (placeholderTexts used texts (properties.map plainProperty))
      (placeholderTexts used texts properties) := by
  induction properties generalizing texts with
  | nil => exact .ok rfl
  | cons p ps ih =>
    refine (entryOf_plain .unplainKey p).bind ?_
    rintro _ ⟨name, span, value⟩ rfl
    cases value with
    | none => exact .fault _ _ _
    | some value =>
      simp only [Entry.plain, Option.map_some, Node.unparenthesized_plain]
      cases hvalue : value.unparenthesized with
      | string text textSpan =>
        cases text with
        | none => exact .fault _ _ _
        | some text => exact .ite (.fault _ _ _) (.ite (.fault _ _ _) (ih _))
      | paren inner innerSpan => exact absurd hvalue (Node.unparenthesized_ne_paren value)
      | _ => exact .fault _ _ _

theorem optionTexts_plain (used : List String) (e : Entry) :
    Concur Eq (optionTexts used e.plain) (optionTexts used e) := by
  obtain ⟨name, span, value⟩ := e
  cases value with
  | none => exact .fault _ _ _
  | some value =>
    refine (propertiesOf_plain .notObject value).bind ?_
    rintro _ properties rfl
    exact placeholderTexts_plain used .empty properties

theorem applyOptions_plain (used : List String) (d : Draft) (properties : List Node) :
    Concur Eq (applyOptions used d (properties.map plainProperty))
      (applyOptions used d properties) := by
  induction properties generalizing d with
  | nil => exact .ok rfl
  | cons p ps ih =>
    refine (entryOf_plain .unplainKey p).bind ?_
    rintro _ e rfl
    have htexts : ∀ {d' : Table String String → Draft}, Concur Eq
        (optionTexts used e.plain >>= fun texts =>
          applyOptions used (d' texts) (ps.map plainProperty))
        (optionTexts used e >>= fun texts => applyOptions used (d' texts) ps) := by
      intro d'
      refine (optionTexts_plain used e).bind ?_
      rintro texts _ rfl
      exact ih _
    exact .ite htexts (.ite htexts (ih d))

theorem appendMessageText_plain (d : Draft) (n : Node) :
    Concur Eq (appendMessageText d n.plain) (appendMessageText d n) := by
  refine (textOf_plain n).bind ?_
  rintro text _ rfl
  cases d.appendMessage text with
  | ok d' => exact .ok rfl
  | error => exact .fault _ _ _

theorem declaredBy_plain (others : List Node) :
    Concur Eq (declaredBy (others.map Node.plain)) (declaredBy others) := by
  cases others with
  | nil => exact .ok rfl
  | cons values others =>
    refine (propertiesOf_plain .valuesNotObject values).bind ?_
    rintro _ properties rfl
    exact valueNames_plain [] properties

theorem withOptions_plain (d : Draft) (others : List Node) :
    Concur Eq (withOptions d (others.map Node.plain)) (withOptions d others) := by
  match others with
  | [] | [_] => exact .ok rfl
  | _ :: options :: _ =>
    refine (propertiesOf_plain .optionsNotObject options).bind ?_
    rintro _ properties rfl
    exact applyOptions_plain d.placeholders d properties

theorem ofArguments_cons (d : Draft) (span : Span) (text : Node) (others : List Node) :
    ofArguments d span (text :: others) = do
      let d' ← appendMessageText d text
      let declared ← declaredBy others
      let d'' ← withOptions d' others
      checkPlaceholders d'.placeholders declared span
      return d'' := by
  match others with
  | [] | [_] | _ :: _ :: _ =>
    simp only [ofArguments, declaredBy, withOptions, bind_assoc, pure_bind] <;> rfl

theorem ofArguments_plain (d : Draft) (span span' : Span) (arguments : List Node) :
    Concur Eq (ofArguments d span (arguments.map Node.plain)) (ofArguments d span' arguments) := by
  cases arguments with
  | nil => exact .fault _ _ _
  | cons text others =>
    rw [List.map_cons, ofArguments_cons, ofArguments_cons]
    refine (appendMessageText_plain d text).bind ?_
    rintro mid _ rfl
    refine (declaredBy_plain others).bind ?_
    rintro declared _ rfl
    refine (withOptions_plain mid others).bind ?_
    rintro d' _ rfl
    refine (checkPlaceholders_concur mid.placeholders declared span span').bind ?_
    rintro _ _ -
    exact .ok rfl

theorem findSome?_spreadOf?_plain (arguments : List Node) :
    ((arguments.map Node.plain).findSome? spreadOf?).isSome =
      (arguments.findSome? spreadOf?).isSome := by
  have hspread : ∀ n : Node, (spreadOf? n.plain).isSome = (spreadOf? n).isSome := by
    intro n
    induction n using parts_induction with
    | whole n ih =>
      cases n with
      | paren inner span =>
        have hinner := ih inner (by simp [Node.parts])
        cases inner with
        | spread => rfl
        | _ => exact hinner
      | _ => rfl
  induction arguments with
  | nil => rfl
  | cons n ns ih =>
    have hn := hspread n
    rw [List.map_cons, List.findSome?_cons, List.findSome?_cons]
    cases hplain : spreadOf? n.plain <;> cases hdots : spreadOf? n <;> simp_all

theorem isReferenceTo_plain (callee : Node) (name : String) :
    callee.plain.isReferenceTo name = callee.isReferenceTo name := by
  rw [Node.isReferenceTo, Node.dottedName_plain, Node.isReferenceTo]

theorem ofCall_plain (d : Draft) (value : Node) :
    Concur Eq (ofCall d value.plain) (ofCall d value) := by
  unfold ofCall
  rw [Node.unparenthesized_plain]
  cases hvalue : value.unparenthesized with
  | call callee arguments span =>
    simp only [Node.plain, Node.plainAll_eq, isReferenceTo_plain]
    refine .ite (.fault _ _ _) ?_
    have hspread := findSome?_spreadOf?_plain arguments
    cases hplain : (arguments.map Node.plain).findSome? spreadOf? <;>
      cases hdots : arguments.findSome? spreadOf? <;> rw [hplain, hdots] at hspread
    · exact ofArguments_plain d .nowhere span arguments
    · cases hspread
    · cases hspread
    · exact .fault _ _ _
  | paren inner innerSpan => exact absurd hvalue (Node.unparenthesized_ne_paren value)
  | _ => exact .fault _ _ _

def Value.plain : Value → Value
  | .text node => .text node.plain
  | .function parameters body => .function (parameters.map unplaced) body.plain
  | .call node => .call node.plain

theorem classify_plain (key : String) (value : Node) :
    Concur (fun v v' => v = v'.plain) (classify key value.plain) (classify key value) := by
  unfold classify
  rw [Node.unparenthesized_plain]
  cases hvalue : value.unparenthesized with
  | binary operator left right span => exact .ite (.ok rfl) (.fault _ _ _)
  | paren inner innerSpan => exact absurd hvalue (Node.unparenthesized_ne_paren value)
  | string | template | function | lambda | call => exact .ok rfl
  | _ => exact .fault _ _ _

theorem isAlias_plain (s : Settings) (value : Node) : isAlias s value.plain = isAlias s value := by
  unfold isAlias
  rw [Node.unparenthesized_plain]
  cases hvalue : value.unparenthesized with
  | member base last span =>
    have hname := Node.dottedName_plain (.member base last span)
    simp only [Node.plain] at hname ⊢
    rw [hname]
  | paren inner innerSpan => exact absurd hvalue (Node.unparenthesized_ne_paren value)
  | _ => rfl

variable (env : Surroundings) (site : Site) (d : Draft)

theorem draftOfVariable_plain (value : Node) :
    Concur Eq (draftOfVariable env site d value.plain) (draftOfVariable env site d value) := by
  refine (classify_plain d.displayKey value).bind ?_
  rintro _ v rfl
  cases v with
  | call node => exact ofCall_plain _ node
  | function parameters body =>
    refine Concur.bind (.refl _) ?_
    rintro mid _ rfl
    exact ofFunction_plain mid parameters body
  | text node =>
    refine Concur.bind (.refl _) ?_
    rintro mid _ rfl
    refine (textOf_plain node).bind ?_
    rintro text _ rfl
    exact .ok rfl

theorem draftOf_plain (value : Node) :
    Concur Eq (draftOf env site d value.plain) (draftOf env site d value) := by
  unfold draftOf
  split
  · exact draftOfVariable_plain env site d value
  · exact ofCall_plain _ value

def Outcome.unplaced : Outcome → Outcome
  | .malformed m => .malformed { m with span := .nowhere }
  | outcome => outcome

theorem outcome_withValue (value : Node) :
    (candidateOf env { site with value := some value }).outcome =
      if Name.isMessage (site.oldName env).toList value.unparenthesized.isCall
          env.settings.style then
        if isAlias env.settings value then .ignored
        else if env.settings.style.isStrict ∧ ¬ value.unparenthesized.isCall then .refused
        else
          match draftOf env site (site.draft env) value with
          | .error m => .malformed m
          | .ok d => .defined (d.build env.settings.strategy)
      else .ignored := by
  have hcall : Site.hasCall { site with value := some value } = value.unparenthesized.isCall :=
    (isCall_candidateOf env _).symm
  rw [outcome_candidateOf, Site.namesMessage, hcall]
  rfl

theorem unplaced_outcome_plain (value : Node) :
    (candidateOf env { site with value := some value.plain }).outcome.unplaced =
      (candidateOf env { site with value := some value }).outcome.unplaced := by
  simp only [outcome_withValue, isAlias_plain, Node.isCall_unparenthesized_plain]
  split_ifs
  · rfl
  · rfl
  · have hdraft := draftOf_plain env site (site.draft env) value
    generalize draftOf env site (site.draft env) value.plain = x at hdraft
    generalize draftOf env site (site.draft env) value = y at hdraft
    cases hdraft with
    | ok related => rw [related]
    | error same => rw [Outcome.unplaced, same, Outcome.unplaced]
  · rfl

inductive SameAnswer : Event → Event → Prop
  | pair (span span' : Span) (first second : Message) :
    SameAnswer (.fallback span first second) (.fallback span' first second)
  | badSyntax (context context' : Context) :
    SameAnswer (.issue (.badFallback context)) (.issue (.badFallback context'))
  | unknown (context context' : Context) (reference : String) :
    SameAnswer (.issue (.fallbackArgument context reference))
      (.issue (.fallbackArgument context' reference))

theorem refersTo_plain {argument : Node} {reference : String} :
    RefersTo argument.plain reference ↔ RefersTo argument reference := by
  rw [RefersTo, Node.dottedName_plain, RefersTo]

theorem badSyntax_plain {arguments : List Node} (h : BadSyntax arguments) :
    BadSyntax (arguments.map Node.plain) := by
  rcases h with hlength | ⟨argument, hmem, ⟨value, span, rfl⟩ | hnone⟩
  · exact .inl (by rwa [List.length_map])
  · exact .inr ⟨_, List.mem_map_of_mem hmem, .inl ⟨_, _, rfl⟩⟩
  · exact .inr ⟨_, List.mem_map_of_mem hmem, .inr fun reference h => hnone _ (refersTo_plain.1 h)⟩

theorem fallbackEvent_plain (scopes : Scopes) (registry : Registry) (arguments : List Node)
    (span span' : Span) :
    SameAnswer (fallbackEvent env scopes registry (arguments.map Node.plain) span)
      (fallbackEvent env scopes registry arguments span') := by
  have hanswer := answer_iff.2 (rfl : fallbackEvent env scopes registry arguments span' = _)
  generalize fallbackEvent env scopes registry arguments span' = event at hanswer
  cases hanswer with
  | badSyntax bad =>
    rw [← answer_iff.1 (.badSyntax (badSyntax_plain bad))]
    exact .badSyntax _ _
  | firstUnknown ha hb unknown =>
    rw [List.map_cons, List.map_cons, List.map_nil,
      ← answer_iff.1 (.firstUnknown (refersTo_plain.2 ha) (refersTo_plain.2 hb) unknown)]
    exact .unknown _ _ _
  | secondUnknown ha hb known unknown =>
    rw [List.map_cons, List.map_cons, List.map_nil,
      ← answer_iff.1 (.secondUnknown (refersTo_plain.2 ha) (refersTo_plain.2 hb) known unknown)]
    exact .unknown _ _ _
  | pair ha hb hm hm' =>
    rw [List.map_cons, List.map_cons, List.map_nil,
      ← answer_iff.1 (.pair (refersTo_plain.2 ha) (refersTo_plain.2 hb) hm hm')]
    exact .pair _ _ _ _

theorem SameAnswer.of_common {e e' e'' : Event} (h : SameAnswer e e') (h' : SameAnswer e e'') :
    SameAnswer e' e'' := by
  cases h with
  | pair =>
    cases h'
    exact .pair _ _ _ _
  | badSyntax =>
    cases h'
    exact .badSyntax _ _
  | unknown =>
    cases h'
    exact .unknown _ _ _

theorem fallbackCall?_plain (value : Node) :
    fallbackCall? value.plain.unparenthesized =
      (fallbackCall? value.unparenthesized).map fun call => (call.1.map Node.plain, .nowhere) := by
  rw [Node.unparenthesized_plain]
  cases hvalue : value.unparenthesized with
  | call callee arguments span =>
    rw [Node.plain, Node.plainAll_eq, fallbackCall?, fallbackCall?, Node.dottedName_plain]
    split_ifs <;> rfl
  | paren inner innerSpan => exact absurd hvalue (Node.unparenthesized_ne_paren value)
  | _ => rfl

/-- Two values that differ in nothing but places and parentheses are both calls or neither is, both
repeat a message or neither does, and are of one shape. They are read into the same draft or have
the same fault, so that the same becomes of their sites. As calls of the fallback function, they
come to the same. -/
theorem read_alike_of_plain_eq {v v' : Node} (h : v.plain = v'.plain) :
    v.unparenthesized.isCall = v'.unparenthesized.isCall ∧
      (∀ s, isAlias s v = isAlias s v') ∧
      (∀ key, Concur (fun x y => x.plain = y.plain) (classify key v) (classify key v')) ∧
      (∀ (env : Surroundings) (site : Site) (d : Draft),
        Concur Eq (draftOf env site d v) (draftOf env site d v')) ∧
      (∀ (env : Surroundings) (site : Site),
        (candidateOf env { site with value := some v }).outcome.unplaced =
        (candidateOf env { site with value := some v' }).outcome.unplaced) ∧
      ∀ arguments span, fallbackCall? v.unparenthesized = some (arguments, span) →
        ∃ arguments' span', fallbackCall? v'.unparenthesized = some (arguments', span') ∧
          ∀ (env : Surroundings) (scopes : Scopes) (registry : Registry),
            SameAnswer (fallbackEvent env scopes registry arguments span)
              (fallbackEvent env scopes registry arguments' span') := by
  refine ⟨?_, fun s => ?_, fun key => ?_, fun env site d => ?_, fun env site => ?_, ?_⟩
  · rw [← Node.isCall_unparenthesized_plain, h, Node.isCall_unparenthesized_plain]
  · rw [← isAlias_plain, h, isAlias_plain]
  · have hplain := classify_plain key v
    rw [h] at hplain
    exact hplain.of_common (classify_plain key v') fun _ _ _ hx hy => hx.symm.trans hy
  · have hplain := draftOf_plain env site d v
    rw [h] at hplain
    exact hplain.of_common (draftOf_plain env site d v') fun _ _ _ hx hy => hx.symm.trans hy
  · rw [← unplaced_outcome_plain, h, unplaced_outcome_plain]
  · intro arguments span hcall
    have hsame := fallbackCall?_plain v
    rw [h, fallbackCall?_plain v', hcall] at hsame
    obtain ⟨⟨arguments', span'⟩, hcall', harguments⟩ := Option.map_eq_some_iff.1 hsame
    refine ⟨arguments', span', hcall', fun env scopes registry => ?_⟩
    have hplain := fallbackEvent_plain env scopes registry arguments span span
    rw [← (Prod.mk.inj harguments).1] at hplain
    exact hplain.of_common (fallbackEvent_plain env scopes registry arguments' span span')

section Greeting

/-- `goog.getMsg('Hi ' + '{$name}', {name: x}, {example: {name: 'U'}})` -/
def ungrouped : Node :=
  let text := Node.binary "+" (.string (some "Hi ") ⟨12, 17⟩)
    (.string (some "\x7b$name\x7d") ⟨20, 29⟩) ⟨12, 29⟩
  let values := Node.object [.property (.name "name" ⟨32, 36⟩) (.name "x" ⟨38, 39⟩) ⟨32, 39⟩]
    ⟨31, 40⟩
  let examples := Node.object
    [.property (.name "name" ⟨53, 57⟩) (.string (some "U") ⟨59, 62⟩) ⟨53, 62⟩] ⟨52, 63⟩
  .call (.member (.name "goog" ⟨0, 4⟩) "getMsg" ⟨0, 11⟩)
    [text, values, .object [.property (.name "example" ⟨43, 50⟩) examples ⟨43, 63⟩] ⟨42, 64⟩]
    ⟨0, 65⟩

/-- The same call, as
`(goog.getMsg)(('Hi ' + ('{$name}')), {name: (x)}, {example: ({name: ('U')})})`. -/
def grouped : Node :=
  let text := Node.paren (.binary "+" (.string (some "Hi ") ⟨15, 20⟩)
    (.paren (.string (some "\x7b$name\x7d") ⟨24, 33⟩) ⟨23, 34⟩) ⟨15, 34⟩) ⟨14, 35⟩
  let values := Node.object
    [.property (.name "name" ⟨38, 42⟩) (.paren (.name "x" ⟨45, 46⟩) ⟨44, 47⟩) ⟨38, 47⟩] ⟨37, 48⟩
  let examples := Node.paren (.object [.property (.name "name" ⟨62, 66⟩)
    (.paren (.string (some "U") ⟨69, 72⟩) ⟨68, 73⟩) ⟨62, 73⟩] ⟨61, 74⟩) ⟨60, 75⟩
  .call (.paren (.member (.name "goog" ⟨1, 5⟩) "getMsg" ⟨1, 12⟩) ⟨0, 13⟩)
    [text, values, .object [.property (.name "example" ⟨51, 58⟩) examples ⟨51, 75⟩] ⟨50, 76⟩]
    ⟨0, 77⟩

def greetingSite : Surroundings × Site :=
  (⟨{}, 0, ⟨"a.js", [], ⟨false, []⟩, []⟩⟩, ⟨.assignment, "MSG_A", none, ⟨0, 0⟩, [], []⟩)

theorem read_alike_of_plain_eq_greeting :
    grouped.plain = ungrouped.plain ∧
      ∀ value ∈ [grouped, ungrouped], draftOf greetingSite.1 greetingSite.2 {} value = .ok
        { parts := [.text "Hi ", .placeholder "name"]
          examples := Table.empty.insert "name" "U" } := by
  have hplain : grouped.plain = ungrouped.plain := rfl
  have hread : draftOf greetingSite.1 greetingSite.2 {} ungrouped = .ok
      { parts := [.text "Hi ", .placeholder "name"]
        examples := Table.empty.insert "name" "U" } := by decide +kernel
  obtain ⟨-, -, -, hsame, -⟩ := read_alike_of_plain_eq hplain
  have hgrouped := (hsame greetingSite.1 greetingSite.2 {}).eq_ok_iff.2 hread
  exact ⟨hplain, by simp [hgrouped, hread]⟩

end Greeting

end Definition
end MessageCatalog
