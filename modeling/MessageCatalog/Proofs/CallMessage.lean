import MessageCatalog.Proofs.Run
import MessageCatalog.Proofs.SiteOutcome

/-! Messages read from calls of the message function: the placeholders of the text are exactly the
names that the second argument declares, and the text can be read back from the parts. -/

namespace MessageCatalog
open Script (Node Span)

namespace Definition

def propertyName? (property : Node) : Option String := Option.map Entry.name <| entry? property

def givenNames? : List Node → Option (List String)
  | [] => some []
  | values :: _ =>
    match values.unparenthesized with
    | .object properties _ => properties.mapM propertyName?
    | _ => none

/-- How the message of a call agrees with its text and with the names that it gives. -/
structure Balanced (message : Message) (text : Node) (given : List String) : Prop where
  names : ∀ name, .placeholder name ∈ message.parts ↔ name ∈ given
  camelCase : ∀ name ∈ given, Name.isPlaceholder name.toList
  examples : ∀ name, message.examples.contains name → .placeholder name ∈ message.parts
  code : ∀ name, message.code.contains name → .placeholder name ∈ message.parts
  filled : ∀ value, .text value ∈ message.parts → value ≠ ""
  apart : message.parts.IsChain fun p q => ¬ (p.isText ∧ q.isText)
  text : textOf text = .ok message.text
  cut : Part.parse message.text = .ok message.parts

theorem textOf_binary_eq_ok {operator text : String} {left right : Node} {span : Span} :
    textOf (.binary operator left right span) = .ok text ↔
      operator = "+" ∧ ∃ l r, textOf left = .ok l ∧ textOf right = .ok r ∧ l ++ r = text := by
  rw [textOf]
  split_ifs with hplus
  · cases textOf left <;> cases textOf right <;> simp [hplus]
  · simp [hplus]

theorem entryOf_eq_ok {f : Fault} {property : Node} {entry : Entry} :
    entryOf f property = .ok entry ↔ entry? property = some entry := by
  unfold entryOf
  cases entry? property <;> simp

theorem propertiesOf_eq_ok {f : Fault} {node : Node} {properties : List Node}
    (h : propertiesOf f node = .ok properties) :
    ∃ span, node.unparenthesized = .object properties span := by
  unfold propertiesOf at h
  split at h
  · next span hnode =>
    cases h
    exact ⟨span, hnode⟩
  · exact absurd h (fault_ne_ok _ _ _)

theorem valueNames_eq_ok {seen names : List String} {properties : List Node}
    (h : valueNames seen properties = .ok names) :
    ∃ given, properties.mapM propertyName? = some given ∧ names = seen ++ given ∧
      ∀ name ∈ given, Name.isPlaceholder name.toList := by
  induction properties generalizing seen with
  | nil =>
    cases h
    exact ⟨[], by simp⟩
  | cons property rest ih =>
    obtain ⟨entry, hentry, h⟩ := bind_eq_ok.1 h
    have hname : propertyName? property = some entry.name := by
      rw [propertyName?, entryOf_eq_ok.1 hentry, Option.map_some]
    split_ifs at h with hcamel
    · exact absurd h (fault_ne_ok _ _ _)
    · exact absurd h (fault_ne_ok _ _ _)
    · obtain ⟨given, hgiven, hnames, hrest⟩ := ih h
      refine ⟨entry.name :: given, by simp [hname, hgiven], by simp [hnames], ?_⟩
      rintro name (_ | ⟨_, hmem⟩)
      · simpa using hcamel
      · exact hrest name hmem

theorem declaredBy_eq_ok {rest : List Node} {names : List String}
    (h : declaredBy rest = .ok names) :
    givenNames? rest = some names ∧ ∀ name ∈ names, Name.isPlaceholder name.toList := by
  cases rest with
  | nil =>
    cases h
    simp [givenNames?]
  | cons values others =>
    obtain ⟨properties, hproperties, h⟩ := bind_eq_ok.1 h
    obtain ⟨span, hvalues⟩ := propertiesOf_eq_ok hproperties
    obtain ⟨given, hgiven, rfl, hcamel⟩ := valueNames_eq_ok h
    simp only [givenNames?, hvalues]
    exact ⟨hgiven, hcamel⟩

theorem checkPlaceholders_eq_ok {used declared : List String} {span : Span}
    (h : checkPlaceholders used declared span = .ok ()) (name : String) :
    name ∈ used ↔ name ∈ declared := by
  unfold checkPlaceholders at h
  split at h
  · exact absurd h (fault_ne_ok _ _ _)
  · next hused =>
    split at h
    · exact absurd h (fault_ne_ok _ _ _)
    · next hdeclared =>
      rw [List.find?_eq_none] at hused hdeclared
      exact ⟨fun hn => by simpa using hused name hn, fun hn => by simpa using hdeclared name hn⟩

theorem checkPlaceholders_eq_ok_iff {used declared : List String} {span : Span} :
    checkPlaceholders used declared span = .ok () ↔ ∀ x, x ∈ used ↔ x ∈ declared := by
  refine ⟨checkPlaceholders_eq_ok, fun hiff => ?_⟩
  have hused : used.find? (!declared.contains ·) = none := by simp [← hiff]
  have hdeclared : declared.find? (!used.contains ·) = none := by simp [hiff]
  rw [checkPlaceholders, hused, hdeclared]

def AreFor (used : List String) (d : Draft) : Prop :=
  ∀ name, d.examples.contains name ∨ d.code.contains name → name ∈ used

theorem contains_insert {t : Table String String} {key name value : String} :
    (t.insert key value).contains name ↔ key = name ∨ t.contains name := by
  unfold Table.contains
  rw [Table.find?_insert]
  by_cases h : key = name <;> simp [h]

def Entry.Quotes (e : Entry) (text : String) : Prop :=
  ∃ span, e.value.map Node.unparenthesized = some (.string (some text) span)

theorem placeholderTexts_cons_eq_ok {used : List String} {texts texts' : Table String String}
    {property : Node} {rest : List Node} :
    placeholderTexts used texts (property :: rest) = .ok texts' ↔
      ∃ e text, entry? property = some e ∧ e.Quotes text ∧ e.name ∈ used ∧
        ¬ texts.contains e.name ∧
        placeholderTexts used (texts.insert e.name text) rest = .ok texts' := by
  rw [placeholderTexts, bind_eq_ok]
  simp only [entryOf_eq_ok, exists_and_left]
  refine exists_congr fun e => and_congr_right fun _ => ?_
  unfold Entry.Quotes
  split
  · next text span hvalue =>
    rw [hvalue]
    split_ifs <;> simp_all
  · next hother =>
    refine iff_of_false (fault_ne_ok _ _ _) ?_
    rintro ⟨text, ⟨span, hvalue⟩, -⟩
    exact hother text span hvalue

theorem placeholderTexts_eq_ok {used : List String} {texts texts' : Table String String}
    {properties : List Node} (h : placeholderTexts used texts properties = .ok texts')
    (htexts : ∀ name, texts.contains name → name ∈ used) :
    ∀ name, texts'.contains name → name ∈ used := by
  induction properties generalizing texts with
  | nil =>
    cases h
    exact htexts
  | cons property rest ih =>
    obtain ⟨entry, -, h⟩ := bind_eq_ok.1 h
    split at h
    · split_ifs at h with hused
      · exact absurd h (fault_ne_ok _ _ _)
      · exact absurd h (fault_ne_ok _ _ _)
      · refine ih h fun name hname => ?_
        rcases contains_insert.1 hname with rfl | hname
        · simpa using hused
        · exact htexts name hname
    · exact absurd h (fault_ne_ok _ _ _)

theorem optionTexts_eq_ok {used : List String} {entry : Entry} {texts : Table String String}
    (h : optionTexts used entry = .ok texts) : ∀ name, texts.contains name → name ∈ used := by
  unfold optionTexts at h
  split at h
  · exact absurd h (fault_ne_ok _ _ _)
  · obtain ⟨properties, -, h⟩ := bind_eq_ok.1 h
    exact placeholderTexts_eq_ok h (by simp [Table.contains])

theorem applyOptions_areFor {used : List String} {d d' : Draft} {properties : List Node}
    (h : applyOptions used d properties = .ok d') (hd : AreFor used d) : AreFor used d' := by
  induction properties generalizing d with
  | nil =>
    cases h
    exact hd
  | cons property rest ih =>
    obtain ⟨entry, -, h⟩ := bind_eq_ok.1 h
    split_ifs at h
    · obtain ⟨texts, htexts, h⟩ := bind_eq_ok.1 h
      refine ih h fun name hname => ?_
      rcases hname with hexample | hcode
      · exact hd name (.inl hexample)
      · exact optionTexts_eq_ok htexts name hcode
    · obtain ⟨texts, htexts, h⟩ := bind_eq_ok.1 h
      refine ih h fun name hname => ?_
      rcases hname with hexample | hcode
      · exact optionTexts_eq_ok htexts name hexample
      · exact hd name (.inr hcode)
    · exact ih h hd

theorem withOptions_areFor {d d' : Draft} {rest : List Node} (h : withOptions d rest = .ok d')
    (hd : AreFor d.placeholders d) : AreFor d.placeholders d' := by
  unfold withOptions at h
  split at h
  · obtain ⟨properties, -, h⟩ := bind_eq_ok.1 h
    exact applyOptions_areFor h hd
  · cases h
    exact hd

structure Blank (d : Draft) : Prop where
  parts : d.parts = []
  examples : d.examples = .empty
  code : d.code = .empty

theorem ofArguments_balanced {d d' : Draft} {span : Span} {text : Node} {rest : List Node}
    (hd : Blank d) (h : ofArguments d span (text :: rest) = .ok d') (generator : IdGenerator) :
    ∃ given, givenNames? rest = some given ∧ Balanced (d'.build generator) text given := by
  obtain ⟨mid, declared, hmid, hdeclared, hoptions, hcheck⟩ := ofArguments_eq_ok.1 h
  obtain ⟨t, htext, happend⟩ := appendMessageText_eq_ok.1 hmid
  obtain ⟨parts, hparse, rfl⟩ := (Draft.appendMessage_eq_ok hd.parts).1 happend
  obtain ⟨hgiven, hcamel⟩ := declaredBy_eq_ok hdeclared
  have hparts : (d'.build generator).parts = parts := (withOptions_filled hoptions).2
  have hcuts := Part.parse_eq_ok_iff_cuts.1 hparse
  have htextOf : (d'.build generator).text = t := by
    rw [Message.text, hparts, Part.textOf_eq_iff, hcuts.renderAll_eq]
  -- The options see the placeholders of the text, which they do not change any more.
  have hareFor : AreFor (Part.placeholders parts) d' :=
    withOptions_areFor hoptions (by simp [AreFor, Table.contains, hd.examples, hd.code])
  refine ⟨declared, hgiven, ?_⟩
  constructor
  · intro name
    rw [hparts, ← Part.mem_placeholders]
    exact checkPlaceholders_eq_ok hcheck name
  · exact hcamel
  · intro name hname
    rw [hparts, ← Part.mem_placeholders]
    exact hareFor name (.inl hname)
  · intro name hname
    rw [hparts, ← Part.mem_placeholders]
    exact hareFor name (.inr hname)
  · rw [hparts]
    exact hcuts.canonical.filled
  · rw [hparts]
    exact hcuts.canonical.apart
  · rw [htextOf, htext]
  · rw [htextOf, hparts, hparse]

theorem findSome_spreadOf_eq_none {arguments : List Node} :
    arguments.findSome? spreadOf? = none ↔
      ∀ argument ∈ arguments, ∀ inner dots, argument ≠ .spread inner dots := by
  rw [List.findSome?_eq_none_iff]
  refine forall₂_congr fun argument _ => ?_
  cases argument <;> simp [spreadOf?]

theorem ofCall_eq_ok {d d' : Draft} {value : Node} :
    ofCall d value = .ok d' ↔
      ∃ callee text rest span, value.unparenthesized = .call callee (text :: rest) span ∧
        callee.isReferenceTo Name.messageFunction ∧
        (∀ argument ∈ text :: rest, ∀ inner dots, argument ≠ .spread inner dots) ∧
        ofArguments d span (text :: rest) = .ok d' := by
  unfold ofCall
  constructor
  · intro h
    split at h
    · next callee arguments span hvalue =>
      split_ifs at h with hcallee
      · exact absurd h (fault_ne_ok _ _ _)
      · split at h
        · exact absurd h (fault_ne_ok _ _ _)
        · next hspread =>
          cases arguments with
          | nil => exact absurd h (fault_ne_ok _ _ _)
          | cons text rest =>
            exact ⟨callee, text, rest, span, hvalue, by simpa using hcallee,
              findSome_spreadOf_eq_none.1 hspread, h⟩
    · exact absurd h (fault_ne_ok _ _ _)
  · rintro ⟨callee, text, rest, span, hvalue, hcallee, hspread, h⟩
    simp only [hvalue, hcallee, findSome_spreadOf_eq_none.2 hspread, h]
    rfl

theorem Blank.annotate {d : Draft} (h : Blank d) (env : Surroundings) (site : Site) :
    Blank (env.annotate site d) := by
  unfold Surroundings.annotate
  split
  · exact ⟨h.parts, h.examples, h.code⟩
  · exact h

theorem draftOf_call {env : Surroundings} {site : Site} {d : Draft} {value : Node}
    (hcall : value.unparenthesized.isCall) :
    draftOf env site d value = ofCall (env.annotate site d) value := by
  cases hvalue : value.unparenthesized with
  | call callee arguments span =>
    unfold draftOf
    split
    · simp [draftOfVariable, classify, hvalue, bind, Except.bind, ofCall, Node.unparenthesized]
    · rfl
  | _ => simp [hvalue, Node.isCall] at hcall

theorem defined_balanced {env : Surroundings} {site : Site} {value callee : Node}
    {arguments : List Node} {span : Span} {message : Message}
    (houtcome : (candidateOf env site).outcome = .defined message)
    (hvalue : site.value = some value)
    (hcall : value.unparenthesized = .call callee arguments span) :
    callee.isReferenceTo Name.messageFunction ∧
      ∃ text rest given, arguments = text :: rest ∧ givenNames? rest = some given ∧
        Balanced message text given := by
  have hverdict := verdict_outcome env site
  rw [houtcome] at hverdict
  obtain ⟨value', ⟨-, hvalue', -⟩, -, d, hd, rfl⟩ := hverdict
  obtain rfl : value = value' := Option.some.inj (hvalue.symm.trans hvalue')
  rw [draftOf_call (by rw [hcall]; rfl)] at hd
  obtain ⟨callee', text, rest, span', hcall', hcallee, -, hd⟩ := ofCall_eq_ok.1 hd
  rw [hcall] at hcall'
  cases hcall'
  have hblank : Blank (site.draft env) := ⟨rfl, rfl, rfl⟩
  obtain ⟨given, hgiven, hbalanced⟩ := ofArguments_balanced (hblank.annotate env site) hd _
  exact ⟨hcallee, text, rest, given, rfl, hgiven, hbalanced⟩

/-- Every message that a run forwards, if it was read from a call, agrees with that call. -/
theorem forwarded_balanced (settings : Settings) (c : Compilation) :
    (run settings c).filterMap Event.message? = (forwarded settings c).map Forwarded.event ∧
      ∀ f ∈ forwarded settings c, ∀ callee arguments span,
        f.value.unparenthesized = .call callee arguments span →
          callee.isReferenceTo Name.messageFunction ∧
            ∃ text rest given, arguments = text :: rest ∧ givenNames? rest = some given ∧
              Balanced f.message text given := by
  refine ⟨filterMap_message_run settings c, fun f hf callee arguments span hcall => ?_⟩
  obtain ⟨-, hvalue, houtcome⟩ := mem_forwarded hf
  exact defined_balanced houtcome hvalue hcall

/-- `var MSG_A = goog.getMsg('Hi {$name}', {name: x});` -/
def greeting : Source where
  path := "a.js"
  text := "var MSG_A = goog.getMsg('Hi \x7b$name\x7d', \x7bname: x\x7d);".toList
  program :=
    let callee := Node.member (.name "goog" ⟨12, 16⟩) "getMsg" ⟨12, 23⟩
    let value := Node.property (.name "name" ⟨39, 43⟩) (.name "x" ⟨45, 46⟩) ⟨39, 46⟩
    let text := Node.string (some "Hi \x7b$name\x7d") ⟨24, 36⟩
    let call := Node.call callee [text, .object [value] ⟨38, 47⟩] ⟨12, 48⟩
    ⟨false, [.declarations .var [.declarator (.name "MSG_A" ⟨4, 9⟩) (some call) ⟨4, 48⟩] ⟨0, 49⟩]⟩
  comments := []

theorem forwarded_balanced_greeting :
    ∃ f ∈ forwarded {} ⟨[], [greeting], []⟩,
      f.message.parts = [.text "Hi ", .placeholder "name"] ∧
        ∃ text given, Balanced f.message text given := by
  have hparts : ∃ f ∈ forwarded {} ⟨[], [greeting], []⟩,
      f.message.parts = [.text "Hi ", .placeholder "name"] ∧ f.value.unparenthesized.isCall := by
    decide +kernel
  obtain ⟨f, hf, hparts, hcall⟩ := hparts
  refine ⟨f, hf, hparts, ?_⟩
  cases hvalue : f.value.unparenthesized with
  | call callee arguments span =>
    obtain ⟨-, text, rest, given, -, -, hbalanced⟩ :=
      (forwarded_balanced {} ⟨[], [greeting], []⟩).2 f hf callee arguments span hvalue
    exact ⟨text, given, hbalanced⟩
  | _ => simp [hvalue, Node.isCall] at hcall

end Definition

end MessageCatalog
