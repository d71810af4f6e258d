import MessageCatalog.Proofs.CallMessage

/-! Which values the message function accepts, told by the form of the call alone: a value is read
into a message just if it has this form. -/

namespace MessageCatalog.Definition
open Script (Node Span)

inductive Spells : Node → String → Prop
  | string (text : String) (span : Span) : Spells (.string (some text) span) text
  | template (text : String) (span : Span) : Spells (.template (some text) [] span) text
  | joined {left right : Node} {l r : String} (span : Span) :
    Spells left l → Spells right r → Spells (.binary "+" left right span) (l ++ r)
  | grouped {inner : Node} {text : String} (span : Span) :
    Spells inner text → Spells (.paren inner span) text

theorem Spells.textOf {node : Node} {text : String} (h : Spells node text) :
    textOf node = .ok text := by
  induction h with
  | string | template => rfl
  | joined span _ _ ihl ihr => exact textOf_binary_eq_ok.2 ⟨rfl, _, _, ihl, ihr, rfl⟩
  | grouped span _ ih => exact ih

theorem textOf_eq_ok_iff_spells {node : Node} {text : String} :
    textOf node = .ok text ↔ Spells node text := by
  refine ⟨fun h => ?_, Spells.textOf⟩
  fun_induction MessageCatalog.Definition.textOf node generalizing text with
  | case1 value span =>
    cases h
    exact .string value span
  | case4 value span =>
    cases h
    exact .template value span
  | case8 left right span l hl r hr ihl ihr =>
    cases h
    exact .joined span (ihl hl) (ihr hr)
  | case10 inner span ih => exact .grouped span (ih h)
  | case6 | case7 => cases h
  | _ => exact absurd h (fault_ne_ok _ _ _)

inductive Keyed : Node → Option String → Option Node → Prop
  | named (key : String) (value : Node) (keySpan span : Span) :
    Keyed (.property (.name key keySpan) value span) (some key) (some value)
  | quoted (key : Option String) (value : Node) (keySpan span : Span) :
    Keyed (.property (.string key keySpan) value span) key (some value)
  | shorthand (key : String) (span : Span) : Keyed (.name key span) (some key) none

theorem keyed_iff_entry {property : Node} {key : String} {value : Option Node} :
    Keyed property (some key) value ↔
      ∃ entry, entry? property = some entry ∧ entry.name = key ∧ entry.value = value := by
  constructor
  · intro h
    cases h with
    | named | quoted | shorthand => exact ⟨_, rfl, rfl, rfl⟩
  · rintro ⟨entry, hentry, rfl, rfl⟩
    unfold entry? at hentry
    split at hentry
    · cases hentry
      exact .named ..
    · cases hentry
      exact .quoted ..
    · cases hentry
      exact .shorthand ..
    · cases hentry

def HasProperties (node : Node) (properties : List Node) : Prop :=
  ∃ span, node.unparenthesized = .object properties span

theorem propertiesOf_eq_ok_iff {f : Fault} {node : Node} {properties : List Node} :
    propertiesOf f node = .ok properties ↔ HasProperties node properties := by
  refine ⟨propertiesOf_eq_ok, fun ⟨span, hnode⟩ => ?_⟩
  rw [propertiesOf, hnode]

def HasName (property : Node) (name : String) : Prop := ∃ value, Keyed property (some name) value

theorem hasName_iff_entry {property : Node} {name : String} :
    HasName property name ↔ ∃ entry, entry? property = some entry ∧ entry.name = name := by
  simp only [HasName, keyed_iff_entry]
  exact ⟨fun ⟨_, entry, hentry, hname, _⟩ => ⟨entry, hentry, hname⟩,
    fun ⟨entry, hentry, hname⟩ => ⟨_, entry, hentry, hname, rfl⟩⟩

structure DeclaresNames (node : Node) (names : List String) : Prop where
  named : ∃ properties, HasProperties node properties ∧ List.Forall₂ HasName properties names
  camelCase : ∀ name ∈ names, Name.isPlaceholder name.toList
  nodup : names.Nodup

theorem valueNames_cons_eq_ok {seen names : List String} {property : Node} {rest : List Node} :
    valueNames seen (property :: rest) = .ok names ↔
      ∃ entry, entry? property = some entry ∧ Name.isPlaceholder entry.name.toList ∧
        entry.name ∉ seen ∧ valueNames (seen ++ [entry.name]) rest = .ok names := by
  rw [valueNames, bind_eq_ok]
  simp only [entryOf_eq_ok]
  refine exists_congr fun entry => and_congr_right fun _ => ?_
  split_ifs <;> simp_all

theorem valueNames_eq_ok_iff {seen names : List String} {properties : List Node} :
    valueNames seen properties = .ok names ↔
      ∃ given, names = seen ++ given ∧ List.Forall₂ HasName properties given ∧
        (∀ name ∈ given, Name.isPlaceholder name.toList) ∧ given.Nodup ∧ seen.Disjoint given := by
  induction properties generalizing seen with
  | nil =>
    constructor
    · intro h
      cases h
      exact ⟨[], by simp⟩
    · rintro ⟨given, rfl, hnames, -⟩
      cases hnames
      rw [valueNames, List.append_nil]
  | cons property rest ih =>
    simp only [valueNames_cons_eq_ok, ih]
    constructor
    · rintro ⟨entry, hentry, hcamel, hnew, given, rfl, hnames, hcamels, hnodup, hdisjoint⟩
      obtain ⟨hseen, hown⟩ := List.disjoint_append_left.1 hdisjoint
      rw [List.singleton_disjoint] at hown
      have hname : HasName property entry.name := hasName_iff_entry.2 ⟨entry, hentry, rfl⟩
      exact ⟨entry.name :: given, by simp, .cons hname hnames,
        List.forall_mem_cons.2 ⟨hcamel, hcamels⟩, List.nodup_cons.2 ⟨hown, hnodup⟩,
        List.disjoint_cons_right.2 ⟨hnew, hseen⟩⟩
    · rintro ⟨_, rfl, hnames, hcamel, hnodup, hdisjoint⟩
      cases hnames with
      | cons hname hnames =>
        obtain ⟨entry, hentry, rfl⟩ := hasName_iff_entry.1 hname
        obtain ⟨hcamel, hcamels⟩ := List.forall_mem_cons.1 hcamel
        obtain ⟨hown, hnodup⟩ := List.nodup_cons.1 hnodup
        obtain ⟨hnew, hseen⟩ := List.disjoint_cons_right.1 hdisjoint
        exact ⟨entry, hentry, hcamel, hnew, _, by simp, hnames, hcamels, hnodup,
          List.disjoint_append_left.2 ⟨hseen, List.singleton_disjoint.2 hown⟩⟩

theorem declaredBy_eq_ok_iff {rest : List Node} {names : List String} :
    declaredBy rest = .ok names ↔
      (rest = [] → names = []) ∧ ∀ values ∈ rest[0]?, DeclaresNames values names := by
  cases rest with
  | nil => simp [declaredBy, eq_comm]
  | cons values others =>
    simp only [declaredBy, bind_eq_ok, propertiesOf_eq_ok_iff, valueNames_eq_ok_iff]
    constructor
    · rintro ⟨properties, hproperties, names, rfl, hnames, hcamel, hnodup, -⟩
      refine ⟨fun hnil => absurd hnil (List.cons_ne_nil _ _), fun _ hvalues => ?_⟩
      cases hvalues
      exact ⟨⟨properties, hproperties, hnames⟩, hcamel, hnodup⟩
    · rintro ⟨-, hvalues⟩
      obtain ⟨⟨properties, hproperties, hnames⟩, hcamel, hnodup⟩ := hvalues values rfl
      exact ⟨properties, hproperties, names, rfl, hnames, hcamel, hnodup, List.disjoint_nil_left _⟩

section Options
variable (readable : Option String → Prop)

def Quotes (property : Node) (name : String) : Prop :=
  ∃ value text span, Keyed property (some name) (some value) ∧
    value.unparenthesized = .string text span ∧ readable text

def IsPlaceholderMap (parts : List Part) (node : Node) : Prop :=
  ∃ properties names, HasProperties node properties ∧
    List.Forall₂ (Quotes readable) properties names ∧ names.Nodup ∧
      ∀ name ∈ names, .placeholder name ∈ parts

def AreOptions (parts : List Part) (node : Node) : Prop :=
  ∃ properties, HasProperties node properties ∧
    ∀ property ∈ properties, ∃ key value, Keyed property key value ∧ readable key ∧
      (key = some "original_code" ∨ key = some "example" →
        ∃ map, value = some map ∧ IsPlaceholderMap readable parts map)

end Options

theorem quotes_iff_entry {property : Node} {name : String} :
    Quotes (·.isSome) property name ↔
      ∃ entry text, entry? property = some entry ∧ entry.Quotes text ∧ entry.name = name := by
  unfold Quotes Entry.Quotes
  constructor
  · rintro ⟨value, text, span, hkeyed, hvalue, htext⟩
    obtain ⟨text, rfl⟩ := Option.isSome_iff_exists.1 htext
    obtain ⟨entry, hentry, hname, hentryValue⟩ := keyed_iff_entry.1 hkeyed
    exact ⟨entry, text, hentry, ⟨span, by rw [hentryValue, Option.map_some, hvalue]⟩, hname⟩
  · rintro ⟨entry, text, hentry, ⟨span, hvalue⟩, hname⟩
    obtain ⟨value, hentryValue, hvalue⟩ := Option.map_eq_some_iff.1 hvalue
    exact ⟨value, some text, span, keyed_iff_entry.2 ⟨entry, hentry, hname, hentryValue⟩, hvalue,
      rfl⟩

theorem placeholderTexts_isOk_iff {used : List String} {texts : Table String String}
    {properties : List Node} :
    (∃ texts', placeholderTexts used texts properties = .ok texts') ↔
      ∃ names, List.Forall₂ (Quotes (·.isSome)) properties names ∧ names.Nodup ∧
        ∀ name ∈ names, name ∈ used ∧ ¬ texts.contains name := by
  induction properties generalizing texts with
  | nil => simp [placeholderTexts]
  | cons property rest ih =>
    constructor
    · rintro ⟨texts', h⟩
      obtain ⟨entry, text, hentry, htext, hused, hnew, h⟩ := placeholderTexts_cons_eq_ok.1 h
      obtain ⟨names, hnames, hnodup, hrest⟩ := ih.1 ⟨texts', h⟩
      have hquotes : Quotes (·.isSome) property entry.name :=
        quotes_iff_entry.2 ⟨entry, text, hentry, htext, rfl⟩
      have hown : entry.name ∉ names := fun hmem =>
        (hrest _ hmem).2 (contains_insert.2 (.inl rfl))
      refine ⟨entry.name :: names, .cons hquotes hnames, List.nodup_cons.2 ⟨hown, hnodup⟩, ?_⟩
      refine List.forall_mem_cons.2 ⟨⟨hused, hnew⟩, fun name hname => ?_⟩
      exact ⟨(hrest name hname).1, fun h => (hrest name hname).2 (contains_insert.2 (.inr h))⟩
    · rintro ⟨_, hnames, hnodup, hall⟩
      cases hnames with
      | @cons _ _ _ names hquotes hnames =>
        obtain ⟨entry, text, hentry, htext, rfl⟩ := quotes_iff_entry.1 hquotes
        obtain ⟨⟨hused, hnew⟩, hrest⟩ := List.forall_mem_cons.1 hall
        obtain ⟨hown, hnodup⟩ := List.nodup_cons.1 hnodup
        have hinserted : ∀ name ∈ names,
            name ∈ used ∧ ¬ (texts.insert entry.name text).contains name := by
          intro name hname
          refine ⟨(hrest name hname).1, fun h => ?_⟩
          rcases contains_insert.1 h with rfl | h
          · exact hown hname
          · exact (hrest name hname).2 h
        obtain ⟨texts', h⟩ := ih.2 ⟨_, hnames, hnodup, hinserted⟩
        exact ⟨texts', placeholderTexts_cons_eq_ok.2 ⟨entry, text, hentry, htext, hused, hnew, h⟩⟩

theorem optionTexts_isOk_iff {parts : List Part} {entry : Entry} :
    (∃ texts, optionTexts (Part.placeholders parts) entry = .ok texts) ↔
      ∃ map, entry.value = some map ∧ IsPlaceholderMap (·.isSome) parts map := by
  unfold optionTexts
  cases entry.value with
  | none => simp
  | some value =>
    simp only [bind_eq_ok, propertiesOf_eq_ok_iff, Option.some.injEq, exists_eq_left',
      IsPlaceholderMap, ← Part.mem_placeholders]
    constructor
    · rintro ⟨texts, properties, hproperties, h⟩
      obtain ⟨names, hnames, hnodup, hused⟩ := placeholderTexts_isOk_iff.1 ⟨texts, h⟩
      exact ⟨properties, names, hproperties, hnames, hnodup, fun name hname => (hused name hname).1⟩
    · rintro ⟨properties, names, hproperties, hnames, hnodup, hused⟩
      have hnew : ∀ name ∈ names,
          name ∈ Part.placeholders parts ∧ ¬ (Table.empty : Table String String).contains name :=
        fun name hname => ⟨hused name hname, by simp [Table.contains]⟩
      obtain ⟨texts, h⟩ := placeholderTexts_isOk_iff.2 ⟨names, hnames, hnodup, hnew⟩
      exact ⟨texts, properties, hproperties, h⟩

def applyOption (used : List String) (d : Draft) (entry : Entry) : Except Malformed Draft :=
  if entry.name = "original_code" then
    (optionTexts used entry).map fun texts => { d with code := texts }
  else if entry.name = "example" then
    (optionTexts used entry).map fun texts => { d with examples := texts }
  else .ok d

theorem applyOptions_cons {used : List String} {d : Draft} {property : Node} {rest : List Node} :
    applyOptions used d (property :: rest) =
      (entryOf .unplainKey property >>= applyOption used d) >>= (applyOptions used · rest) := by
  rw [applyOptions]
  cases entryOf .unplainKey property with
  | error e => rfl
  | ok entry =>
    show ite _ _ _ = applyOption used d entry >>= _
    unfold applyOption
    split_ifs
    · cases optionTexts used entry <;> rfl
    · cases optionTexts used entry <;> rfl
    · rfl

theorem applyOption_isOk_iff {used : List String} {d : Draft} {entry : Entry} :
    (∃ mid, applyOption used d entry = .ok mid) ↔
      (entry.name = "original_code" ∨ entry.name = "example" →
        ∃ texts, optionTexts used entry = .ok texts) := by
  unfold applyOption
  split_ifs with hcode hexample
  · simp [hcode, map_eq_ok]
  · simp [hexample, map_eq_ok]
  · simp [hcode, hexample]

theorem applyOptions_isOk_iff {used : List String} {d : Draft} {properties : List Node} :
    (∃ d', applyOptions used d properties = .ok d') ↔
      ∀ property ∈ properties, ∃ entry, entry? property = some entry ∧
        (entry.name = "original_code" ∨ entry.name = "example" →
          ∃ texts, optionTexts used entry = .ok texts) := by
  induction properties generalizing d with
  | nil => simp [applyOptions]
  | cons property rest ih =>
    simp only [applyOptions_cons, bind_eq_ok, entryOf_eq_ok, List.forall_mem_cons]
    constructor
    · rintro ⟨d', mid, ⟨entry, hentry, hmid⟩, h⟩
      exact ⟨⟨entry, hentry, applyOption_isOk_iff.1 ⟨mid, hmid⟩⟩, ih.1 ⟨d', h⟩⟩
    · rintro ⟨⟨entry, hentry, htexts⟩, hrest⟩
      obtain ⟨mid, hmid⟩ := applyOption_isOk_iff.2 htexts
      obtain ⟨d', h⟩ := ih.2 hrest
      exact ⟨d', mid, ⟨entry, hentry, hmid⟩, h⟩

theorem option_iff_entry {parts : List Part} {property : Node} :
    (∃ key value, Keyed property key value ∧ key.isSome ∧
      (key = some "original_code" ∨ key = some "example" →
        ∃ map, value = some map ∧ IsPlaceholderMap (·.isSome) parts map)) ↔
      ∃ entry, entry? property = some entry ∧
        (entry.name = "original_code" ∨ entry.name = "example" →
          ∃ texts, optionTexts (Part.placeholders parts) entry = .ok texts) := by
  simp only [optionTexts_isOk_iff]
  constructor
  · rintro ⟨key, value, hkeyed, hkey, hmap⟩
    obtain ⟨key, rfl⟩ := Option.isSome_iff_exists.1 hkey
    obtain ⟨entry, hentry, rfl, rfl⟩ := keyed_iff_entry.1 hkeyed
    exact ⟨entry, hentry, by simpa using hmap⟩
  · rintro ⟨entry, hentry, hmap⟩
    exact ⟨some entry.name, entry.value, keyed_iff_entry.2 ⟨entry, hentry, rfl, rfl⟩, rfl,
      by simpa using hmap⟩

theorem withOptions_isOk_iff {d : Draft} {rest : List Node} :
    (∃ d', withOptions d rest = .ok d') ↔
      ∀ options ∈ rest[1]?, AreOptions (·.isSome) d.parts options := by
  match rest with
  | [] | [_] => simp [withOptions]
  | values :: options :: others =>
    have hoptions : (∃ d', withOptions d (values :: options :: others) = .ok d') ↔
        AreOptions (·.isSome) d.parts options := by
      simp only [withOptions, bind_eq_ok, propertiesOf_eq_ok_iff]
      rw [exists_comm]
      simp only [exists_and_left, applyOptions_isOk_iff, AreOptions, option_iff_entry]
      rfl
    simpa using hoptions

/-- A call of the message function with these arguments is a message with these parts: the
placeholders of the text are the names that the second argument declares. -/
structure Accepts (readable : Option String → Prop) (callee text : Node) (rest : List Node)
    (parts : List Part) (names : List String) : Prop where
  callee : callee.dottedName = some "goog.getMsg"
  unspread : ∀ argument ∈ text :: rest, ∀ value span, argument ≠ .spread value span
  text : ∃ t, Spells text t ∧ Part.parse t = .ok parts
  undeclared : rest = [] → names = []
  declared : ∀ values ∈ rest[0]?, DeclaresNames values names
  options : ∀ options ∈ rest[1]?, AreOptions readable parts options
  balanced : ∀ name, .placeholder name ∈ parts ↔ name ∈ names

def IsMessageCall (readable : Option String → Prop) (value : Node) : Prop :=
  ∃ callee text rest span parts names, value.unparenthesized = .call callee (text :: rest) span ∧
    Accepts readable callee text rest parts names

/-- The message function accepts the calls of this form, in which string literals have a text, and
no others. What stands after the third argument does not matter. -/
theorem ofCall_accepts {d : Draft} (hd : d.parts = []) (value : Node) :
    ((∃ d', ofCall d value = .ok d') ↔ IsMessageCall (·.isSome) value) ∧
      ∀ callee arguments span, value.unparenthesized = .call callee arguments span →
        (∀ argument ∈ arguments, ∀ inner dots, argument ≠ .spread inner dots) →
          ofCall d value = ofCall d (.call callee (arguments.take 3) span) := by
  refine ⟨⟨?_, ?_⟩, fun callee arguments span hvalue hspread => ?_⟩
  · rintro ⟨d', h⟩
    obtain ⟨callee, text, rest, span, hvalue, hcallee, hspread, h⟩ := ofCall_eq_ok.1 h
    obtain ⟨mid, names, hmid, hdeclared, hoptions, hcheck⟩ := ofArguments_eq_ok.1 h
    obtain ⟨t, htext, happend⟩ := appendMessageText_eq_ok.1 hmid
    obtain ⟨parts, hparse, rfl⟩ := (Draft.appendMessage_eq_ok hd).1 happend
    obtain ⟨hundeclared, hdeclared⟩ := declaredBy_eq_ok_iff.1 hdeclared
    refine ⟨callee, text, rest, span, parts, names, hvalue, ?_⟩
    constructor
    · exact of_decide_eq_true hcallee
    · exact hspread
    · exact ⟨t, textOf_eq_ok_iff_spells.1 htext, hparse⟩
    · exact hundeclared
    · exact hdeclared
    · exact withOptions_isOk_iff.1 ⟨d', hoptions⟩
    · intro name
      rw [← Part.mem_placeholders]
      exact checkPlaceholders_eq_ok hcheck name
  · rintro ⟨callee, text, rest, span, parts, names, hvalue, h⟩
    obtain ⟨t, htext, hparse⟩ := h.text
    have hmid : appendMessageText d text = .ok { d with parts := parts } :=
      appendMessageText_eq_ok.2 ⟨t, htext.textOf,
        (Draft.appendMessage_eq_ok hd).2 ⟨parts, hparse, rfl⟩⟩
    have hdeclared : declaredBy rest = .ok names :=
      declaredBy_eq_ok_iff.2 ⟨h.undeclared, h.declared⟩
    obtain ⟨d', hoptions⟩ : ∃ d', withOptions { d with parts := parts } rest = .ok d' :=
      withOptions_isOk_iff.2 h.options
    have hcheck : checkPlaceholders (Part.placeholders parts) names span = .ok () :=
      checkPlaceholders_eq_ok_iff.2 fun name => by rw [Part.mem_placeholders, h.balanced]
    have hcallee : callee.isReferenceTo Name.messageFunction := decide_eq_true h.callee
    exact ⟨d', ofCall_eq_ok.2 ⟨callee, text, rest, span, hvalue, hcallee, h.unspread,
      ofArguments_eq_ok.2 ⟨_, names, hmid, hdeclared, hoptions, hcheck⟩⟩⟩
  · have htake : ∀ argument ∈ arguments.take 3, ∀ inner dots, argument ≠ .spread inner dots :=
      fun argument hmem => hspread argument (List.mem_of_mem_take hmem)
    have harguments : ofArguments d span (arguments.take 3) = ofArguments d span arguments := by
      match arguments with
      | [] | [_] | [_, _] | _ :: _ :: _ :: _ => rfl
    have hcall : (Node.call callee (arguments.take 3) span).unparenthesized =
        .call callee (arguments.take 3) span := rfl
    simp only [ofCall, hvalue, hcall, findSome_spreadOf_eq_none.2 hspread,
      findSome_spreadOf_eq_none.2 htake, harguments]

section Example

-- `goog.getMsg('Hi {$name}', {name: x}, {example: {name: 'Ursula'}})`, or a string with half of a
-- surrogate pair as the example.

def callWithExample (sample : Option String) : Node :=
  let values := Node.object
    [.property (.name "name" ⟨27, 31⟩) (.name "x" ⟨33, 34⟩) ⟨27, 34⟩] ⟨26, 35⟩
  let samples := Node.object
    [.property (.name "name" ⟨48, 52⟩) (.string sample ⟨54, 62⟩) ⟨48, 62⟩] ⟨47, 63⟩
  let options := Node.object [.property (.name "example" ⟨38, 45⟩) samples ⟨38, 63⟩] ⟨37, 64⟩
  .call (.member (.name "goog" ⟨0, 4⟩) "getMsg" ⟨0, 11⟩)
    [.string (some "Hi \x7b$name\x7d") ⟨12, 24⟩, values, options] ⟨0, 65⟩

theorem isMessageCall_callWithExample {readable : Option String → Prop} {sample : Option String}
    (hkey : readable (some "example")) (hsample : readable sample) :
    IsMessageCall readable (callWithExample sample) := by
  have hparse : Part.parse "Hi \x7b$name\x7d" = .ok [.text "Hi ", .placeholder "name"] := by
    decide +kernel
  have hname : HasName (.property (.name "name" ⟨27, 31⟩) (.name "x" ⟨33, 34⟩) ⟨27, 34⟩) "name" :=
    ⟨_, .named ..⟩
  have hquotes : Quotes readable
      (.property (.name "name" ⟨48, 52⟩) (.string sample ⟨54, 62⟩) ⟨48, 62⟩) "name" :=
    ⟨_, _, _, .named .., rfl, hsample⟩
  refine ⟨_, _, _, _, [.text "Hi ", .placeholder "name"], ["name"], rfl, ?_⟩
  constructor
  · decide
  · simp
  · exact ⟨_, .string .., hparse⟩
  · simp
  · rintro _ ⟨⟩
    exact ⟨⟨_, ⟨_, rfl⟩, .cons hname .nil⟩, by simp; decide, by simp⟩
  · rintro _ ⟨⟩
    refine ⟨_, ⟨_, rfl⟩, fun property hproperty => ?_⟩
    rw [List.mem_singleton.1 hproperty]
    exact ⟨_, _, .named .., hkey, fun _ =>
      ⟨_, rfl, _, ["name"], ⟨_, rfl⟩, .cons hquotes .nil, by simp, by simp⟩⟩
  · simp

theorem ofCall_accepts_example :
    ∃ d', ofCall {} (callWithExample (some "Ursula")) = .ok d' := by
  have hcall : IsMessageCall (·.isSome) (callWithExample (some "Ursula")) :=
    isMessageCall_callWithExample rfl rfl
  exact (ofCall_accepts rfl _).1.2 hcall

/-- `goog.getMsg('a', {}, {'\ud800': b})` -/
def callWithBrokenKey : Node :=
  let options := Node.object
    [.property (.string none ⟨22, 30⟩) (.name "b" ⟨32, 33⟩) ⟨22, 33⟩] ⟨21, 34⟩
  .call (.member (.name "goog" ⟨0, 4⟩) "getMsg" ⟨0, 11⟩)
    [.string (some "a") ⟨12, 15⟩, .object [] ⟨17, 19⟩, options] ⟨0, 35⟩

theorem isMessageCall_callWithBrokenKey : IsMessageCall (fun _ => True) callWithBrokenKey := by
  have hparse : Part.parse "a" = .ok [.text "a"] := by decide +kernel
  refine ⟨_, _, _, _, [.text "a"], [], rfl, ?_⟩
  constructor
  · decide
  · simp
  · exact ⟨_, .string .., hparse⟩
  · simp
  · rintro _ ⟨⟩
    exact ⟨⟨_, ⟨_, rfl⟩, .nil⟩, by simp, by simp⟩
  · rintro _ ⟨⟩
    refine ⟨_, ⟨_, rfl⟩, fun property hproperty => ?_⟩
    rw [List.mem_singleton.1 hproperty]
    exact ⟨_, _, .quoted .., trivial, by simp⟩
  · simp

theorem not_ofCall_accepts_brokenString :
    (IsMessageCall (fun _ => True) callWithBrokenKey ∧ ∀ d', ofCall {} callWithBrokenKey ≠ .ok d') ∧
      IsMessageCall (fun _ => True) (callWithExample none) ∧
        ∀ d', ofCall {} (callWithExample none) ≠ .ok d' := by
  have hkey : ofCall {} callWithBrokenKey = fault .unplainKey ⟨22, 33⟩ := by decide +kernel
  have hsample : ofCall {} (callWithExample none) = fault .notString ⟨54, 62⟩ := by decide +kernel
  refine ⟨⟨isMessageCall_callWithBrokenKey, fun d' => ?_⟩,
    isMessageCall_callWithExample trivial trivial, fun d' => ?_⟩
  · rw [hkey]
    exact fault_ne_ok _ _ _
  · rw [hsample]
    exact fault_ne_ok _ _ _

end Example

end MessageCatalog.Definition
