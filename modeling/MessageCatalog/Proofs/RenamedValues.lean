import MessageCatalog.Proofs.DottedNames
import MessageCatalog.Proofs.FunctionWrappers
import MessageCatalog.Proofs.References
import MessageCatalog.Proofs.Renaming

/-! Values under other names. As long as the new names are fresh, the renamed value of a definition
is read into the same draft, and is malformed if the value was. -/

namespace MessageCatalog

namespace Name

def isMarked (name : String) : Bool := startsWith messageMark name.toList

theorem not_isPlaceholder_of_isMarked {name : String} (h : isMarked name) :
    ¬ isPlaceholder name.toList := by
  obtain ⟨rest, hrest⟩ := startsWith_iff.1 h
  rw [← hrest]
  simp [messageMark, isPlaceholder, isLower]

end Name

namespace Definition
open Script (Node Span)

def reservedNames : List String :=
  ["goog", "getMsg", "getMsgWithFallback", "original_code", "example"]

def textPlaceholders (n : Node) : List String :=
  match textOf n with
  | .ok text =>
    match Part.parse text with
    | .ok parts => Part.placeholders parts
    | .error _ => []
  | .error _ => []

end Definition

namespace Compilation
open Definition (reservedNames textPlaceholders)

def names (c : Compilation) : List String := (c.externs ++ c.sources).flatMap (·.program.names)

theorem names_subset {c : Compilation} {s : Source} (h : s ∈ c.externs ++ c.sources) :
    s.program.names ⊆ c.names := fun _ hx => List.mem_flatMap.2 ⟨s, h, hx⟩

def words (c : Compilation) : List String :=
  c.names ++ reservedNames ++ c.sources.flatMap (·.program.subnodes.flatMap textPlaceholders)

/-- The names that start with `MSG_` get fresh names, each its own. -/
structure Renames (c : Compilation) (ρ : String → String) : Prop where
  kept : ∀ x ∈ c.names, ¬ Name.isMarked x → ρ x = x
  injective : ∀ x ∈ c.names, ∀ y ∈ c.names, ρ x = ρ y → x = y
  fresh : ∀ x ∈ c.names, Name.isMarked x → ρ x ∉ c.words
  undotted : ∀ x ∈ c.names, '.' ∉ x.toList ∧ '.' ∉ (ρ x).toList

namespace Renames
variable {c : Compilation} {ρ : String → String} (h : c.Renames ρ)
include h

theorem eq_iff {x w : String} (hx : x ∈ c.names) (hw : w ∈ c.words) (hmark : ¬ Name.isMarked w) :
    ρ x = w ↔ x = w := by
  by_cases hmarked : Name.isMarked x
  · constructor
    · rintro rfl
      exact absurd hw (h.fresh x hx hmarked)
    · rintro rfl
      exact absurd hmarked hmark
  · rw [h.kept x hx hmarked]

theorem reserved_iff {x w : String} (hx : x ∈ c.names)
    (hw : w ∈ reservedNames) : ρ x = w ↔ x = w := by
  refine h.eq_iff hx ?_ ?_
  · exact List.mem_append_left _ (List.mem_append_right _ hw)
  · have hmark : ∀ w ∈ reservedNames, ¬ Name.isMarked w := by decide
    exact hmark w hw

end Renames

end Compilation

namespace Definition
open Script (Node Span dot_mem_member member_inj)
variable {c : Compilation} {ρ : String → String} {σ : Nat → Nat} (h : c.Renames ρ)

include h

theorem dottedName_rename_word {n : Node} (hn : n.names ⊆ c.names) {w : String}
    (hw : w ∈ reservedNames) :
    (n.rename ρ σ).dottedName = some w ↔ n.dottedName = some w := by
  have hdots : ∀ w ∈ reservedNames, '.' ∉ w.toList := by decide
  have hmember : ∀ first last, first ++ "." ++ last ≠ w := by
    rintro first last rfl
    exact hdots _ hw (dot_mem_member first last)
  induction n using Node.parts_induction with
  | whole n ih =>
    cases n with
    | name text span =>
      have htext : text ∈ c.names := hn (Node.spelled_subset _ List.mem_cons_self)
      simpa [Node.rename, Node.dottedName] using h.reserved_iff htext hw
    | member base last span =>
      simp [Node.rename, Node.dottedName, hmember]
    | paren inner span =>
      have hinner : inner ∈ (Node.paren inner span).parts := List.mem_cons_self
      exact ih inner hinner (List.Subset.trans (Node.names_subset_of_mem_parts hinner) hn)
    | _ => simp [Node.rename, Node.dottedName]

theorem dottedName_rename_member {n : Node} (hn : n.names ⊆ c.names) {object property : String}
    (hobject : object ∈ reservedNames) (hproperty : property ∈ reservedNames) :
    (n.rename ρ σ).dottedName = some (object ++ "." ++ property) ↔
      n.dottedName = some (object ++ "." ++ property) := by
  have hdots : ∀ w ∈ reservedNames, '.' ∉ w.toList := by decide
  induction n using Node.parts_induction with
  | whole n ih =>
    cases n with
    | name text span =>
      have htext : text ∈ c.names := hn (Node.spelled_subset _ List.mem_cons_self)
      have hne : ∀ x, '.' ∉ x.toList → x ≠ object ++ "." ++ property := by
        rintro _ hx rfl
        exact hx (dot_mem_member object property)
      simp [Node.rename, Node.dottedName, hne _ (h.undotted text htext).1,
        hne _ (h.undotted text htext).2]
    | member base last span =>
      have hlast : last ∈ c.names := hn (Node.spelled_subset _ List.mem_cons_self)
      have hbase : base ∈ (Node.member base last span).parts := List.mem_cons_self
      have hbase := dottedName_rename_word (σ := σ) h
        (List.Subset.trans (Node.names_subset_of_mem_parts hbase) hn) hobject
      simp only [Node.rename, Node.dottedName, Option.map_eq_some_iff,
        member_inj (h.undotted last hlast).1 (hdots _ hproperty),
        member_inj (h.undotted last hlast).2 (hdots _ hproperty), h.reserved_iff hlast hproperty]
      constructor
      · rintro ⟨first, hfirst, rfl, rfl⟩
        exact ⟨_, hbase.1 hfirst, rfl, rfl⟩
      · rintro ⟨first, hfirst, rfl, rfl⟩
        exact ⟨_, hbase.2 hfirst, rfl, rfl⟩
    | paren inner span =>
      have hinner : inner ∈ (Node.paren inner span).parts := List.mem_cons_self
      exact ih inner hinner (List.Subset.trans (Node.names_subset_of_mem_parts hinner) hn)
    | _ => simp [Node.rename, Node.dottedName]

theorem isReferenceTo_rename {n : Node} (hn : n.names ⊆ c.names) :
    (n.rename ρ σ).isReferenceTo Name.messageFunction = n.isReferenceTo Name.messageFunction ∧
      (n.rename ρ σ).isReferenceTo Name.fallbackFunction =
        n.isReferenceTo Name.fallbackFunction := by
  have hproperty : ∀ property ∈ reservedNames,
      (n.rename ρ σ).isReferenceTo ("goog" ++ "." ++ property) =
        n.isReferenceTo ("goog" ++ "." ++ property) := by
    intro property hproperty
    rw [Node.isReferenceTo, Node.isReferenceTo, Bool.eq_iff_iff, decide_eq_true_iff,
      decide_eq_true_iff]
    exact dottedName_rename_member h hn (by decide) hproperty
  exact ⟨hproperty "getMsg" (by decide), hproperty "getMsgWithFallback" (by decide)⟩

omit h in
theorem isSome_dottedName_rename (n : Node) :
    (n.rename ρ σ).dottedName.isSome = n.dottedName.isSome := by
  induction n using Node.parts_induction with
  | whole n ih =>
    cases n with
    | member base last span => simpa [Node.rename, Node.dottedName] using ih base List.mem_cons_self
    | paren inner span => exact ih inner List.mem_cons_self
    | _ => rfl

omit h in
theorem textOf_rename {n : Node} {text : String} :
    textOf (n.rename ρ σ) = .ok text ↔ textOf n = .ok text := by
  induction n using Node.parts_induction generalizing text with
  | whole n ih =>
    cases n with
    | string text span => cases text <;> simp [Node.rename, textOf]
    | template text values span =>
      cases values with
      | nil => cases text <;> simp [Node.rename, textOf]
      | cons => simp [Node.rename, textOf]
    | binary operator left right span =>
      have hleft : ∀ {t}, textOf (left.rename ρ σ) = .ok t ↔ textOf left = .ok t :=
        ih left (by simp [Node.parts])
      have hright : ∀ {t}, textOf (right.rename ρ σ) = .ok t ↔ textOf right = .ok t :=
        ih right (by simp [Node.parts])
      simp only [Node.rename, textOf_binary_eq_ok, hleft, hright]
    | paren inner span => exact ih inner List.mem_cons_self
    | _ => simp [Node.rename, textOf]

structure Entry.Renamed (c : Compilation) (ρ : String → String) (σ : Nat → Nat) (e e' : Entry) :
    Prop where
  value : e'.value = e.value.map (Node.rename ρ σ)
  name : e'.name = e.name ∨ (Name.isMarked e.name ∧ e'.name ∉ c.words)

theorem entry_rename {property : Node} (hn : property.names ⊆ c.names) :
    (none = entry? property ∧ none = entry? (property.rename ρ σ)) ∨
      ∃ e e', entry? property = some e ∧ entry? (property.rename ρ σ) = some e' ∧
        Entry.Renamed c ρ σ e e' := by
  have hname : ∀ x ∈ c.names, ρ x = x ∨ (Name.isMarked x ∧ ρ x ∉ c.words) := by
    intro x hx
    by_cases hmarked : Name.isMarked x
    · exact .inr ⟨hmarked, h.fresh x hx hmarked⟩
    · exact .inl (h.kept x hx hmarked)
  cases property with
  | name text span =>
    have htext : text ∈ c.names := hn (Node.spelled_subset _ List.mem_cons_self)
    exact .inr ⟨_, _, rfl, rfl, rfl, hname text htext⟩
  | property key value span =>
    cases key with
    | name text keySpan =>
      have hkey := Node.names_subset_of_mem_parts (n := .property (.name text keySpan) value span)
        List.mem_cons_self
      have htext : text ∈ c.names := hn (hkey (Node.spelled_subset _ List.mem_cons_self))
      exact .inr ⟨_, _, rfl, rfl, rfl, hname text htext⟩
    | string text keySpan =>
      cases text with
      | none => exact .inl ⟨rfl, rfl⟩
      | some text => exact .inr ⟨_, _, rfl, rfl, rfl, .inl rfl⟩
    | _ => exact .inl ⟨rfl, rfl⟩
  | _ => exact .inl ⟨rfl, rfl⟩

omit h in
theorem propertiesOf_rename {f : Fault} {node : Node} {properties : List Node} :
    propertiesOf f (node.rename ρ σ) = .ok properties ↔
      ∃ before, propertiesOf f node = .ok before ∧ before.map (Node.rename ρ σ) = properties := by
  unfold propertiesOf
  rw [Node.unparenthesized_rename]
  cases node.unparenthesized <;> simp [Node.rename]

theorem valueNames_rename {seen names : List String} {properties : List Node}
    (hn : ∀ p ∈ properties, p.names ⊆ c.names) (hwords : names ⊆ c.words) :
    valueNames seen (properties.map (Node.rename ρ σ)) = .ok names ↔
      valueNames seen properties = .ok names := by
  induction properties generalizing seen with
  | nil => rfl
  | cons property rest ih =>
    obtain ⟨hproperty, hrest⟩ := List.forall_mem_cons.1 hn
    rw [List.map_cons, valueNames, valueNames, bind_eq_ok, bind_eq_ok]
    simp only [entryOf_eq_ok]
    rcases entry_rename (σ := σ) h hproperty with ⟨hnone, hnone'⟩ | ⟨e, e', he, he', hentry⟩
    · simp [← hnone, ← hnone']
    · simp only [he, he', Option.some.injEq, exists_eq_left']
      rcases hentry.name with hname | ⟨hmarked, hfresh⟩
      · rw [hname]
        split_ifs
        · simp
        · simp
        · exact ih hrest
      · -- Before, the name is not in camel case, and after, no text uses it.
        refine iff_of_false ?_ ?_
        · split_ifs
          · exact fault_ne_ok _ _ _
          · exact fault_ne_ok _ _ _
          · intro hok
            obtain ⟨given, -, rfl, -⟩ := valueNames_eq_ok hok
            exact hfresh (hwords (by simp))
        · rw [if_pos (by simpa using Name.not_isPlaceholder_of_isMarked hmarked)]
          exact fault_ne_ok _ _ _

omit h in
theorem Entry.Renamed.quotes_iff {e e' : Entry} (he : Entry.Renamed c ρ σ e e') {text : String} :
    e'.Quotes text ↔ e.Quotes text := by
  unfold Entry.Quotes
  rw [he.value]
  cases e.value with
  | none => simp
  | some value =>
    simp only [Option.map_some, Option.some.injEq, Node.unparenthesized_rename]
    cases value.unparenthesized with
    | string text' span => cases text' <;> simp [Node.rename]
    | _ => simp [Node.rename]

theorem placeholderTexts_rename {used : List String} {texts texts' : Table String String}
    {properties : List Node} (hn : ∀ p ∈ properties, p.names ⊆ c.names) (hwords : used ⊆ c.words)
    (hused : ∀ x ∈ used, ¬ Name.isMarked x) :
    placeholderTexts used texts (properties.map (Node.rename ρ σ)) = .ok texts' ↔
      placeholderTexts used texts properties = .ok texts' := by
  induction properties generalizing texts with
  | nil => rfl
  | cons property rest ih =>
    obtain ⟨hproperty, hrest⟩ := List.forall_mem_cons.1 hn
    rw [List.map_cons, placeholderTexts_cons_eq_ok, placeholderTexts_cons_eq_ok]
    rcases entry_rename (σ := σ) h hproperty with ⟨hnone, hnone'⟩ | ⟨e, e', he, he', hentry⟩
    · simp [← hnone, ← hnone']
    · simp only [he, he', Option.some.injEq, exists_and_left, exists_eq_left', hentry.quotes_iff]
      rcases hentry.name with hname | ⟨hmarked, hfresh⟩
      · simp only [hname, ih hrest]
      · have hbefore : e.name ∉ used := fun hmem => hused _ hmem hmarked
        have hafter : e'.name ∉ used := fun hmem => hfresh (hwords hmem)
        simp [hbefore, hafter]

omit h in
theorem names_of_propertiesOf {f : Fault} {node : Node} {properties : List Node}
    (h : propertiesOf f node = .ok properties) : ∀ p ∈ properties, p.names ⊆ node.names := by
  obtain ⟨span, hobject⟩ := propertiesOf_eq_ok h
  intro p hp
  have hmem := node.unparenthesized_mem_subnodes
  rw [hobject] at hmem
  exact List.Subset.trans
    (Node.names_subset_of_mem_parts (n := .object properties span) hp) (Node.names_subset hmem)

omit h in
theorem bind_propertiesOf_rename {α : Type} {f : Fault} {node : Node} (hn : node.names ⊆ c.names)
    {read : List Node → Except Malformed α} {a : α}
    (hread : ∀ ps : List Node, (∀ p ∈ ps, p.names ⊆ c.names) →
      (read (ps.map (Node.rename ρ σ)) = .ok a ↔ read ps = .ok a)) :
    (propertiesOf f (node.rename ρ σ) >>= read) = .ok a ↔
      (propertiesOf f node >>= read) = .ok a := by
  have hnames : ∀ {ps}, propertiesOf f node = .ok ps → ∀ p ∈ ps, p.names ⊆ c.names :=
    fun hps p hp => List.Subset.trans (names_of_propertiesOf hps p hp) hn
  simp only [bind_eq_ok, propertiesOf_rename]
  constructor
  · rintro ⟨_, ⟨ps, hps, rfl⟩, ha⟩
    exact ⟨ps, hps, (hread ps (hnames hps)).1 ha⟩
  · rintro ⟨ps, hps, ha⟩
    exact ⟨_, ⟨ps, hps, rfl⟩, (hread ps (hnames hps)).2 ha⟩

omit h in
theorem names_of_entry {property : Node} {e : Entry} (h : entry? property = some e) {value : Node}
    (hvalue : e.value = some value) : value.names ⊆ property.names := by
  unfold entry? at h
  split at h
  all_goals
    cases h
    try cases hvalue
  all_goals exact Node.names_subset_of_mem_parts (by simp [Node.parts])

theorem optionTexts_rename {used : List String} {e e' : Entry} {texts : Table String String}
    (he : Entry.Renamed c ρ σ e e') (hn : ∀ value, e.value = some value → value.names ⊆ c.names)
    (hwords : used ⊆ c.words) (hused : ∀ x ∈ used, ¬ Name.isMarked x) :
    optionTexts used e' = .ok texts ↔ optionTexts used e = .ok texts := by
  unfold optionTexts
  rw [he.value]
  cases hvalue : e.value with
  | none => simp
  | some value =>
    exact bind_propertiesOf_rename (hn value hvalue) fun ps hps =>
      placeholderTexts_rename h hps hwords hused

theorem applyOptions_rename {used : List String} {d d' : Draft} {properties : List Node}
    (hn : ∀ p ∈ properties, p.names ⊆ c.names) (hwords : used ⊆ c.words)
    (hused : ∀ x ∈ used, ¬ Name.isMarked x) :
    applyOptions used d (properties.map (Node.rename ρ σ)) = .ok d' ↔
      applyOptions used d properties = .ok d' := by
  induction properties generalizing d with
  | nil => rfl
  | cons property rest ih =>
    obtain ⟨hproperty, hrest⟩ := List.forall_mem_cons.1 hn
    rw [List.map_cons, applyOptions, applyOptions, bind_eq_ok, bind_eq_ok]
    simp only [entryOf_eq_ok]
    rcases entry_rename (σ := σ) h hproperty with ⟨hnone, hnone'⟩ | ⟨e, e', he, he', hentry⟩
    · simp [← hnone, ← hnone']
    · simp only [he, he', Option.some.injEq, exists_eq_left']
      have htexts : ∀ {texts}, optionTexts used e' = .ok texts ↔ optionTexts used e = .ok texts :=
        optionTexts_rename h hentry
          (fun _ hvalue => List.Subset.trans (names_of_entry he hvalue) hproperty) hwords hused
      rcases hentry.name with hname | ⟨hmarked, hfresh⟩
      · rw [hname]
        split_ifs
        · simp only [bind_eq_ok, htexts, ih hrest]
        · simp only [bind_eq_ok, htexts, ih hrest]
        · exact ih hrest
      · -- Neither name is that of an option.
        have hreserved : ∀ w ∈ reservedNames, e.name ≠ w ∧ e'.name ≠ w := by
          intro w hw
          have hmarks : ∀ w ∈ reservedNames, ¬ Name.isMarked w := by decide
          constructor
          · rintro rfl
            exact hmarks _ hw hmarked
          · rintro rfl
            exact hfresh (List.mem_append_left _ (List.mem_append_right _ hw))
        have hcode := hreserved "original_code" (by decide)
        have hexample := hreserved "example" (by decide)
        rw [if_neg hcode.1, if_neg hcode.2, if_neg hexample.1, if_neg hexample.2]
        exact ih hrest

theorem declaredBy_rename {names : List String} {rest : List Node}
    (hn : ∀ n ∈ rest, n.names ⊆ c.names) (hwords : names ⊆ c.words) :
    declaredBy (rest.map (Node.rename ρ σ)) = .ok names ↔ declaredBy rest = .ok names := by
  cases rest with
  | nil => rfl
  | cons values others =>
    exact bind_propertiesOf_rename (hn values List.mem_cons_self) fun ps hps =>
      valueNames_rename h hps hwords

theorem withOptions_rename {d d' : Draft} {rest : List Node}
    (hn : ∀ n ∈ rest, n.names ⊆ c.names) (hwords : d.placeholders ⊆ c.words)
    (hused : ∀ x ∈ d.placeholders, ¬ Name.isMarked x) :
    withOptions d (rest.map (Node.rename ρ σ)) = .ok d' ↔ withOptions d rest = .ok d' := by
  match rest with
  | [] | [_] => rfl
  | _ :: options :: _ =>
    exact bind_propertiesOf_rename (hn options (by simp)) fun ps hps =>
      applyOptions_rename h hps hwords hused

omit h in
theorem appendMessageText_rename {d mid : Draft} {text : Node} :
    appendMessageText d (text.rename ρ σ) = .ok mid ↔ appendMessageText d text = .ok mid := by
  simp only [appendMessageText_eq_ok, textOf_rename]

omit h in
theorem placeholders_of_appendMessageText {d mid : Draft} {text : Node} (hd : d.parts = [])
    (h : appendMessageText d text = .ok mid) : mid.placeholders = textPlaceholders text := by
  obtain ⟨t, htext, happend⟩ := appendMessageText_eq_ok.1 h
  obtain ⟨parts, hparse, rfl⟩ := (Draft.appendMessage_eq_ok hd).1 happend
  simp [textPlaceholders, htext, hparse, Draft.placeholders]

omit h in
theorem not_isMarked_of_declaredBy {used declared : List String} {rest : List Node}
    (h : declaredBy rest = .ok declared) (hiff : ∀ x, x ∈ used ↔ x ∈ declared) :
    ∀ x ∈ used, ¬ Name.isMarked x := fun x hx hmarked =>
  Name.not_isPlaceholder_of_isMarked hmarked ((declaredBy_eq_ok h).2 x ((hiff x).1 hx))

theorem ofArguments_rename {d d' : Draft} {span span' : Span} {text : Node} {rest : List Node}
    (hd : d.parts = []) (hn : ∀ n ∈ rest, n.names ⊆ c.names)
    (hwords : textPlaceholders text ⊆ c.words) :
    ofArguments d span' ((text :: rest).map (Node.rename ρ σ)) = .ok d' ↔
      ofArguments d span (text :: rest) = .ok d' := by
  rw [List.map_cons, ofArguments_eq_ok, ofArguments_eq_ok]
  refine exists_congr fun mid => exists_congr fun declared => ?_
  simp only [appendMessageText_rename, checkPlaceholders_eq_ok_iff]
  refine and_congr_right fun hmid => ?_
  rw [← placeholders_of_appendMessageText hd hmid] at hwords
  -- All that is declared is used, and no name of a message is declared.
  constructor
  · rintro ⟨hdeclared, hoptions, hcheck⟩
    have hused := not_isMarked_of_declaredBy hdeclared hcheck
    have hdeclaredWords : declared ⊆ c.words := fun x hx => hwords ((hcheck x).2 hx)
    exact ⟨(declaredBy_rename h hn hdeclaredWords).1 hdeclared,
      (withOptions_rename h hn hwords hused).1 hoptions, hcheck⟩
  · rintro ⟨hdeclared, hoptions, hcheck⟩
    have hused := not_isMarked_of_declaredBy hdeclared hcheck
    have hdeclaredWords : declared ⊆ c.words := fun x hx => hwords ((hcheck x).2 hx)
    exact ⟨(declaredBy_rename h hn hdeclaredWords).2 hdeclared,
      (withOptions_rename h hn hwords hused).2 hoptions, hcheck⟩

def StandsIn (c : Compilation) (n : Node) : Prop := ∃ s ∈ c.sources, n ∈ s.program.subnodes

omit h in
theorem StandsIn.mono {m n : Node} (hn : StandsIn c n) (hm : m ∈ n.subnodes) : StandsIn c m := by
  obtain ⟨s, hs, hn⟩ := hn
  exact ⟨s, hs, Script.Program.mem_subnodes_trans hm hn⟩

omit h in
theorem StandsIn.names {n : Node} (hn : StandsIn c n) : n.names ⊆ c.names := by
  obtain ⟨s, hs, hn⟩ := hn
  exact List.Subset.trans (Script.Program.names_subset hn)
    (Compilation.names_subset (List.mem_append_right _ hs))

omit h in
theorem StandsIn.placeholders {n : Node} (hn : StandsIn c n) : textPlaceholders n ⊆ c.words := by
  obtain ⟨s, hs, hn⟩ := hn
  intro x hx
  exact List.mem_append_right _
    (List.mem_flatMap.2 ⟨s, hs, List.mem_flatMap.2 ⟨n, hn, hx⟩⟩)

omit h in
theorem findSome?_spreadOf?_rename (arguments : List Node) :
    ((arguments.map (Node.rename ρ σ)).findSome? spreadOf?).isSome =
      (arguments.findSome? spreadOf?).isSome := by
  induction arguments with
  | nil => rfl
  | cons n ns ih =>
    cases n with
    | spread => rfl
    | _ => exact ih

omit h in
theorem ofCall_call_eq_ok {d d' : Draft} {value callee : Node} {arguments : List Node} {span : Span}
    (hvalue : value.unparenthesized = .call callee arguments span) :
    ofCall d value = .ok d' ↔
      callee.isReferenceTo Name.messageFunction ∧
        (arguments.findSome? spreadOf?).isSome = false ∧ ofArguments d span arguments = .ok d' := by
  rw [ofCall, hvalue]
  cases hspread : arguments.findSome? spreadOf? <;>
    cases hcallee : callee.isReferenceTo Name.messageFunction <;> simp [hspread, hcallee]

theorem ofCall_rename {d d' : Draft} {value : Node} (hd : d.parts = [])
    (hvalue : StandsIn c value) :
    ofCall d (value.rename ρ σ) = .ok d' ↔ ofCall d value = .ok d' := by
  have hinner := hvalue.mono value.unparenthesized_mem_subnodes
  cases hcall : value.unparenthesized with
  | call callee arguments span =>
    rw [hcall] at hinner
    have hpart : ∀ {m}, m ∈ callee :: arguments → StandsIn c m := fun hm =>
      hinner.mono (Node.mem_subnodes_of_mem_parts hm)
    have hcall' : (value.rename ρ σ).unparenthesized =
        .call (callee.rename ρ σ) (arguments.map (Node.rename ρ σ)) (span.move σ) := by
      rw [Node.unparenthesized_rename, hcall, Node.rename, Node.renameAll_eq]
    rw [ofCall_call_eq_ok hcall, ofCall_call_eq_ok hcall', findSome?_spreadOf?_rename,
      (isReferenceTo_rename h (hpart List.mem_cons_self).names).1]
    refine and_congr_right fun _ => and_congr_right fun _ => ?_
    cases arguments with
    | nil => simp [ofArguments]
    | cons text rest =>
      exact ofArguments_rename h hd (fun n hn => (hpart (by simp [hn])).names)
        (hpart (by simp)).placeholders
  | _ => simp [ofCall, Node.unparenthesized_rename, hcall, Node.rename]

theorem parameterNames_rename {seen names : List String} {parameters : List Node}
    (hn : ∀ p ∈ parameters, p.names ⊆ c.names)
    (hplain : ∀ x ∈ plainNames parameters, ¬ Name.isMarked x) :
    parameterNames seen (parameters.map (Node.rename ρ σ)) = .ok names ↔
      parameterNames seen parameters = .ok names := by
  induction parameters generalizing seen with
  | nil => rfl
  | cons p ps ih =>
    obtain ⟨hp, hps⟩ := List.forall_mem_cons.1 hn
    cases p with
    | name text span =>
      have htext : ρ text = text :=
        h.kept text (hp (Node.spelled_subset _ List.mem_cons_self)) (hplain text (by simp [plainNames]))
      have hrest : ∀ x ∈ plainNames ps, ¬ Name.isMarked x := fun x hx =>
        hplain x (by simpa [plainNames] using .inr (by simpa [plainNames] using hx))
      simp only [List.map_cons, Node.rename, htext, parameterNames]
      split_ifs
      · simp
      · exact ih hps hrest
    | _ => exact ih hps hplain

theorem appendReturned_rename {d d' : Draft} {node : Node} (hn : node.names ⊆ c.names)
    (hwords : d'.placeholders ⊆ c.words) (hused : ∀ x ∈ d'.placeholders, ¬ Name.isMarked x) :
    appendReturned d (node.rename ρ σ) = .ok d' ↔ appendReturned d node = .ok d' := by
  induction node using Node.parts_induction generalizing d d' with
  | whole node ih =>
    have hpart : ∀ {m}, m ∈ node.parts → m.names ⊆ c.names := fun hm =>
      List.Subset.trans (Node.names_subset_of_mem_parts hm) hn
    cases node with
    | name text span =>
      have htext : text ∈ c.names := hn (Node.spelled_subset _ List.mem_cons_self)
      have hlast : ∀ x, x ∈ (d.appendPlaceholder x).placeholders := fun x =>
        Draft.mem_placeholders.2 (List.mem_append_right _ List.mem_cons_self)
      simp only [Node.rename, appendReturned, Except.ok.injEq]
      constructor
      · rintro rfl
        by_cases hmarked : Name.isMarked text
        · exact absurd (hwords (hlast _)) (h.fresh text htext hmarked)
        · rw [h.kept text htext hmarked]
      · rintro rfl
        rw [h.kept text htext (hused text (hlast text))]
    | binary operator left right span =>
      have hleft : left ∈ (Node.binary operator left right span).parts := by simp [Node.parts]
      have hright : right ∈ (Node.binary operator left right span).parts := by simp [Node.parts]
      rw [Node.rename, appendReturned_binary_eq_ok, appendReturned_binary_eq_ok]
      refine and_congr_right fun _ => exists_congr fun mid => ?_
      rw [ih right hright (hpart hright) hwords hused]
      refine and_congr_left fun hmid => ?_
      have hsubset := (appendReturned_filled hmid).placeholders
      exact ih left hleft (hpart hleft) (List.Subset.trans hsubset hwords)
        fun x hx => hused x (hsubset hx)
    | paren inner span => exact ih inner List.mem_cons_self (hpart List.mem_cons_self) hwords hused
    | string text span =>
      simp only [Node.rename, appendReturned, map_eq_ok]
      cases text <;> simp [textOf]
    | template text values span =>
      simp only [Node.rename, appendReturned, map_eq_ok]
      cases values with
      | nil => cases text <;> simp [textOf]
      | cons => simp [textOf]
    | _ => simp [Node.rename, appendReturned]

def Body.rename (ρ : String → String) (σ : Nat → Nat) : Body → Body
  | .statements list span => .statements (list.map (Node.rename ρ σ)) (span.move σ)
  | .result node => .result (node.rename ρ σ)

def Body.nodes : Body → List Node
  | .statements list _ => list
  | .result node => [node]

theorem appendBody_rename {d d' : Draft} {body : Body} (hn : ∀ n ∈ body.nodes, n.names ⊆ c.names)
    (hwords : d'.placeholders ⊆ c.words) (hused : ∀ x ∈ d'.placeholders, ¬ Name.isMarked x) :
    (∃ span, appendBody d (body.rename ρ σ) = .ok (d', span)) ↔
      ∃ span, appendBody d body = .ok (d', span) := by
  cases body with
  | result node =>
    simp only [Body.rename, appendBody, exists_map_eq_ok]
    exact appendReturned_rename h (hn node List.mem_cons_self) hwords hused
  | statements list span =>
    cases list with
    | nil => simp [Body.rename, appendBody]
    | cons n ns =>
      have hfirst := hn n List.mem_cons_self
      cases n with
      | returnStatement value valueSpan =>
        cases value with
        | none => simp [Body.rename, Node.rename, appendBody]
        | some value =>
          have hvalue := Node.names_subset_of_mem_parts
            (n := .returnStatement (some value) valueSpan) (m := value) (by simp [Node.parts])
          simp only [Body.rename, List.map_cons, Node.rename, Node.renameOption_eq, Option.map_some,
            appendBody, exists_map_eq_ok]
          exact appendReturned_rename h (List.Subset.trans hvalue hfirst) hwords hused
      | _ => simp [Body.rename, Node.rename, appendBody]

theorem ofFunction_rename {d d' : Draft} {parameters : List Node} {body : Body}
    (hparameters : ∀ p ∈ parameters, p.names ⊆ c.names)
    (hbody : ∀ n ∈ body.nodes, n.names ⊆ c.names)
    (hplain : ∀ x ∈ plainNames parameters, ¬ Name.isMarked x) :
    ofFunction d (parameters.map (Node.rename ρ σ)) (body.rename ρ σ) = .ok d' ↔
      ofFunction d parameters body = .ok d' := by
  have hnames : plainNames parameters ⊆ c.names := by
    intro x hx
    obtain ⟨p, hp, hx⟩ := List.mem_filterMap.1 hx
    cases p with
    | name text span =>
      cases hx
      exact hparameters _ hp (Node.spelled_subset _ List.mem_cons_self)
    | _ => cases hx
  rw [ofFunction_eq_ok, ofFunction_eq_ok]
  refine exists_congr fun names => ?_
  rw [parameterNames_rename h hparameters hplain]
  refine and_congr_right fun hok => and_congr_left fun hused => ?_
  rw [((parameterNames_eq_ok_iff .nil).1 hok).2, List.nil_append] at hused
  refine appendBody_rename h hbody (fun x hx => ?_) fun x hx => hplain x ((hused x).1 hx)
  exact List.mem_append_left _ (List.mem_append_left _ (hnames ((hused x).1 hx)))

def Value.rename (ρ : String → String) (σ : Nat → Nat) : Value → Value
  | .text node => .text (node.rename ρ σ)
  | .function parameters body => .function (parameters.map (Node.rename ρ σ)) (body.rename ρ σ)
  | .call node => .call (node.rename ρ σ)

def Value.nodes : Value → List Node
  | .text node => [node]
  | .function parameters body => parameters ++ body.nodes
  | .call node => [node]

omit h in
theorem classify_rename {key : String} {value : Node} {v' : Value} :
    classify key (value.rename ρ σ) = .ok v' ↔
      ∃ v, classify key value = .ok v ∧ v.rename ρ σ = v' := by
  unfold classify
  rw [Node.unparenthesized_rename]
  cases value.unparenthesized with
  | binary operator left right span =>
    simp only [Node.rename]
    split_ifs <;> simp [Value.rename, Node.rename]
  | _ => simp [Node.rename, Value.rename, Body.rename]

omit h in
theorem mem_subnodes_of_classify {key : String} {value m : Node} {v : Value}
    (h : classify key value = .ok v) (hm : m ∈ v.nodes) : m ∈ value.subnodes := by
  refine Node.mem_subnodes_trans ?_ value.unparenthesized_mem_subnodes
  have hof := of_classify h
  generalize value.unparenthesized = n at hof
  cases hof with
  | text | call =>
    rw [List.mem_singleton.1 hm]
    exact Node.self_mem_subnodes _
  | function | lambda => exact Node.mem_subnodes_of_mem_parts hm

omit h in
theorem isAlias_rename {s s' : Settings} {value : Node} (hn : value.names ⊆ c.names)
    (hold : ∀ x ∈ c.names, s'.oldName (ρ x) = s.oldName x) :
    isAlias s' (value.rename ρ σ) = isAlias s value := by
  have hinner := List.Subset.trans (Node.names_subset value.unparenthesized_mem_subnodes) hn
  unfold isAlias
  rw [Node.unparenthesized_rename]
  cases hvalue : value.unparenthesized with
  | name text span =>
    rw [hvalue] at hinner
    have htext : text ∈ c.names := hinner (Node.spelled_subset _ List.mem_cons_self)
    simp [Node.rename, hold text htext]
  | member base last span =>
    rw [hvalue] at hinner
    have hlast : last ∈ c.names := hinner (Node.spelled_subset _ List.mem_cons_self)
    have hdotted := isSome_dottedName_rename (ρ := ρ) (σ := σ) (.member base last span)
    simp only [Node.rename] at hdotted ⊢
    simp only [hdotted, hold last hlast]
  | _ => rfl

end Definition

end MessageCatalog
