import MessageCatalog.Proofs.Concatenations
import MessageCatalog.Proofs.Neighbours

/-! What is said of a message whose value is no call: what its documentation comment says, and if
that has no description, what the variable beside it says that is named for it. -/

namespace MessageCatalog

namespace Script.Node

def isWrapper (n : Node) : Bool :=
  match n.unparenthesized with
  | .function .. => true
  | .lambda .. => true
  | _ => false

def IsLegacy (n : Node) : Prop := n.IsText ∨ n.isWrapper

theorem isText_of_text? {n : Node} {text : String} (h : n.text? = some text) : n.IsText := by
  cases n with
  | string | template => trivial
  | _ => cases h

end Script.Node

namespace Definition
open Script (Node Span)

variable {env : Surroundings} {site : Site} {value : Node} {d d' : Draft}

inductive IsCompanion (key : String) (value : Option Node) (span : Span) : Node → Prop
  | first (nameSpan around : Span) (rest : List Node) :
    IsCompanion key value span (.declarations .var
      (.declarator (.name (key ++ String.ofList Name.helpMark) nameSpan) value span :: rest) around)

theorem companion?_eq_some {key : String} {value : Option Node} {span : Span} {n : Node} :
    companion? (key ++ String.ofList Name.helpMark) n = some (value, span) ↔
      IsCompanion key value span n := by
  constructor
  · intro h
    unfold companion? at h
    split at h
    · split_ifs at h with hname
      · cases h
        rw [hname]
        exact .first _ _ _
    · cases h
  · rintro ⟨nameSpan, around, rest⟩
    rw [companion?, if_pos rfl]

theorem companion?_eq_none {key : String} {n : Node} :
    companion? (key ++ String.ofList Name.helpMark) n = none ↔
      ∀ value span, ¬ IsCompanion key value span n := by
  rw [Option.eq_none_iff_forall_ne_some]
  simp only [← companion?_eq_some, Prod.forall, ne_eq]

inductive Adds (doc : Metadata) (span : Span) : Option Node → Except Malformed Metadata → Prop
  | nothing : Adds doc span none (.error ⟨.notText "nothing", span⟩)
  | notText {value : Node} {m : Malformed} (fault : textOf value = .error m) :
    Adds doc span (some value) (.error m)
  | hidden {value : Node} {text : String} {rest : List Char} (read : textOf value = .ok text)
    (marked : text.toList = Name.hiddenMark ++ rest) : Adds doc span (some value)
      (.ok { doc with desc := some (String.ofList (Text.trim rest)), hidden := true })
  | plain {value : Node} {text : String} (read : textOf value = .ok text)
    (unmarked : ¬ Name.hiddenMark <+: text.toList) :
    Adds doc span (some value) (.ok { doc with desc := some text })

theorem exists_adds (doc : Metadata) (span : Span) (value : Option Node) :
    ∃ said, Adds doc span value said := by
  cases value with
  | none => exact ⟨_, .nothing⟩
  | some value =>
    cases hread : textOf value with
    | error m => exact ⟨_, .notText hread⟩
    | ok text =>
      by_cases hmarked : Name.hiddenMark <+: text.toList
      · obtain ⟨rest, hrest⟩ := hmarked
        exact ⟨_, .hidden hread hrest.symm⟩
      · exact ⟨_, .plain hread hmarked⟩

namespace Site

def doc (env : Surroundings) (site : Site) : Metadata := (env.docCommentAt site.docs).getD {}

def draftWith (env : Surroundings) (site : Site) (metadata : Metadata) : Draft :=
  { site.draft env with metadata := metadata }

def bare (site : Site) : Site := { site with docs := [], neighbours := [] }

end Site

inductive LegacyDescribed (env : Surroundings) (site : Site) : Except Malformed Metadata → Prop
  | comment (described : (site.doc env).desc.isSome) : LegacyDescribed env site (.ok (site.doc env))
  | unnamed (undescribed : (site.doc env).desc = none) (unnamed : site.isUnnamed env) :
    LegacyDescribed env site (.ok (site.doc env))
  | alone (undescribed : (site.doc env).desc = none) (named : site.isUnnamed env = false)
    (alone : ∀ n ∈ site.neighbours, ∀ text span, ¬ IsCompanion (site.key env) text span n) :
    LegacyDescribed env site (.ok (site.doc env))
  | companion {before after : List Node} {n : Node} {text : Option Node} {span : Span}
    {said : Except Malformed Metadata} (undescribed : (site.doc env).desc = none)
    (named : site.isUnnamed env = false) (neighbours : site.neighbours = before ++ n :: after)
    (first : ∀ b ∈ before, ∀ text span, ¬ IsCompanion (site.key env) text span b)
    (isCompanion : IsCompanion (site.key env) text span n)
    (adds : Adds (site.doc env) span text said) : LegacyDescribed env site said

/-- What is said of the message of a variable with this value; a call has no companion. -/
inductive Described (env : Surroundings) (site : Site) (value : Node) :
    Except Malformed Metadata → Prop
  | call (isCall : value.unparenthesized.isCall) : Described env site value (.ok (site.doc env))
  | legacy {said : Except Malformed Metadata} (isLegacy : value.IsLegacy)
    (described : LegacyDescribed env site said) : Described env site value said

theorem annotate_draft (env : Surroundings) (site : Site) :
    env.annotate site (site.draft env) = site.draftWith env (site.doc env) := by
  unfold Surroundings.annotate Site.draftWith Site.doc
  cases env.docCommentAt site.docs <;> simp [DocComment.applyTo, Site.draft]

theorem isSome_desc_doc :
    ((env.docCommentAt site.docs).bind (·.desc)).isSome = (site.doc env).desc.isSome := by
  unfold Site.doc
  cases env.docCommentAt site.docs <;> rfl

theorem key_draftWith {metadata : Metadata} :
    (site.draftWith env metadata).key =
      if site.isUnnamed env then none else some (site.key env) := by
  rw [Site.draftWith, Site.draft]

theorem describeBy_of_adds {doc : Metadata} {span : Span} {value : Option Node}
    {said : Except Malformed Metadata} (h : Adds doc span value said) :
    describeBy (site.draftWith env doc) value span = said.map (site.draftWith env) := by
  cases h with
  | nothing => rfl
  | notText fault => simp [describeBy, fault, bind, Except.bind, Except.map]
  | hidden read marked =>
    simp [describeBy, read, marked, Text.dropLead?_append, bind, Except.bind, pure, Except.pure,
      Except.map, Draft.setHidden, Draft.setDesc, Site.draftWith]
  | @plain value text read unmarked =>
    have hnone : Text.dropLead? Name.hiddenMark text.toList = none := by
      simpa [← Text.isSome_dropLead?_iff] using unmarked
    simp [describeBy, read, hnone, bind, Except.bind, pure, Except.pure, Except.map,
      Draft.setDesc, Site.draftWith]

theorem describeLegacy_draft (env : Surroundings) (site : Site) :
    describeLegacy env site (site.draft env) =
      if (site.doc env).desc.isSome ∨ site.isUnnamed env then
        .ok (site.draftWith env (site.doc env))
      else
        match site.neighbours.findSome?
            (companion? (site.key env ++ String.ofList Name.helpMark)) with
        | some (value, span) => describeBy (site.draftWith env (site.doc env)) value span
        | none => .ok (site.draftWith env (site.doc env)) := by
  unfold describeLegacy
  simp only [isSome_desc_doc, annotate_draft, key_draftWith]
  by_cases hdesc : (site.doc env).desc.isSome
  · rw [if_pos hdesc, if_pos (.inl hdesc)]
  · by_cases hunnamed : site.isUnnamed env
    · rw [if_neg hdesc, if_pos hunnamed, if_pos (.inr hunnamed)]
    · rw [if_neg hdesc, if_neg hunnamed]
      exact (if_neg (by simp [hdesc, hunnamed])).symm

theorem describeLegacy_of_described {said : Except Malformed Metadata}
    (h : LegacyDescribed env site said) :
    describeLegacy env site (site.draft env) = said.map (site.draftWith env) := by
  rw [describeLegacy_draft]
  cases h with
  | comment described =>
    rw [if_pos (.inl described)]
    rfl
  | unnamed undescribed unnamed =>
    rw [if_pos (.inr unnamed)]
    rfl
  | alone undescribed named alone =>
    have hnone : site.neighbours.findSome?
        (companion? (site.key env ++ String.ofList Name.helpMark)) = none :=
      List.findSome?_eq_none_iff.2 fun n hn => companion?_eq_none.2 (alone n hn)
    rw [if_neg (by simp [undescribed, named]), hnone]
    rfl
  | @companion before after n text span said undescribed named neighbours first isCompanion adds =>
    have hsome : site.neighbours.findSome?
        (companion? (site.key env ++ String.ofList Name.helpMark)) = some (text, span) :=
      List.findSome?_eq_some_iff.2 ⟨before, n, after, neighbours,
        companion?_eq_some.2 isCompanion, fun b hb => companion?_eq_none.2 (first b hb)⟩
    rw [if_neg (by simp [undescribed, named]), hsome]
    exact describeBy_of_adds adds

theorem exists_legacyDescribed (env : Surroundings) (site : Site) :
    ∃ said, LegacyDescribed env site said := by
  by_cases hdesc : (site.doc env).desc.isSome
  · exact ⟨_, .comment hdesc⟩
  have hundescribed : (site.doc env).desc = none := by simpa using hdesc
  cases hunnamed : site.isUnnamed env with
  | true => exact ⟨_, .unnamed hundescribed hunnamed⟩
  | false =>
    cases hfind : site.neighbours.findSome?
        (companion? (site.key env ++ String.ofList Name.helpMark)) with
    | none =>
      have halone := List.findSome?_eq_none_iff.1 hfind
      exact ⟨_, .alone hundescribed hunnamed fun n hn => companion?_eq_none.1 (halone n hn)⟩
    | some found =>
      obtain ⟨text, span⟩ := found
      obtain ⟨before, n, after, hneighbours, hn, hbefore⟩ := List.findSome?_eq_some_iff.1 hfind
      obtain ⟨said, hadds⟩ := exists_adds (site.doc env) span text
      exact ⟨said, .companion hundescribed hunnamed hneighbours
        (fun b hb => companion?_eq_none.1 (hbefore b hb)) (companion?_eq_some.1 hn) hadds⟩

theorem LegacyDescribed.unique {said said' : Except Malformed Metadata}
    (h : LegacyDescribed env site said) (h' : LegacyDescribed env site said') : said' = said := by
  have hsame := (describeLegacy_of_described h).symm.trans (describeLegacy_of_described h')
  cases said <;> cases said' <;> simp_all [Except.map, Site.draftWith]

theorem not_isCall_of_isLegacy (h : value.IsLegacy) : value.unparenthesized.isCall = false := by
  rcases h with h | h
  · exact isCall_of_isText h
  · unfold Node.isWrapper at h
    split at h
    · next hvalue => rw [hvalue]; rfl
    · next hvalue => rw [hvalue]; rfl
    · cases h

theorem exists_described (env : Surroundings) (site : Site)
    (h : value.IsLegacy ∨ value.unparenthesized.isCall) :
    ∃ said, ∀ said', Described env site value said' ↔ said' = said := by
  rcases h with hlegacy | hcall
  · obtain ⟨said, hsaid⟩ := exists_legacyDescribed env site
    refine ⟨said, fun said' => ⟨fun h => ?_, fun h => h ▸ .legacy hlegacy hsaid⟩⟩
    cases h with
    | call isCall => simp [not_isCall_of_isLegacy hlegacy] at isCall
    | legacy isLegacy described => exact hsaid.unique described
  · refine ⟨_, fun said' => ⟨fun h => ?_, fun h => h ▸ .call hcall⟩⟩
    cases h with
    | call isCall => rfl
    | legacy isLegacy described => simp [not_isCall_of_isLegacy isLegacy] at hcall

theorem exists_classify_of_isWrapper (h : value.isWrapper) :
    ∃ parameters body, ∀ key, classify key value = .ok (.function parameters body) := by
  unfold Node.isWrapper at h
  split at h
  · next hvalue => exact ⟨_, _, fun key => by rw [classify, hvalue]⟩
  · next hvalue => exact ⟨_, _, fun key => by rw [classify, hvalue]⟩
  · cases h

theorem exists_read (h : value.IsLegacy) :
    ∃ read : Draft → Except Malformed Draft,
      (∀ (env : Surroundings) (site : Site) (d : Draft), site.kind = .variable →
        draftOf env site d value = describeLegacy env site d >>= read) ∧
        ∀ d d', read d = .ok d' → d.Filled d' := by
  rcases h with h | h
  · refine ⟨fun d => (textOf value.unparenthesized).map d.appendText, fun env site d hkind => ?_,
      fun d d' hread => ?_⟩
    · rw [draftOf, hkind]
      simp only [draftOfVariable, classify_of_isText h]
      rfl
    · obtain ⟨text, -, rfl⟩ := map_eq_ok.1 hread
      exact .appendText d text
  · obtain ⟨parameters, body, hclassify⟩ := exists_classify_of_isWrapper h
    refine ⟨fun d => ofFunction d parameters body, fun env site d hkind => ?_,
      fun d d' => ofFunction_filled⟩
    rw [draftOf, hkind]
    simp only [draftOfVariable, hclassify]
    rfl

theorem describeLegacy_bare (env : Surroundings) (site : Site) (d : Draft) :
    describeLegacy env site.bare d = .ok d := by
  unfold describeLegacy
  cases hkey : d.key <;> simp [Site.bare, Surroundings.docCommentAt, Surroundings.annotate, hkey]

theorem annotate_bare (env : Surroundings) (site : Site) (d : Draft) :
    env.annotate site.bare d = d := rfl

theorem draftOf_of_described (hkind : site.kind = .variable) {said : Except Malformed Metadata}
    (h : Described env site value said) :
    draftOf env site (site.draft env) value =
      said >>= fun metadata => draftOf env site.bare (site.draftWith env metadata) value := by
  have hbare : site.bare.kind = .variable := hkind
  cases h with
  | call isCall =>
    cases hvalue : value.unparenthesized with
    | call callee arguments span =>
      rw [draftOf_call_eq hvalue, annotate_draft]
      simp only [bind, Except.bind]
      rw [draftOf_call_eq hvalue, annotate_bare]
    | _ => simp [hvalue, Node.isCall] at isCall
  | legacy isLegacy described =>
    obtain ⟨read, hread, -⟩ := exists_read isLegacy
    rw [hread env site _ hkind, describeLegacy_of_described described]
    cases said with
    | error m => rfl
    | ok metadata =>
      simp only [Except.map, bind, Except.bind]
      rw [hread env site.bare _ hbare, describeLegacy_bare]
      rfl

theorem metadata_draftOf_bare (hkind : site.kind = .variable)
    (hvalue : value.IsLegacy ∨ value.unparenthesized.isCall)
    (h : draftOf env site.bare d value = .ok d') : d'.metadata = d.metadata := by
  rcases hvalue with hlegacy | hcall
  · obtain ⟨read, hread, hfilled⟩ := exists_read hlegacy
    rw [hread env site.bare _ hkind, describeLegacy_bare] at h
    exact (hfilled d d' h).metadata
  · cases hvalue : value.unparenthesized with
    | call callee arguments span =>
      rw [draftOf_call_eq hvalue, annotate_bare] at h
      exact (ofCall_filled h).metadata
    | _ => simp [hvalue, Node.isCall] at hcall

def outcomeOfDraft (env : Surroundings) : Except Malformed Draft → Outcome
  | .error m => .malformed m
  | .ok d => .defined (d.build env.settings.strategy)

theorem outcome_of_hasValue (hvalue : site.HasValue env value)
    (hallowed : env.settings.style.isStrict → site.hasCall) :
    (candidateOf env site).outcome =
      outcomeOfDraft env (draftOf env site (site.draft env) value) := by
  apply Verdict.outcome_eq
  cases hdraft : draftOf env site (site.draft env) value with
  | error m => exact ⟨value, hvalue, hallowed, hdraft⟩
  | ok d => exact ⟨value, hvalue, hallowed, d, hdraft, rfl⟩

theorem forwardedAt_of_not_defined
    (h : ∀ message, (candidateOf env site).outcome ≠ .defined message) :
    forwardedAt (env, .site site) = [] := by
  simp only [forwardedAt]
  split
  · next hdefined _ => exact absurd hdefined (h _)
  · rfl

def Settles (env : Surroundings) (site : Site) (value : Node) : Except Malformed Metadata → Prop
  | .error m => (candidateOf env site).outcome = .malformed m ∧ forwardedAt (env, .site site) = []
  | .ok metadata =>
    (candidateOf env site).outcome =
        outcomeOfDraft env (draftOf env site.bare (site.draftWith env metadata) value) ∧
      ∀ message, (candidateOf env site).outcome = .defined message → message.metadata = metadata

theorem settles_of_described (hkind : site.kind = .variable) (hvalue : site.HasValue env value)
    (hallowed : env.settings.style.isStrict → site.hasCall)
    (hread : value.IsLegacy ∨ value.unparenthesized.isCall) {said : Except Malformed Metadata}
    (h : Described env site value said) : Settles env site value said := by
  have houtcome := outcome_of_hasValue hvalue hallowed
  rw [draftOf_of_described hkind h] at houtcome
  cases said with
  | error m =>
    refine ⟨houtcome, forwardedAt_of_not_defined fun message hdefined => ?_⟩
    cases houtcome.symm.trans hdefined
  | ok metadata =>
    refine ⟨houtcome, fun message hdefined => ?_⟩
    rw [houtcome] at hdefined
    simp only [bind, Except.bind] at hdefined
    cases hdraft : draftOf env site.bare (site.draftWith env metadata) value with
    | error m => simp [hdraft, outcomeOfDraft] at hdefined
    | ok d =>
      rw [hdraft] at hdefined
      cases hdefined
      exact metadata_draftOf_bare hkind hread hdraft

theorem findSome?_eq_of_perm {α β : Type} {f : α → Option β} {xs ys : List α} (h : xs.Perm ys)
    (hone : ∀ a ∈ ys, ∀ b ∈ ys, (f a).isSome → (f b).isSome → a = b) :
    xs.findSome? f = ys.findSome? f := by
  cases hys : ys.findSome? f with
  | none =>
    rw [List.findSome?_eq_none_iff] at hys ⊢
    exact fun a ha => hys a (h.mem_iff.1 ha)
  | some y =>
    obtain ⟨b, hb, hfb⟩ := List.exists_of_findSome?_eq_some hys
    cases hxs : xs.findSome? f with
    | none =>
      rw [List.findSome?_eq_none_iff] at hxs
      rw [hxs b (h.mem_iff.2 hb)] at hfb
      cases hfb
    | some x =>
      obtain ⟨a, ha, hfa⟩ := List.exists_of_findSome?_eq_some hxs
      have hsame := hone a (h.mem_iff.1 ha) b hb (by rw [hfa]; rfl) (by rw [hfb]; rfl)
      rw [← hfa, ← hfb, hsame]

def OneCompanion (key : String) (ns : List Node) : Prop :=
  ∀ a ∈ ns, ∀ b ∈ ns, (∃ text span, IsCompanion key text span a) →
    (∃ text span, IsCompanion key text span b) → a = b

theorem draftOf_neighbours (env : Surroundings) (hkind : site.kind = .variable) {ns : List Node}
    (hvalue : value.unparenthesized.isCall ∨
      value.IsLegacy ∧ ns.Perm site.neighbours ∧ OneCompanion (site.key env) site.neighbours) :
    draftOf env { site with neighbours := ns } (site.draft env) value =
      draftOf env site (site.draft env) value := by
  rcases hvalue with hcall | ⟨hlegacy, hperm, hone⟩
  · cases hvalue : value.unparenthesized with
    | call callee arguments span => rw [draftOf_call_eq hvalue, draftOf_call_eq hvalue]; rfl
    | _ => simp [hvalue, Node.isCall] at hcall
  · obtain ⟨read, hread, -⟩ := exists_read hlegacy
    have hkind' : { site with neighbours := ns }.kind = .variable := hkind
    have hfind : ns.findSome? (companion? (site.key env ++ String.ofList Name.helpMark)) =
        site.neighbours.findSome? (companion? (site.key env ++ String.ofList Name.helpMark)) := by
      refine findSome?_eq_of_perm hperm fun a ha b hb hsome hsome' => ?_
      obtain ⟨⟨text, span⟩, hfound⟩ := Option.isSome_iff_exists.1 hsome
      obtain ⟨⟨text', span'⟩, hfound'⟩ := Option.isSome_iff_exists.1 hsome'
      exact hone a ha b hb ⟨text, span, companion?_eq_some.1 hfound⟩
        ⟨text', span', companion?_eq_some.1 hfound'⟩
    have hlegacy := describeLegacy_draft env { site with neighbours := ns }
    rw [hread env _ _ hkind', hread env site _ hkind, describeLegacy_draft env site, ← hfind]
    exact congrArg (· >>= read) hlegacy

theorem outcome_neighbours (hkind : site.kind = .variable) (hvalue : site.value = some value)
    {ns : List Node}
    (h : value.unparenthesized.isCall ∨
      value.IsLegacy ∧ ns.Perm site.neighbours ∧ OneCompanion (site.key env) site.neighbours) :
    (candidateOf env { site with neighbours := ns }).outcome = (candidateOf env site).outcome := by
  have hdraft := draftOf_neighbours env hkind h
  have hverdict := verdict_outcome env site
  apply Verdict.outcome_eq
  cases houtcome : (candidateOf env site).outcome with
  | malformed m =>
    rw [houtcome] at hverdict
    obtain ⟨v, hv, hallowed, hm⟩ := hverdict
    obtain rfl : v = value := Option.some.inj (hv.2.1.symm.trans hvalue)
    exact ⟨v, hv, hallowed, hdraft.trans hm⟩
  | defined message =>
    rw [houtcome] at hverdict
    obtain ⟨v, hv, hallowed, d, hd, hmessage⟩ := hverdict
    obtain rfl : v = value := Option.some.inj (hv.2.1.symm.trans hvalue)
    exact ⟨v, hv, hallowed, d, hdraft.trans hd, hmessage⟩
  | _ =>
    rw [houtcome] at hverdict
    exact hverdict

theorem outcome_of_isStrict (hvalue : site.HasValue env value) (hlegacy : value.IsLegacy)
    (hstrict : env.settings.style.isStrict) : (candidateOf env site).outcome = .refused := by
  apply Verdict.outcome_eq
  refine ⟨value, hvalue, hstrict, ?_⟩
  simp [Site.hasCall, Site.call?, hvalue.2.1, Option.filter, not_isCall_of_isLegacy hlegacy]

/-- The neighbours of a variable are the statements before and after its declaration, in a program
that is laid out, as all are that are read from texts. The message of a variable is described by its
documentation comment, and if that has no description and the value is no call, by the first
neighbour that is named for its key; where that gives no text, the definition is malformed. Which
neighbour that is does not matter, unless both are. -/
theorem legacyMetadata_run (settings : Settings) {c : Compilation}
    (hvisit : (env, .site site) ∈ visits settings c) (hkind : site.kind = .variable) :
    (∀ es ss, c.MadeFrom es ss → env.source.program.IsLaidOut) ∧
    (env.source.program.IsLaidOut → ∃ d ∈ env.source.program.subnodes, DeclaresAt d site ∧
      ∀ ns, Beside env.source.program d ns ↔ ns = site.neighbours) ∧
    ∀ value, site.HasValue env value →
      ((value.IsLegacy ∧ ¬ env.settings.style.isStrict) ∨ value.unparenthesized.isCall →
        ∃ said, (∀ said', Described env site value said' ↔ said' = said) ∧
          Settles env site value said) ∧
      (value.IsLegacy → env.settings.style.isStrict → (candidateOf env site).outcome = .refused) ∧
      ∀ ns, (value.unparenthesized.isCall ∨
          value.IsLegacy ∧ ns.Perm site.neighbours ∧ OneCompanion (site.key env) site.neighbours) →
        (candidateOf env { site with neighbours := ns }).outcome =
          (candidateOf env site).outcome := by
  obtain ⟨-, hsource, hstep⟩ := mem_visitsFrom hvisit
  refine ⟨fun es ss h => h.isLaidOut hsource,
    fun hlaid => beside_of_mem_stepsOf hlaid hkind hstep,
    fun value hvalue => ⟨fun hread => ?_, outcome_of_isStrict hvalue,
      fun ns => outcome_neighbours hkind hvalue.2.1⟩⟩
  have hread' : value.IsLegacy ∨ value.unparenthesized.isCall := hread.imp_left And.left
  have hallowed : env.settings.style.isStrict → site.hasCall := by
    intro hstrict
    rcases hread with ⟨-, hnot⟩ | hcall
    · exact absurd hstrict hnot
    · simp [Site.hasCall, Site.call?, hvalue.2.1, Option.filter, hcall]
  obtain ⟨said, hsaid⟩ := exists_described env site hread'
  exact ⟨said, hsaid, settles_of_described hkind hvalue hallowed hread' ((hsaid said).2 rfl)⟩

/-- In `var MSG_A='x';var MSG_A_HELP='@hidden  about it ';`, the second variable describes the
message of the first one. -/
theorem legacyMetadata_run_hidden :
    let c := Compilation.ofFiles []
      [("a.js", "var MSG_A='x';var MSG_A_HELP='@hidden  about it ';")]
    ∃ f ∈ forwarded { style := .relax } c, f.site.kind = .variable ∧
      f.message.metadata = { desc := some "about it", hidden := true } ∧
        Described f.env f.site f.value (.ok f.message.metadata) := by
  intro c
  have hone : (forwarded { style := .relax } c).map
      (fun f => (f.message.metadata, f.site.kind, f.value.text?, f.env.settings.style)) =
      [({ desc := some "about it", hidden := true }, .variable, some "x", .relax)] := by
    decide +kernel
  obtain ⟨f, hf, hfacts⟩ := List.map_eq_singleton_iff.1 hone
  simp only [Prod.mk.injEq] at hfacts
  obtain ⟨hmetadata, hkind, htext, hstyle⟩ := hfacts
  have hmem : f ∈ forwarded { style := .relax } c := by simp [hf]
  obtain ⟨hvisit, hvalue, houtcome⟩ := mem_forwarded hmem
  have hverdict := verdict_outcome f.env f.site
  rw [houtcome] at hverdict
  obtain ⟨value, hhas, -⟩ := hverdict
  obtain rfl : value = f.value := Option.some.inj (hhas.2.1.symm.trans hvalue)
  obtain ⟨-, -, hall⟩ := legacyMetadata_run { style := .relax } hvisit hkind
  obtain ⟨said, hsaid, hsettles⟩ := (hall f.value hhas).1
    (.inl ⟨.inl (Node.isText_of_text? htext), by simp [hstyle, Style.isStrict]⟩)
  refine ⟨f, hmem, hkind, hmetadata, (hsaid _).2 ?_⟩
  cases said with
  | error m => cases hsettles.1.symm.trans houtcome
  | ok metadata => rw [hsettles.2 f.message houtcome]

end Definition

end MessageCatalog
