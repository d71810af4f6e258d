import MessageCatalog.Proofs.Fallbacks
import MessageCatalog.Proofs.RenamedScopes
import MessageCatalog.Proofs.RenamedValues

/-! Runs over renamed files, with the old names as a table. -/

namespace MessageCatalog

structure Source.IsRenamed (ρ : String → String) (σ : Nat → Nat) (s s' : Source) : Prop where
  path : s'.path = s.path
  program : s'.program = s.program.rename ρ σ
  comments : s'.comments = s.comments.map fun (offset, text) => (σ offset, text)
  apart : Function.Injective σ
  lines : ∀ n ∈ s.program.subnodes, (Text.position s'.text (σ n.span.start)).line =
    (Text.position s.text n.span.start).line

namespace Definition
open Script (Node Span dot_mem_member)

structure Surroundings.IsRenamed (c : Compilation) (ρ : String → String) (σ : Nat → Nat)
    (env env' : Surroundings) : Prop where
  file : env'.file = env.file
  mem : env.source ∈ c.sources
  source : env.source.IsRenamed ρ σ env'.source
  style : env'.settings.style = env.settings.style
  strategy : env'.settings.strategy = env.settings.strategy
  lineMap : ∀ path line column column', env'.settings.lineMap.locate? path line column' =
    env.settings.lineMap.locate? path line column
  oldName : ∀ x ∈ c.names, env'.settings.oldName (ρ x) = env.settings.oldName x

def Site.parameters (site : Site) : List Node :=
  site.value.toList.flatMap fun value => value.unparenthesized.parameters

def companionName? : Node → Option String
  | .declarations .var (.declarator (.name text _) _ _ :: _) _ => some text
  | _ => none

def Site.companions (site : Site) : List String := site.neighbours.filterMap companionName?

/-- The message owes no word to another name: no placeholder is named like a message, and no
variable beside it is named like its description, before or after. -/
structure Site.StandsAlone (ρ : String → String) (env : Surroundings) (site : Site) : Prop where
  parameters : ∀ x ∈ plainNames site.parameters, ¬ Name.isMarked x
  companions : ∀ x ∈ site.companions,
    x ≠ site.key env ++ String.ofList Name.helpMark ∧
      ρ x ≠ site.key env ++ String.ofList Name.helpMark

variable {c : Compilation} {ρ : String → String} {σ : Nat → Nat} {env env' : Surroundings}
  {site : Site}

theorem commentsAt_rename {s s' : Source} (h : s.IsRenamed ρ σ s') (offset : Nat) :
    s'.commentsAt (σ offset) = s.commentsAt offset := by
  unfold Source.commentsAt
  rw [h.comments, List.filter_map, List.map_map]
  have hfilter : ((fun x : Nat × String => decide (x.1 = σ offset)) ∘
      fun (offset, text) => (σ offset, text)) = fun x : Nat × String => decide (x.1 = offset) := by
    funext x
    simp [h.apart.eq_iff]
  rw [hfilter]
  rfl

theorem companionName?_rename (n : Node) :
    companionName? (n.rename ρ σ) = (companionName? n).map ρ := by
  cases n with
  | declarations kind declarators span =>
    cases declarators with
    | nil => cases kind <;> rfl
    | cons declarator rest =>
      cases declarator with
      | declarator target value span => cases target <;> cases kind <;> rfl
      | _ => cases kind <;> rfl
  | _ => rfl

theorem companions_rename (site : Site) :
    (site.rename ρ σ).companions = site.companions.map ρ := by
  unfold Site.companions Site.rename
  rw [List.filterMap_map, List.map_filterMap]
  exact List.filterMap_congr fun n _ => companionName?_rename n

theorem companion_eq_none {name : String} (hname : name ∉ site.companions) :
    site.neighbours.findSome? (companion? name) = none := by
  rw [List.findSome?_eq_none_iff]
  intro n hn
  unfold companion?
  split
  · next text _ value span _ _ =>
    rw [if_neg]
    rintro rfl
    exact hname (List.mem_filterMap.2 ⟨_, hn, rfl⟩)
  · rfl

theorem describeLegacy_eq {d : Draft}
    (hnone : ∀ key ∈ d.key, key ++ String.ofList Name.helpMark ∉ site.companions) :
    describeLegacy env site d = .ok (env.annotate site d) := by
  unfold describeLegacy
  dsimp only
  split_ifs
  · rfl
  · split
    · rfl
    · next key hkey =>
      rw [(annotate_extends env site d).key] at hkey
      rw [companion_eq_none (hnone key hkey)]

def draftOfValue (env : Surroundings) (site : Site) (d : Draft) : Value → Except Malformed Draft
  | .text node => do
    let d' ← describeLegacy env site d
    return d'.appendText (← textOf node)
  | .function parameters body => do ofFunction (← describeLegacy env site d) parameters body
  | .call node => ofCall (env.annotate site d) node

theorem draftOfVariable_eq (env : Surroundings) (site : Site) (d : Draft) (value : Node) :
    draftOfVariable env site d value =
      (classify d.displayKey value >>= draftOfValue env site d) := by
  unfold draftOfVariable
  congr 1

namespace Surroundings.IsRenamed

variable (h : env.IsRenamed c ρ σ env')
include h

theorem docCommentAt (docs : List Nat) :
    env'.docCommentAt (docs.map σ) = env.docCommentAt docs := by
  unfold Surroundings.docCommentAt
  rw [List.findSome?_map]
  simp [Function.comp_def, commentsAt_rename h.source]

theorem annotate (d : Draft) : env'.annotate (site.rename ρ σ) d = env.annotate site d := by
  unfold Surroundings.annotate
  rw [Site.rename, h.docCommentAt]

theorem sourceNameAt {n : Node} (hn : n ∈ env.source.program.subnodes) :
    env'.sourceNameAt (n.span.move σ) = env.sourceNameAt n.span := by
  unfold Surroundings.sourceNameAt Surroundings.contextAt
  simp only [Span.start_move, h.source.path, h.source.lines n hn,
    h.lineMap _ _ (Text.position env.source.text n.span.start).column]
  split <;> rfl

theorem siteOldName (hname : site.name ∈ c.names) :
    (site.rename ρ σ).oldName env' = site.oldName env := h.oldName site.name hname

theorem siteKey (hname : site.name ∈ c.names) : (site.rename ρ σ).key env' = site.key env := by
  unfold Site.key
  rw [h.siteOldName hname]

omit h in
theorem call?_rename (site : Site) :
    (site.rename ρ σ).call? = site.call?.map (Node.rename ρ σ) := by
  unfold Site.call? Site.rename
  cases site.value with
  | none => rfl
  | some value =>
    simp only [Option.map_some, Node.unparenthesized_rename, Option.filter_some,
      Node.isCall_rename]
    split_ifs <;> rfl

omit h in
theorem hasCall_rename (site : Site) : (site.rename ρ σ).hasCall = site.hasCall := by
  rw [Site.hasCall, call?_rename, Option.isSome_map, Site.hasCall]

theorem namesMessage (hname : site.name ∈ c.names) :
    (site.rename ρ σ).namesMessage env' = site.namesMessage env := by
  unfold Site.namesMessage
  rw [h.siteOldName hname, hasCall_rename, h.style]

theorem siteIsUnnamed (hname : site.name ∈ c.names) :
    (site.rename ρ σ).isUnnamed env' = site.isUnnamed env := by
  unfold Site.isUnnamed
  rw [h.siteKey hname]

theorem siteDraft (hsite : .site site ∈ stepsOf env.source.program) (hname : site.name ∈ c.names) :
    (site.rename ρ σ).draft env' = site.draft env := by
  obtain ⟨-, n, hn, hspan⟩ := site_stands hsite
  have hsource : env'.sourceNameAt (site.rename ρ σ).span = env.sourceNameAt site.span := by
    rw [← hspan, ← h.sourceNameAt hn, Site.rename, hspan]
  unfold Site.draft
  rw [h.siteIsUnnamed hname, h.siteKey hname, hsource]

theorem describeLegacy (halone : site.StandsAlone ρ env) {d : Draft}
    (hd : d.key = (site.draft env).key) :
    describeLegacy env' (site.rename ρ σ) d = describeLegacy env site d := by
  have hkey : ∀ key ∈ d.key, key = site.key env := by
    intro key hkey
    rw [hd, Site.draft] at hkey
    dsimp only at hkey
    split_ifs at hkey
    · cases hkey
    · exact (Option.some.inj hkey).symm
  rw [describeLegacy_eq, describeLegacy_eq, h.annotate]
  · rintro key hmem hcompanion
    rw [hkey key hmem] at hcompanion
    exact (halone.companions _ hcompanion).1 rfl
  · rintro key hmem hcompanion
    rw [hkey key hmem, companions_rename] at hcompanion
    obtain ⟨x, hx, heq⟩ := List.mem_map.1 hcompanion
    exact (halone.companions x hx).2 heq

variable (hc : c.Renames ρ)
include hc

theorem ofCall {value : Node} (hvalue : StandsIn c value) {d d' : Draft} (hd : d.parts = []) :
    ofCall (env'.annotate (site.rename ρ σ) d) (value.rename ρ σ) = .ok d' ↔
      Definition.ofCall (env.annotate site d) value = .ok d' := by
  have hparts : (env.annotate site d).parts = [] := by
    unfold Surroundings.annotate
    split
    · exact hd
    · exact hd
  rw [h.annotate, ofCall_rename hc hparts hvalue]

theorem draftOfValue {value : Node} (hvalue : site.value = some value)
    (hstands : StandsIn c value) (halone : site.StandsAlone ρ env) {d d' : Draft}
    (hd : d.parts = []) (hkey : d.key = (site.draft env).key) {v : Value}
    (hv : classify d.displayKey value = .ok v) :
    draftOfValue env' (site.rename ρ σ) d (v.rename ρ σ) = .ok d' ↔
      Definition.draftOfValue env site d v = .ok d' := by
  have hlegacy := h.describeLegacy halone hkey
  have hpart : ∀ {m}, m ∈ v.nodes → StandsIn c m := fun hm =>
    hstands.mono (mem_subnodes_of_classify hv hm)
  cases v with
  | text node =>
    simp only [Value.rename, Definition.draftOfValue, bind_eq_ok, hlegacy, textOf_rename]
  | call node => exact h.ofCall hc (hpart List.mem_cons_self) hd
  | function parameters body =>
    have hparameters : site.parameters = parameters := by
      rw [Site.parameters, hvalue, ← parameters_of_classify hv]
      simp
    have hplain : ∀ x ∈ plainNames parameters, ¬ Name.isMarked x :=
      hparameters ▸ halone.parameters
    have hfunction : ∀ {mid : Draft}, ofFunction mid (parameters.map (Node.rename ρ σ))
        (body.rename ρ σ) = .ok d' ↔ ofFunction mid parameters body = .ok d' :=
      ofFunction_rename hc (fun p hp => (hpart (List.mem_append_left _ hp)).names)
        (fun n hn => (hpart (List.mem_append_right _ hn)).names) hplain
    simp only [Value.rename, Definition.draftOfValue, bind_eq_ok, hlegacy, hfunction]

theorem draftOf {value : Node} (hvalue : site.value = some value) (hstands : StandsIn c value)
    (halone : site.hasCall ∨ site.StandsAlone ρ env) {d d' : Draft} (hd : d.parts = [])
    (hkey : d.key = (site.draft env).key) :
    draftOf env' (site.rename ρ σ) d (value.rename ρ σ) = .ok d' ↔
      Definition.draftOf env site d value = .ok d' := by
  by_cases hcall : value.unparenthesized.isCall
  · have hcall' : (value.rename ρ σ).unparenthesized.isCall := by
      rwa [Node.unparenthesized_rename, Node.isCall_rename]
    rw [draftOf_call hcall, draftOf_call hcall']
    exact h.ofCall hc hstands hd
  · have halone := halone.resolve_left (by simp [Site.hasCall, Site.call?, hvalue, hcall])
    have hread : ∀ v, classify d.displayKey value = .ok v →
        (Definition.draftOfValue env' (site.rename ρ σ) d (v.rename ρ σ) = .ok d' ↔
          Definition.draftOfValue env site d v = .ok d') := fun v hv =>
      h.draftOfValue hc hvalue hstands halone hd hkey hv
    unfold Definition.draftOf
    rw [Site.kind_rename]
    split
    · rw [draftOfVariable_eq, draftOfVariable_eq]
      simp only [bind_eq_ok, classify_rename]
      constructor
      · rintro ⟨_, ⟨v, hv, rfl⟩, hok⟩
        exact ⟨v, hv, (hread v hv).1 hok⟩
      · rintro ⟨v, hv, hok⟩
        exact ⟨_, ⟨v, hv, rfl⟩, (hread v hv).2 hok⟩
    · exact h.ofCall hc hstands hd

end Surroundings.IsRenamed

def Outcome.Alike : Outcome → Outcome → Prop
  | .ignored, .ignored => True
  | .noValue, .noValue => True
  | .refused, .refused => True
  | .malformed _, .malformed _ => True
  | .defined m, .defined m' => m = m'
  | _, _ => False

theorem stands_of_site (hmem : env.source ∈ c.sources)
    (hsite : .site site ∈ stepsOf env.source.program) : site.name ∈ c.names ∧
      ∀ value, site.value = some value → StandsIn c value := by
  refine ⟨?_, fun value hvalue => ⟨env.source, hmem, value_mem_subnodes hsite hvalue⟩⟩
  exact Compilation.names_subset (List.mem_append_right _ hmem) (site_stands hsite).1

theorem outcome_rename (h : env.IsRenamed c ρ σ env') (hc : c.Renames ρ)
    (hsite : .site site ∈ stepsOf env.source.program)
    (halone : env.settings.style.isStrict ∨ site.StandsAlone ρ env) :
    (candidateOf env site).outcome.Alike (candidateOf env' (site.rename ρ σ)).outcome := by
  obtain ⟨hname, hstands⟩ := stands_of_site h.mem hsite
  rw [outcome_candidateOf, outcome_candidateOf, h.namesMessage hname, h.siteDraft hsite hname,
    h.strategy, h.style, Surroundings.IsRenamed.hasCall_rename]
  by_cases hmessage : site.namesMessage env
  case neg =>
    rw [if_neg hmessage, if_neg hmessage]
    trivial
  rw [if_pos hmessage, if_pos hmessage, Site.value_rename]
  cases hvalue : site.value with
  | none => trivial
  | some value =>
    have hstands := hstands value hvalue
    simp only [Option.map_some, isAlias_rename hstands.names h.oldName]
    split_ifs with halias hstrict
    · trivial
    · trivial
    · have hread : site.hasCall ∨ site.StandsAlone ρ env := by
        rcases halone with hs | halone
        · exact .inl (by simpa [hs] using hstrict)
        · exact .inr halone
      have hdraft : ∀ d', draftOf env' (site.rename ρ σ) (site.draft env) (value.rename ρ σ) =
          .ok d' ↔ draftOf env site (site.draft env) value = .ok d' := fun d' =>
        h.draftOf hc hvalue hstands hread rfl rfl
      cases hbefore : draftOf env site (site.draft env) value with
      | ok d =>
        rw [(hdraft d).2 hbefore]
        exact rfl
      | error m =>
        cases hafter : draftOf env' (site.rename ρ σ) (site.draft env) (value.rename ρ σ) with
        | ok d => simp [(hdraft d).1 hafter] at hbefore
        | error m' => trivial

def Event.Same : Event → Event → Prop
  | .message m kind _ _, .message m' kind' _ _ => m = m' ∧ kind = kind'
  | .fallback _ first second, .fallback _ first' second' => first = first' ∧ second = second'
  | .issue i, .issue i' => i.rule = i'.rule ∧ i.severity = i'.severity
  | _, _ => False

structure Registry.Alike (r r' : Registry) : Prop where
  named : ∀ key, r'.named? key = r.named? key
  unnamed : ∀ binding, r'.unnamed? binding = r.unnamed? binding

theorem isSome_locationOf? (r : Registry) (key : String) :
    (r.locationOf? key).isSome = (r.named? key).isSome := by
  simp [Registry.locationOf?, Registry.named?]

theorem isConsidered_of_alike {c c' : Candidate} (h : c.outcome.Alike c'.outcome) :
    c'.isConsidered = c.isConsidered := by
  unfold Candidate.isConsidered
  cases hc : c.outcome <;> cases hc' : c'.outcome <;> simp [hc, hc', Outcome.Alike] at h ⊢

structure Candidate.IsRenamed (ρ : String → String) (σ : Nat → Nat) (a b : Candidate) : Prop where
  site : b.site = a.site.rename ρ σ
  name : b.name = a.name
  key : b.key = a.key
  isCall : b.isCall = a.isCall
  outcome : a.outcome.Alike b.outcome

theorem candidateOf_rename (h : env.IsRenamed c ρ σ env') (hc : c.Renames ρ)
    (hsite : .site site ∈ stepsOf env.source.program)
    (halone : env.settings.style.isStrict ∨ site.StandsAlone ρ env) :
    (candidateOf env site).IsRenamed ρ σ (candidateOf env' (site.rename ρ σ)) where
  site := rfl
  name := h.siteOldName (stands_of_site h.mem hsite).1
  key := h.siteKey (stands_of_site h.mem hsite).1
  isCall := by
    rw [isCall_candidateOf, isCall_candidateOf, Surroundings.IsRenamed.hasCall_rename]
  outcome := outcome_rename h hc hsite halone

variable {a b : Candidate}

theorem legacyIssues_rename (h : env.IsRenamed c ρ σ env') (hab : a.IsRenamed ρ σ b) :
    List.Forall₂ Event.Same ((legacyIssues env a).map .issue)
      ((legacyIssues env' b).map .issue) := by
  unfold legacyIssues
  rw [isConsidered_of_alike hab.outcome, hab.isCall, h.style]
  dsimp only
  split_ifs
  · exact .cons ⟨rfl, rfl⟩ .nil
  · exact .nil

theorem messageIssues_rename (h : env.IsRenamed c ρ σ env') (hab : a.IsRenamed ρ σ b)
    {r r' : Registry} (hr : Registry.Alike r r') (value : Node) (m : Message) :
    List.Forall₂ Event.Same ((messageIssues env r a value m).map .issue)
      ((messageIssues env' r' b (value.rename ρ σ) m).map .issue) := by
  have hunnamed : b.isUnnamed = a.isUnnamed := by
    unfold Candidate.isUnnamed
    rw [hab.key]
  have hlocation : (r'.locationOf? a.key).isSome = (r.locationOf? a.key).isSome := by
    rw [isSome_locationOf?, isSome_locationOf?, hr.named]
  unfold messageIssues
  rw [hab.key, hab.isCall, hunnamed, h.style]
  dsimp only
  rw [List.map_append, List.map_append, List.map_append, List.map_append]
  refine List.rel_append (List.rel_append ?_ ?_) ?_
  · cases hbefore : r.locationOf? a.key <;> cases hafter : r'.locationOf? a.key <;>
      simp only [hbefore, hafter, Option.isSome_none, Option.isSome_some, reduceCtorEq] at hlocation
    · exact .nil
    · dsimp only
      split_ifs
      · exact .nil
      · exact .cons ⟨rfl, rfl⟩ .nil
  · split_ifs
    · exact .cons ⟨rfl, rfl⟩ .nil
    · exact .nil
  · split_ifs
    · exact .cons ⟨rfl, rfl⟩ .nil
    · exact .nil

theorem outcomeEvents_rename (h : env.IsRenamed c ρ σ env') (hab : a.IsRenamed ρ σ b)
    {r r' : Registry} (hr : Registry.Alike r r') :
    List.Forall₂ Event.Same (outcomeEvents env r a) (outcomeEvents env' r' b) := by
  have houtcome := hab.outcome
  unfold outcomeEvents
  rw [hab.site, Site.value_rename]
  cases ha : a.outcome <;> cases hb : b.outcome <;> simp only [ha, hb, Outcome.Alike] at houtcome
  · exact .nil
  · exact .cons ⟨rfl, rfl⟩ .nil
  · exact .nil
  · exact .cons ⟨rfl, rfl⟩ .nil
  · next m m' =>
    subst houtcome
    cases a.site.value with
    | none => exact .nil
    | some value =>
      exact List.rel_append (messageIssues_rename h hab hr value m) (.cons ⟨rfl, rfl⟩ .nil)

theorem reference?_rename {argument : Node}
    (hspelled : (argument.rename ρ σ).dottedName = argument.dottedName) :
    reference? (argument.rename ρ σ) =
      (reference? argument).map fun (name, span) => (name, span.move σ) := by
  unfold reference?
  rw [hspelled]
  cases argument.dottedName with
  | none => rfl
  | some name =>
    dsimp only
    split_ifs
    · simp
    · rfl

theorem references?_rename {arguments : List Node}
    (hspelled : ∀ n ∈ arguments, (n.rename ρ σ).dottedName = n.dottedName) :
    references? (arguments.map (Node.rename ρ σ)) =
      (references? arguments).map fun (x, y) => ((x.1, x.2.move σ), (y.1, y.2.move σ)) := by
  match arguments with
  | [] | [_] | _ :: _ :: _ :: _ => rfl
  | [first, second] =>
    simp only [List.map_cons, List.map_nil, references?,
      reference?_rename (hspelled first (by simp)), reference?_rename (hspelled second (by simp))]
    cases reference? first <;> cases reference? second <;> rfl

theorem dottedName_cases {n : Node} {name : String} (hn : n.names ⊆ c.names)
    (h : n.dottedName = some name) :
    (name ∈ c.names ∧ (n.rename ρ σ).dottedName = some (ρ name)) ∨ name = "this" ∨
      '.' ∈ name.toList := by
  induction n using Node.parts_induction with
  | whole n ih =>
    cases n with
    | name text span =>
      cases h
      exact .inl ⟨hn (Node.spelled_subset _ List.mem_cons_self), rfl⟩
    | this =>
      cases h
      exact .inr (.inl rfl)
    | member base last span =>
      obtain ⟨first, -, rfl⟩ := Option.map_eq_some_iff.1 h
      exact .inr (.inr (dot_mem_member first last))
    | paren inner span =>
      have hinner : inner ∈ (Node.paren inner span).parts := List.mem_cons_self
      exact ih inner hinner (List.Subset.trans (Node.names_subset_of_mem_parts hinner) hn) h
    | _ => cases h

theorem lookup?_rename (hc : c.Renames ρ) {scopes : Scopes} (hscopes : scopes.NamesIn c.names)
    {r r' : Registry} (hr : Registry.Alike r r') {argument : Node}
    (hn : argument.names ⊆ c.names)
    (hspelled : (argument.rename ρ σ).dottedName = argument.dottedName) {name : String} {span : Span}
    (href : reference? argument = some (name, span)) :
    r'.lookup? (scopes.rename ρ) name = r.lookup? scopes name := by
  obtain ⟨hname, hoccurs⟩ : argument.dottedName = some name ∧
      Text.occurs Name.messageMark name.toList := by
    unfold reference? at href
    split at href
    · split_ifs at href
      cases href
      exact ⟨‹_›, ‹_›⟩
    · cases href
  have hresolve : (scopes.rename ρ).resolve name = scopes.resolve name := by
    rcases dottedName_cases (σ := σ) hn hname with ⟨hmem, hrenamed⟩ | rfl | hdot
    · have hself : ρ name = name := by
        rw [hspelled, hname] at hrenamed
        exact (Option.some.inj hrenamed).symm
      have hresolve := Scopes.resolve_rename hc.injective hscopes hmem
      rwa [hself] at hresolve
    · exact absurd hoccurs (by decide)
    · rw [Scopes.resolve_eq_none hscopes, Scopes.resolve_eq_none hscopes.rename]
      · intro hmem
        obtain ⟨x, hx, rfl⟩ := List.mem_map.1 hmem
        exact (hc.undotted x hx).2 hdot
      · exact fun hmem => (hc.undotted name hmem).1 hdot
  unfold Registry.lookup?
  rw [hresolve]
  split
  · rfl
  · split_ifs
    · exact congrArg _ (funext hr.unnamed)
    · exact hr.named _

theorem fallbackEvent_rename (hc : c.Renames ρ) {scopes : Scopes}
    (hscopes : scopes.NamesIn c.names) {r r' : Registry} (hr : Registry.Alike r r')
    {arguments : List Node} (hn : ∀ n ∈ arguments, n.names ⊆ c.names)
    (hspelled : ∀ n ∈ arguments, (n.rename ρ σ).dottedName = n.dottedName) (span : Span) :
    (fallbackEvent env scopes r arguments span).Same
      (fallbackEvent env' (scopes.rename ρ) r' (arguments.map (Node.rename ρ σ)) (span.move σ)) := by
  have hlookup : ∀ n ∈ arguments, ∀ name span, reference? n = some (name, span) →
      r'.lookup? (scopes.rename ρ) name = r.lookup? scopes name := fun n hmem name span =>
    lookup?_rename hc hscopes hr (hn n hmem) (hspelled n hmem)
  unfold fallbackEvent
  rw [references?_rename hspelled]
  rcases references?_cases arguments with ⟨h, -⟩ | ⟨a, b, first, second, rfl, ha, hb, h⟩
  · rw [h]
    exact ⟨rfl, rfl⟩
  · have hfirst := hlookup a (by simp) first a.span (reference?_eq_some.2 ⟨ha, rfl⟩)
    have hsecond := hlookup b (by simp) second b.span (reference?_eq_some.2 ⟨hb, rfl⟩)
    rw [h]
    simp only [Option.map_some, hfirst, hsecond]
    cases r.lookup? scopes first with
    | none => exact ⟨rfl, rfl⟩
    | some m =>
      cases r.lookup? scopes second with
      | none => exact ⟨rfl, rfl⟩
      | some m' => exact ⟨rfl, rfl⟩

end Definition

end MessageCatalog
