import MessageCatalog.Proofs.Alike
import MessageCatalog.Proofs.Moments
import MessageCatalog.Proofs.SourceNames

/-! The same files under settings that make other ids and map sources in another way. Both runs go
the same way: nothing that a step decides depends on an id or on a mapped place. -/

namespace MessageCatalog

def Message.remade (generator : IdGenerator) (sourceName : String) (m : Message) : Message :=
  { m with
    id := if m.isExternal then m.id else generator.makeId m.key m.parts m.metadata
    sourceName := sourceName }

def Message.Matches (m m' : Message) : Prop :=
  m' = { m with id := m'.id, sourceName := m'.sourceName } ∧ (m.isExternal → m'.id = m.id)

theorem Draft.build_placedAt (generator generator' : IdGenerator) (sourceName : String)
    (d : Draft) : (d.placedAt sourceName).build generator' =
      (d.build generator).remade generator' sourceName := by
  unfold Draft.build Draft.placedAt Message.remade
  cases d.key.bind fun key => Name.externalId? key.toList <;> rfl

def Issue.withContext (context : Context) : Issue → Issue
  | .noDescription _ key severity => .noDescription context key severity
  | .emptyText _ key => .emptyText context key
  | .malformed _ reason => .malformed context reason
  | .noValue _ key => .noValue context key
  | .duplicateKey _ key previous => .duplicateKey context key previous
  | .orphanedCall _ severity => .orphanedCall context severity
  | .legacyValue _ key severity => .legacyValue context key severity
  | .badFallback _ => .badFallback context
  | .fallbackArgument _ reference => .fallbackArgument context reference
  | .unreadable file reason => .unreadable file reason

namespace Definition
open Script (Node Span)

structure Settings.Kin (s s' : Settings) : Prop where
  style : s'.style = s.style
  oldNames : s'.oldNames = s.oldNames

def Surroundings.given (s : Settings) (env : Surroundings) : Surroundings :=
  { env with settings := s }

def Visit.given (s : Settings) (v : Visit) : Visit := (v.1.given s, v.2)

def Outcome.remade (generator : IdGenerator) (sourceName : String) : Outcome → Outcome
  | .defined m => .defined (m.remade generator sourceName)
  | o => o

def Forwarded.given (s : Settings) (f : Forwarded) : Forwarded where
  env := f.env.given s
  site := f.site
  value := f.value
  message := f.message.remade s.strategy ((f.env.given s).sourceNameAt f.site.span)

variable {s s' : Settings} {env : Surroundings} {site : Site} {P : Message → Message → Prop}

namespace Settings.Kin

variable (h : env.settings.Kin s')
include h

theorem oldName (name : String) : s'.oldName name = env.settings.oldName name := by
  unfold Settings.oldName
  rw [h.oldNames]

theorem siteOldName (site : Site) : site.oldName (env.given s') = site.oldName env :=
  h.oldName site.name

theorem siteKey (site : Site) : site.key (env.given s') = site.key env := by
  unfold Site.key
  rw [h.siteOldName]

theorem siteIsUnnamed (site : Site) : site.isUnnamed (env.given s') = site.isUnnamed env := by
  unfold Site.isUnnamed
  rw [h.siteKey]

theorem namesMessage (site : Site) :
    site.namesMessage (env.given s') = site.namesMessage env := by
  unfold Site.namesMessage
  rw [h.siteOldName]
  exact congrArg _ h.style

theorem isAlias (value : Node) : isAlias s' value = Definition.isAlias env.settings value := by
  unfold Definition.isAlias
  simp only [h.oldName]

theorem siteDraft (site : Site) : site.draft (env.given s') =
    (site.draft env).placedAt ((env.given s').sourceNameAt site.span) := by
  unfold Site.draft Draft.placedAt
  rw [h.siteIsUnnamed, h.siteKey]

theorem draftOf (site : Site) (value : Node) :
    draftOf (env.given s') site (site.draft (env.given s')) value =
      Draft.placedAt ((env.given s').sourceNameAt site.span) <$>
        Definition.draftOf env site (site.draft env) value := by
  have hdoc : env.SameDoc (env.given s') site := rfl
  rw [h.siteDraft, draftOf_placedAt, Surroundings.Alike.draftOf hdoc]

theorem outcome (site : Site) : (candidateOf (env.given s') site).outcome =
    (candidateOf env site).outcome.remade s'.strategy
      ((env.given s').sourceNameAt site.span) := by
  have hstyle : (env.given s').settings.style = env.settings.style := h.style
  have halias : ∀ value, Definition.isAlias (env.given s').settings value =
      Definition.isAlias env.settings value := h.isAlias
  rw [outcome_candidateOf, outcome_candidateOf, h.namesMessage, hstyle]
  by_cases hname : site.namesMessage env
  · rw [if_pos hname, if_pos hname]
    cases site.value with
    | none => rfl
    | some value =>
      simp only [halias]
      split_ifs with hkept hstrict
      · rfl
      · rfl
      · rw [h.draftOf]
        cases Definition.draftOf env site (site.draft env) value with
        | error m => rfl
        | ok d => exact congrArg Outcome.defined (Draft.build_placedAt _ _ _ d)
  · rw [if_neg hname, if_neg hname]
    rfl

theorem forwardedAt (step : Step) : forwardedAt (env.given s', step) =
    (Definition.forwardedAt (env, step)).map (Forwarded.given s') := by
  cases step with
  | enter => rfl
  | exit => rfl
  | call => rfl
  | site site =>
    simp only [Definition.forwardedAt, h.outcome]
    cases (candidateOf env site).outcome <;> cases site.value <;> rfl

theorem isConsidered (site : Site) : (candidateOf (env.given s') site).isConsidered =
    (candidateOf env site).isConsidered := by
  unfold Candidate.isConsidered
  rw [h.outcome]
  cases (candidateOf env site).outcome <;> rfl

end Settings.Kin

def Issue.Paired (s s' : Settings) (i i' : Issue) : Prop :=
  ∃ source : Source, ∃ span, i.context? = some (Surroundings.contextAt ⟨s, 0, source⟩ span) ∧
    i' = i.withContext (Surroundings.contextAt ⟨s', 0, source⟩ span)

def Event.Paired (s s' : Settings) (P : Message → Message → Prop) : Event → Event → Prop
  | .message m kind span location, .message m' kind' span' location' =>
    P m m' ∧ kind' = kind ∧ span' = span ∧ location' = location
  | .fallback span first second, .fallback span' first' second' =>
    span' = span ∧ P first first' ∧ P second second'
  | .issue i, .issue i' => Issue.Paired s s' i i'
  | _, _ => False

def NamedEntry.Paired (P : Message → Message → Prop) (e e' : NamedEntry) : Prop :=
  P e.message e'.message ∧ e'.location = e.location

structure Registry.Paired (P : Message → Message → Prop) (r r' : Registry) : Prop where
  named : ∀ key, Option.Rel (NamedEntry.Paired P) (r.named.find? key) (r'.named.find? key)
  unnamed : ∀ binding, Option.Rel P (r.unnamed.find? binding) (r'.unnamed.find? binding)

structure State.Paired (P : Message → Message → Prop) (state state' : State) : Prop where
  scopes : state'.scopes = state.scopes
  pending : state'.pending = state.pending
  registry : Registry.Paired P state.registry state'.registry

namespace Registry.Paired

variable {r r' : Registry} (h : Registry.Paired P r r')
include h

theorem locationOf? (key : String) : r'.locationOf? key = r.locationOf? key := by
  have hnamed := h.named key
  unfold Registry.locationOf?
  generalize r.named.find? key = e, r'.named.find? key = e' at hnamed
  cases hnamed with
  | none => rfl
  | some hentry => exact congrArg some hentry.2

theorem named? (key : String) : Option.Rel P (r.named? key) (r'.named? key) := by
  have hnamed := h.named key
  unfold Registry.named?
  generalize r.named.find? key = e, r'.named.find? key = e' at hnamed
  cases hnamed with
  | none => exact .none
  | some hentry => exact .some hentry.1

theorem lookup? (scopes : Scopes) (reference : String) :
    Option.Rel P (r.lookup? scopes reference) (r'.lookup? scopes reference) := by
  unfold Registry.lookup?
  split
  · exact .none
  · split_ifs
    · cases scopes.resolve reference with
      | none => exact .none
      | some binding => exact h.unnamed binding
    · exact h.named? _

theorem register (hkin : env.settings.Kin s') {scopes : Scopes} {value : Node} {m m' : Message}
    (hm : P m m') :
    Registry.Paired P (register env scopes r (candidateOf env site) value m)
      (register (env.given s') scopes r' (candidateOf (env.given s') site) value m') := by
  obtain ⟨hnamed, hunnamed⟩ := register_stored env site scopes r value m
  obtain ⟨hnamed', hunnamed'⟩ := register_stored (env.given s') site scopes r' value m'
  constructor
  · intro key
    rw [hnamed, hnamed', hkin.siteIsUnnamed, hkin.siteKey]
    split_ifs
    · exact .some ⟨hm, rfl⟩
    · exact h.named key
  · intro binding
    rw [hunnamed, hunnamed', hkin.siteIsUnnamed]
    split_ifs
    · exact .some hm
    · exact h.unnamed binding

end Registry.Paired

namespace Settings.Kin

variable (h : env.settings.Kin s')
include h

theorem legacyIssues (site : Site) :
    List.Forall₂ (Event.Paired env.settings s' P)
      ((legacyIssues env (candidateOf env site)).map .issue)
      ((Definition.legacyIssues (env.given s') (candidateOf (env.given s') site)).map .issue) := by
  have hstyle : (env.given s').settings.style = env.settings.style := h.style
  have hname : (candidateOf (env.given s') site).name = (candidateOf env site).name :=
    h.siteOldName site
  have hcall : (candidateOf (env.given s') site).isCall = (candidateOf env site).isCall := rfl
  unfold Definition.legacyIssues
  rw [h.isConsidered, hname, hcall, hstyle]
  dsimp only
  split_ifs
  · exact .cons ⟨env.source, site.span, rfl, rfl⟩ .nil
  · exact .nil

theorem messageIssues (site : Site) {r r' : Registry} (hr : Registry.Paired P r r') (value : Node)
    {m m' : Message} {generator : IdGenerator} {sourceName : String}
    (hm : m' = m.remade generator sourceName) :
    List.Forall₂ (Event.Paired env.settings s' P)
      ((messageIssues env r (candidateOf env site) value m).map .issue)
      ((Definition.messageIssues (env.given s') r' (candidateOf (env.given s') site) value
        m').map .issue) := by
  have hstyle : (env.given s').settings.style = env.settings.style := h.style
  have hkey : (candidateOf (env.given s') site).key = (candidateOf env site).key := h.siteKey site
  have hcall : (candidateOf (env.given s') site).isCall = (candidateOf env site).isCall := rfl
  have hunnamed : (candidateOf (env.given s') site).isUnnamed = (candidateOf env site).isUnnamed :=
    h.siteIsUnnamed site
  have hempty : m'.isEmpty = m.isEmpty := by rw [hm]; rfl
  have hdescribed : m'.isDescribed = m.isDescribed := by rw [hm]; rfl
  have hexternal : m'.isExternal = m.isExternal := by rw [hm]; rfl
  unfold Definition.messageIssues
  rw [hkey, hcall, hunnamed, hr.locationOf?, hempty, hdescribed, hexternal, hstyle]
  simp only [List.map_append]
  refine List.rel_append (List.rel_append ?_ ?_) ?_
  · cases r.locationOf? (candidateOf env site).key with
    | none => exact .nil
    | some previous =>
      dsimp only
      split_ifs
      · exact .nil
      · exact .cons ⟨env.source, value.span, rfl, rfl⟩ .nil
  · split_ifs
    · exact .cons ⟨env.source, site.span, rfl, rfl⟩ .nil
    · exact .nil
  · split_ifs
    · exact .cons ⟨env.source, site.span, rfl, rfl⟩ .nil
    · exact .nil

theorem outcomeEvents (site : Site)
    (hP : ∀ f ∈ Definition.forwardedAt (env, .site site), P f.message (f.given s').message)
    {r r' : Registry} (hr : Registry.Paired P r r') :
    List.Forall₂ (Event.Paired env.settings s' P) (outcomeEvents env r (candidateOf env site))
      (Definition.outcomeEvents (env.given s') r' (candidateOf (env.given s') site)) := by
  have hsite : (candidateOf env site).site = site := rfl
  have hsite' : (candidateOf (env.given s') site).site = site := rfl
  have hname : (candidateOf (env.given s') site).name = (candidateOf env site).name :=
    h.siteOldName site
  unfold Definition.outcomeEvents
  rw [h.outcome, hname, hsite, hsite']
  unfold Definition.forwardedAt at hP
  cases houtcome : (candidateOf env site).outcome with
  | ignored => exact .nil
  | noValue => exact .cons ⟨env.source, site.span, rfl, rfl⟩ .nil
  | refused => exact .nil
  | malformed m => exact .cons ⟨env.source, m.span, rfl, rfl⟩ .nil
  | defined m =>
    cases hvalue : site.value with
    | none => exact .nil
    | some value =>
      simp only [houtcome, hvalue] at hP
      have hm := hP _ (List.mem_singleton_self _)
      exact List.rel_append (h.messageIssues site hr value rfl) (.cons ⟨hm, rfl, rfl, rfl⟩ .nil)

omit h in
theorem fallbackEvent {r r' : Registry} (hr : Registry.Paired P r r') (scopes : Scopes)
    (arguments : List Node) (span : Span) :
    Event.Paired env.settings s' P (fallbackEvent env scopes r arguments span)
      (Definition.fallbackEvent (env.given s') scopes r' arguments span) := by
  unfold Definition.fallbackEvent
  split
  · exact ⟨env.source, span, rfl, rfl⟩
  · next first firstSpan second secondSpan _ =>
    have hfirst := hr.lookup? scopes first
    have hsecond := hr.lookup? scopes second
    generalize r.lookup? scopes first = a, r'.lookup? scopes first = a' at hfirst
    generalize r.lookup? scopes second = b, r'.lookup? scopes second = b' at hsecond
    cases hfirst with
    | none => exact ⟨env.source, firstSpan, rfl, rfl⟩
    | some hm =>
      cases hsecond with
      | none => exact ⟨env.source, secondSpan, rfl, rfl⟩
      | some hm' => exact ⟨rfl, hm, hm'⟩

end Settings.Kin

variable {state state' : State}

theorem emitted_paired (h : env.settings.Kin s') {step : Step}
    (hP : ∀ f ∈ forwardedAt (env, step), P f.message (f.given s').message)
    (hstate : state.Paired P state') :
    List.Forall₂ (Event.Paired env.settings s' P) (emitted env state step)
      (emitted (env.given s') state' step) := by
  cases step with
  | enter => exact .nil
  | exit => exact .nil
  | site site =>
    exact List.rel_append (h.legacyIssues site) (h.outcomeEvents site hP hstate.registry)
  | call callee arguments span =>
    simp only [emitted, hstate.scopes]
    split_ifs
    · exact .nil
    · exact .cons (Settings.Kin.fallbackEvent hstate.registry _ arguments span) .nil
    · exact .nil

theorem perform_paired (h : env.settings.Kin s') {step : Step}
    (hP : ∀ f ∈ forwardedAt (env, step), P f.message (f.given s').message)
    (hstate : state.Paired P state') :
    State.Paired P (perform env state step) (perform (env.given s') state' step) := by
  obtain ⟨hscopes, hpending, hregistry⟩ := hstate
  cases step with
  | enter names => exact ⟨congrArg (·.enter.declareAll names) hscopes, hpending, hregistry⟩
  | exit => exact ⟨congrArg (·.exit) hscopes, hpending, hregistry⟩
  | call callee arguments span =>
    have hfile : (env.given s').file = env.file := rfl
    simp only [perform, checkCall, hpending, hfile]
    split_ifs
    · exact ⟨hscopes, hpending, hregistry⟩
    · exact ⟨hscopes, rfl, hregistry⟩
    · exact ⟨hscopes, rfl, hregistry⟩
    · exact ⟨hscopes, hpending, hregistry⟩
  | site site =>
    refine ⟨hscopes, ?_, ?_⟩
    · simp only [perform, checkSite, takeCall_candidateOf, h.isConsidered, hpending]
      rfl
    · simp only [perform, checkSite, h.outcome, hscopes]
      unfold forwardedAt at hP
      cases houtcome : (candidateOf env site).outcome with
      | defined m =>
        cases hvalue : site.value with
        | none => exact hregistry
        | some value =>
          simp only [houtcome, hvalue] at hP
          exact hregistry.register h (hP _ (List.mem_singleton_self _))
      | _ => exact hregistry

structure Moment.Paired (s s' : Settings) (P : Message → Message → Prop) (t t' : Moment) :
    Prop where
  file : t'.env.file = t.env.file
  source : t'.env.source = t.env.source
  step : t'.step = t.step
  emitted : List.Forall₂ (Event.Paired s s' P) t.emitted t'.emitted

theorem momentsFrom_paired (vs : List Visit) (hvs : ∀ v ∈ vs, v.1.settings = s) (h : s.Kin s')
    (hP : ∀ f ∈ vs.flatMap forwardedAt, P f.message (f.given s').message)
    (hstate : state.Paired P state') :
    List.Forall₂ (Moment.Paired s s' P) (momentsFrom state vs)
        (momentsFrom state' (vs.map (Visit.given s'))) ∧
      State.Paired P (visitAll vs state) (visitAll (vs.map (Visit.given s')) state') := by
  induction vs generalizing state state' with
  | nil => exact ⟨.nil, hstate⟩
  | cons v vs ih =>
    obtain ⟨hv, hvs⟩ := List.forall_mem_cons.1 hvs
    rw [List.flatMap_cons, List.forall_mem_append] at hP
    subst hv
    obtain ⟨hmoments, hfinal⟩ := ih hvs hP.2 (perform_paired h hP.1 hstate)
    exact ⟨.cons ⟨rfl, rfl, rfl, emitted_paired h hP.1 hstate⟩ hmoments, hfinal⟩

theorem visitsFrom_given (s s' : Settings) (file : Nat) (sources : List Source) :
    visitsFrom s' file sources = (visitsFrom s file sources).map (Visit.given s') := by
  induction sources generalizing file with
  | nil => rfl
  | cons source rest ih =>
    rw [visitsFrom, visitsFrom, List.map_append, ← ih, List.map_map]
    rfl

theorem orphanEvents_paired (h : s.Kin s') (sources : List Source) (call : CallSite) :
    List.Forall₂ (Event.Paired s s' P) (orphanEvents s sources call)
      (orphanEvents s' sources call) := by
  unfold orphanEvents
  rw [h.style]
  cases sources[call.file]? with
  | none => exact .nil
  | some source => exact .cons ⟨source, call.span, rfl, rfl⟩ .nil

theorem forwarded_given (h : s.Kin s') (c : Compilation) :
    forwarded s' c = (forwarded s c).map (Forwarded.given s') := by
  unfold forwarded visits
  rw [visitsFrom_given s s', List.flatMap_map, List.map_flatMap]
  refine List.flatMap_congr fun v hv => ?_
  have hsettings : v.1.settings = s := (mem_visitsFrom hv).1
  subst hsettings
  exact h.forwardedAt v.2

def Counterparts (s s' : Settings) (c : Compilation) (m m' : Message) : Prop :=
  ∃ f ∈ forwarded s c, m = f.message ∧ m' = (f.given s').message

theorem run_paired (h : s.Kin s') (c : Compilation) :
    List.Forall₂ (Moment.Paired s s' (Counterparts s s' c)) (moments s c) (moments s' c) ∧
      List.Forall₂ (Event.Paired s s' (Counterparts s s' c)) (run s c) (run s' c) := by
  have hvisits : visits s' c = (visits s c).map (Visit.given s') := visitsFrom_given s s' 0 c.sources
  have hstart : (startOf c).Paired (Counterparts s s' c) (startOf c) :=
    ⟨rfl, rfl, fun _ => .none, fun _ => .none⟩
  obtain ⟨hmoments, hfinal⟩ := momentsFrom_paired (visits s c)
    (fun v hv => (mem_visitsFrom hv).1) h (fun f hf => ⟨f, hf, rfl, rfl⟩) hstart
  rw [← hvisits] at hmoments hfinal
  refine ⟨hmoments, ?_⟩
  rw [run_eq_moments, run_eq_moments]
  refine List.rel_append (List.rel_flatMap hmoments fun t t' ht => ht.emitted) ?_
  have hpending : (finalState s' c).pending = (finalState s c).pending := hfinal.pending
  rw [hpending]
  refine List.rel_flatMap (R := Eq) (List.forall₂_same.2 fun _ _ => rfl) ?_
  rintro call _ rfl
  exact orphanEvents_paired h c.sources call

/-- The same event up to ids, source names and the places of issues; pairs consist of messages that
stand side by side in `messages`. -/
def Event.Matches (messages : List (Message × Message)) : Event → Event → Prop
  | .message m kind span location, .message m' kind' span' location' =>
    m.Matches m' ∧ kind' = kind ∧ span' = span ∧ location' = location
  | .fallback span first second, .fallback span' first' second' =>
    span' = span ∧ (first, first') ∈ messages ∧ (second, second') ∈ messages
  | .issue i, .issue i' => ∃ context, i' = i.withContext context
  | _, _ => False

structure Moment.Matches (messages : List (Message × Message)) (t t' : Moment) : Prop where
  file : t'.env.file = t.env.file
  source : t'.env.source = t.env.source
  step : t'.step = t.step
  emitted : List.Forall₂ (Event.Matches messages) t.emitted t'.emitted

def messagePairs (events events' : List Event) : List (Message × Message) :=
  (Event.messages events).zip (Event.messages events')

def Settings.making (generator : IdGenerator) (lineMap : SourceMap) (s : Settings) : Settings :=
  { s with strategy := generator, lineMap := lineMap }

theorem Counterparts.matches {c : Compilation} {m m' : Message} (h : Counterparts s s' c m m') :
    m.Matches m' := by
  obtain ⟨f, -, rfl, rfl⟩ := h
  exact ⟨rfl, fun hexternal => if_pos hexternal⟩

theorem Counterparts.mem_messagePairs {c : Compilation} (hkin : s.Kin s') {m m' : Message}
    (h : Counterparts s s' c m m') : (m, m') ∈ messagePairs (run s c) (run s' c) := by
  obtain ⟨f, hf, rfl, rfl⟩ := h
  rw [messagePairs, messages_run, messages_run, forwarded_given hkin, List.map_map, List.zip_map']
  exact List.mem_map_of_mem hf

theorem Event.Paired.matches {c : Compilation} (hkin : s.Kin s') {e e' : Event}
    (h : Event.Paired s s' (Counterparts s s' c) e e') :
    Event.Matches (messagePairs (run s c) (run s' c)) e e' := by
  cases e <;> cases e' <;> try exact h.elim
  · obtain ⟨hm, hsame⟩ := h
    exact ⟨hm.matches, hsame⟩
  · obtain ⟨hspan, hfirst, hsecond⟩ := h
    exact ⟨hspan, hfirst.mem_messagePairs hkin, hsecond.mem_messagePairs hkin⟩
  · obtain ⟨source, span, -, hi⟩ := h
    exact ⟨_, hi⟩

/-- With other ids and another source map, a run takes the same steps and hands on the same messages
but for ids and source names, the same pairs of them at the same calls, and the same issues but for
the places where they are shown. -/
theorem observed_run (settings : Settings) (generator : IdGenerator) (lineMap : SourceMap)
    (c : Compilation) :
    List.Forall₂ (Moment.Matches
        (messagePairs (run settings c) (run (settings.making generator lineMap) c)))
      (moments settings c) (moments (settings.making generator lineMap) c) ∧
    List.Forall₂ (Event.Matches
        (messagePairs (run settings c) (run (settings.making generator lineMap) c)))
      (run settings c) (run (settings.making generator lineMap) c) := by
  have hkin : settings.Kin (settings.making generator lineMap) := ⟨rfl, rfl⟩
  obtain ⟨hmoments, hevents⟩ := run_paired hkin c
  refine ⟨hmoments.imp fun t t' ht => ?_, hevents.imp fun e e' he => he.matches hkin⟩
  exact ⟨ht.file, ht.source, ht.step, ht.emitted.imp fun e e' he => he.matches hkin⟩

end Definition
end MessageCatalog
