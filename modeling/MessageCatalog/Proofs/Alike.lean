import MessageCatalog.Proofs.Run
import MessageCatalog.Proofs.SiteOutcome

/-! What becomes of a site depends on the source and on the settings, but not on the number of the
file, and on the style only through what the style allows. -/

namespace MessageCatalog.Definition
open Script (Node Span)

structure State.Agree (state state' : State) : Prop where
  scopes : state.scopes = state'.scopes
  registry : state.registry = state'.registry
  pending : state.pending = state'.pending

structure Surroundings.Alike (env env' : Surroundings) : Prop where
  path : env.source.path = env'.source.path
  text : env.source.text = env'.source.text
  strategy : env.settings.strategy = env'.settings.strategy
  lineMap : env.settings.lineMap = env'.settings.lineMap
  oldNames : env.settings.oldNames = env'.settings.oldNames

def Surroundings.SameDoc (env env' : Surroundings) (site : Site) : Prop :=
  env.docCommentAt site.docs = env'.docCommentAt site.docs

namespace Surroundings.Alike

variable {env env' : Surroundings} (h : env.Alike env')
include h

theorem contextAt : env.contextAt = env'.contextAt := by
  funext span
  unfold Surroundings.contextAt
  rw [h.path, h.text, h.lineMap]

theorem locationAt : env.locationAt = env'.locationAt := by
  funext span
  unfold Surroundings.locationAt
  rw [h.path, h.text]

theorem sourceNameAt : env.sourceNameAt = env'.sourceNameAt := by
  funext span
  unfold Surroundings.sourceNameAt
  rw [h.contextAt]

theorem oldName (name : String) : env.settings.oldName name = env'.settings.oldName name := by
  unfold Settings.oldName
  rw [h.oldNames]

theorem siteOldName (site : Site) : site.oldName env = site.oldName env' := h.oldName site.name

theorem key (site : Site) : site.key env = site.key env' := by
  unfold Site.key
  rw [h.siteOldName]

theorem draft (site : Site) : site.draft env = site.draft env' := by
  unfold Site.draft Site.isUnnamed
  rw [h.key, h.sourceNameAt]

theorem isAlias (value : Node) : isAlias env.settings value = isAlias env'.settings value := by
  unfold Definition.isAlias
  simp only [h.oldName]

omit h in
theorem draftOf {site : Site} (hdoc : env.SameDoc env' site) (d : Draft) (value : Node) :
    draftOf env site d value = Definition.draftOf env' site d value := by
  have hannotate : env.annotate site = env'.annotate site := by
    funext d
    unfold annotate
    rw [hdoc]
  have hlegacy : describeLegacy env site = describeLegacy env' site := by
    funext d
    unfold describeLegacy
    rw [hdoc, hannotate]
  unfold Definition.draftOf draftOfVariable
  rw [hannotate, hlegacy]

/-- A value that both styles allow, under a name that both take for that of a message, comes to the
same. -/
theorem outcome {site : Site} (hdoc : env.SameDoc env' site)
    (hnames : site.namesMessage env = site.namesMessage env')
    (hallowed : (env.settings.style.isStrict ∧ ¬ site.hasCall) ↔
      (env'.settings.style.isStrict ∧ ¬ site.hasCall)) :
    (candidateOf env site).outcome = (candidateOf env' site).outcome := by
  rw [outcome_candidateOf, outcome_candidateOf, hnames]
  cases site.value with
  | none => rfl
  | some value => simp only [h.isAlias, h.draft, draftOf hdoc, h.strategy, hallowed]

theorem candidateOf (site : Site) (hdoc : env.SameDoc env' site)
    (hstrict : env.settings.style.isStrict = env'.settings.style.isStrict) :
    candidateOf env site = Definition.candidateOf env' site := by
  have hname := h.siteOldName site
  have hkey := h.key site
  have houtcome : (Definition.candidateOf env site).outcome =
      (Definition.candidateOf env' site).outcome := by
    apply h.outcome hdoc
    · unfold Site.namesMessage Name.isMessage
      rw [hname, hstrict]
    · rw [hstrict]
  unfold Definition.candidateOf at houtcome ⊢
  unfold Site.key at hkey
  unfold Site.oldName at hname hkey
  rw [Candidate.mk.injEq]
  exact ⟨rfl, hname, hkey, rfl, houtcome⟩

theorem register (scopes : Scopes) (registry : Registry) (c : Candidate) (value : Node)
    (m : Message) :
    register env scopes registry c value m =
      Definition.register env' scopes registry c value m := by
  unfold Definition.register
  rw [h.locationAt]

theorem outcomeEvents (hstrict : env.settings.style.isStrict = env'.settings.style.isStrict)
    (registry : Registry) (c : Candidate) :
    outcomeEvents env registry c = Definition.outcomeEvents env' registry c := by
  have hlevel : env.settings.style.checkLevel = env'.settings.style.checkLevel := by
    unfold Style.checkLevel
    rw [hstrict]
  have hissues : messageIssues env registry c = messageIssues env' registry c := by
    funext value m
    unfold messageIssues
    rw [h.contextAt, hlevel]
  unfold Definition.outcomeEvents
  rw [h.contextAt, h.locationAt, hissues]

theorem fallbackEvent (scopes : Scopes) (registry : Registry) (arguments : List Node)
    (span : Span) :
    fallbackEvent env scopes registry arguments span =
      Definition.fallbackEvent env' scopes registry arguments span := by
  unfold Definition.fallbackEvent
  rw [h.contextAt]

theorem emitted (hstyle : env.settings.style = env'.settings.style) (state : State) {step : Step}
    (hdoc : ∀ site, step = .site site → env.SameDoc env' site) :
    emitted env state step = Definition.emitted env' state step := by
  have hstrict : env.settings.style.isStrict = env'.settings.style.isStrict := by rw [hstyle]
  cases step with
  | enter => rfl
  | exit => rfl
  | site site =>
    simp only [Definition.emitted]
    rw [h.candidateOf site (hdoc site rfl) hstrict, h.outcomeEvents hstrict]
    unfold legacyIssues
    rw [h.contextAt, hstyle]
  | call callee arguments span =>
    simp only [Definition.emitted]
    rw [h.fallbackEvent]

theorem perform (hfile : env.file = env'.file)
    (hstrict : env.settings.style.isStrict = env'.settings.style.isStrict) {state state' : State}
    (hstate : state.Agree state') {step : Step}
    (hdoc : ∀ site, step = .site site → env.SameDoc env' site) :
    State.Agree (perform env state step) (Definition.perform env' state' step) := by
  obtain ⟨hscopes, hregistry, hpending⟩ := hstate
  cases step with
  | enter names => exact ⟨congrArg (·.enter.declareAll names) hscopes, hregistry, hpending⟩
  | exit => exact ⟨congrArg (·.exit) hscopes, hregistry, hpending⟩
  | site site =>
    have hcandidate := h.candidateOf site (hdoc site rfl) hstrict
    refine ⟨hscopes, ?_, ?_⟩
    · simp only [Definition.perform, checkSite, hcandidate, hscopes, hregistry, h.register]
    · simp only [Definition.perform, checkSite, hcandidate, hpending, takeCall, hfile]
  | call callee arguments span =>
    simp only [Definition.perform, checkCall, hfile, hpending]
    constructor
    · split_ifs <;> exact hscopes
    · split_ifs <;> exact hregistry
    · split_ifs
      · exact hpending
      · rfl
      · exact rfl
      · exact hpending

theorem perform_eq (hfile : env.file = env'.file)
    (hstyle : env.settings.style = env'.settings.style) (state : State) {step : Step}
    (hdoc : ∀ site, step = .site site → env.SameDoc env' site) :
    Definition.perform env state step = Definition.perform env' state step := by
  have hstrict : env.settings.style.isStrict = env'.settings.style.isStrict := by rw [hstyle]
  have hagree := h.perform hfile hstrict (⟨rfl, rfl, rfl⟩ : State.Agree state state) hdoc
  have hevents : (Definition.perform env state step).events =
      (Definition.perform env' state step).events := by
    rw [events_perform, events_perform, h.emitted hstyle state hdoc]
  rw [State.mk.injEq]
  exact ⟨hagree.scopes, hagree.registry, hagree.pending, hevents⟩

end Surroundings.Alike

end MessageCatalog.Definition
