import MessageCatalog.Proofs.Alike
import MessageCatalog.Proofs.Moments

/-! The same files under the three styles. Without its reports of legacy values, the relaxed run is
the legacy run; the messages of the strict run are those of the relaxed one whose value is a
call. -/

namespace MessageCatalog.Definition
open Script (Node Span)

def Settings.under (s : Settings) (style : Style) : Settings := { s with style := style }

def Visit.under (v : Visit) (style : Style) : Visit :=
  ({ v.1 with settings := v.1.settings.under style }, v.2)

namespace Event

def isLegacyReport : Event → Bool
  | .issue i => i.rule = .legacyValue
  | _ => false

def pair? : Event → Option Event
  | .fallback span first second => some (.fallback span first second)
  | _ => none

end Event

variable {settings : Settings} {c : Compilation}

theorem visitsFrom_under (settings : Settings) (style : Style) (file : Nat)
    (sources : List Source) :
    visitsFrom (settings.under style) file sources =
      (visitsFrom settings file sources).map (Visit.under · style) := by
  induction sources generalizing file with
  | nil => rfl
  | cons s rest ih =>
    rw [visitsFrom, visitsFrom, List.map_append, ih, List.map_map]
    rfl

theorem alike_under (env : Surroundings) (style style' : Style) :
    Surroundings.Alike { env with settings := env.settings.under style }
      { env with settings := env.settings.under style' } :=
  ⟨rfl, rfl, rfl, rfl, rfl⟩

theorem perform_relax {state state' : State} (h : state.Agree state') (v : Visit) :
    State.Agree (perform (v.under .relax).1 state v.2) (perform (v.under .legacy).1 state' v.2) :=
  (alike_under v.1 .relax .legacy).perform rfl rfl h fun _ _ => rfl

theorem legacyIssues_legacy (env : Surroundings) (c : Candidate) :
    legacyIssues { env with settings := env.settings.under .legacy } c = [] := by
  unfold legacyIssues
  apply if_neg
  simp [Settings.under]

theorem filter_legacyIssues (env : Surroundings) (c : Candidate) :
    ((legacyIssues env c).map Event.issue).filter (!·.isLegacyReport) = [] := by
  rw [List.filter_eq_nil_iff]
  intro event hevent
  obtain ⟨i, hi, rfl⟩ := List.mem_map.1 hevent
  simp [Event.isLegacyReport, rule_of_mem_legacyIssues hi]

theorem filter_outcomeEvents (env : Surroundings) (registry : Registry) (site : Site) :
    (outcomeEvents env registry (candidateOf env site)).filter (!·.isLegacyReport) =
      outcomeEvents env registry (candidateOf env site) := by
  rw [List.filter_eq_self]
  intro event hevent
  rcases outcomeEvents_cases env registry site with ⟨f, -, hevents⟩ | ⟨-, issues, hevents, hrule⟩
  · rw [hevents, List.mem_append, List.mem_map, List.mem_singleton] at hevent
    rcases hevent with ⟨i, hi, rfl⟩ | rfl
    · rcases rule_of_mem_messageIssues hi with hrule | hrule | hrule <;>
        simp [Event.isLegacyReport, hrule]
    · rfl
  · rw [hevents, List.mem_map] at hevent
    obtain ⟨i, hi, rfl⟩ := hevent
    rcases hrule i hi with hrule | hrule <;> simp [Event.isLegacyReport, hrule]

theorem not_isLegacyReport_fallbackEvent (env : Surroundings) (scopes : Scopes)
    (registry : Registry) (arguments : List Node) (span : Span) :
    (fallbackEvent env scopes registry arguments span).isLegacyReport = false := by
  rcases fallbackEvent_cases env scopes registry arguments span with
    ⟨i, hevent, hrule | hrule⟩ | ⟨first, second, hevent⟩
  · simp [hevent, Event.isLegacyReport, hrule]
  · simp [hevent, Event.isLegacyReport, hrule]
  · rw [hevent]
    rfl

theorem emitted_relax {state state' : State} (h : state.Agree state') (v : Visit) :
    (emitted (v.under .relax).1 state v.2).filter (!·.isLegacyReport) =
      emitted (v.under .legacy).1 state' v.2 := by
  obtain ⟨env, step⟩ := v
  have halike := alike_under env .relax .legacy
  cases step with
  | enter names => rfl
  | exit => rfl
  | site site =>
    have hcandidate := halike.candidateOf site rfl rfl
    have hevents := halike.outcomeEvents rfl state.registry
    simp only [emitted, Visit.under]
    rw [List.filter_append, filter_legacyIssues, filter_outcomeEvents, List.nil_append,
      legacyIssues_legacy, List.map_nil, List.nil_append, hcandidate, hevents, h.registry]
  | call callee arguments span =>
    have hevent := halike.fallbackEvent state.scopes state.registry arguments span
    simp only [emitted, Visit.under]
    rw [hevent, h.scopes, h.registry]
    split_ifs
    · rfl
    · rw [List.filter_singleton, not_isLegacyReport_fallbackEvent]
      rfl
    · rfl

theorem visitAll_relax {state state' : State} (h : state.Agree state')
    (hevents : state.events.filter (!·.isLegacyReport) = state'.events) (vs : List Visit) :
    State.Agree (visitAll (vs.map (Visit.under · .relax)) state)
        (visitAll (vs.map (Visit.under · .legacy)) state') ∧
      (visitAll (vs.map (Visit.under · .relax)) state).events.filter (!·.isLegacyReport) =
        (visitAll (vs.map (Visit.under · .legacy)) state').events := by
  induction vs generalizing state state' with
  | nil => exact ⟨h, hevents⟩
  | cons v vs ih =>
    apply ih (perform_relax h v)
    rw [events_perform, events_perform, List.filter_append, hevents]
    exact congrArg (state'.events ++ ·) (emitted_relax h v)

theorem orphanEvents_relax (sources : List Source) :
    orphanEvents (settings.under .relax) sources =
      orphanEvents (settings.under .legacy) sources := by
  funext call
  unfold orphanEvents
  cases sources[call.file]? with
  | none => rfl
  | some source => rfl

theorem filter_run_relax (settings : Settings) (c : Compilation) :
    (run (settings.under .relax) c).filter (!·.isLegacyReport) =
      run (settings.under .legacy) c := by
  have hstart : (startOf c).Agree (startOf c) := ⟨rfl, rfl, rfl⟩
  obtain ⟨hagree, hevents⟩ := visitAll_relax hstart rfl (visits settings c)
  have hend : ∀ pending : List CallSite,
      (pending.flatMap (orphanEvents (settings.under .relax) c.sources)).filter
        (!·.isLegacyReport) =
      pending.flatMap (orphanEvents (settings.under .legacy) c.sources) := by
    intro pending
    rw [← orphanEvents_relax, List.filter_eq_self]
    intro event hevent
    obtain ⟨i, rfl, hrule⟩ := rule_of_mem_orphanEvents hevent
    simp [Event.isLegacyReport, hrule]
  rw [run_eq, run_eq, List.filter_append, hend]
  simp only [finalState, visits, visitsFrom_under]
  rw [← visits, hevents, hagree.pending]

def Forwarded.isCall (f : Forwarded) : Bool := f.value.unparenthesized.isCall

theorem isCall_of_mem_forwardedAt {env : Surroundings} {site : Site} {f : Forwarded}
    (h : f ∈ forwardedAt (env, .site site)) : f.isCall = site.hasCall := by
  obtain ⟨hvisit, hvalue, -⟩ := mem_forwardedAt h
  obtain rfl : f.site = site := (Step.site.inj (congrArg Prod.snd hvisit)).symm
  unfold Site.hasCall Site.call? Forwarded.isCall
  rw [hvalue]
  cases hcall : f.value.unparenthesized.isCall <;> simp [Option.filter, hcall]

theorem hasCall_of_closure {env : Surroundings} {site : Site} {f : Forwarded}
    (hstyle : env.settings.style = .closure) (h : f ∈ forwardedAt (env, .site site)) :
    site.hasCall := by
  obtain ⟨hvisit, -, houtcome⟩ := mem_forwardedAt h
  obtain ⟨rfl, hsite⟩ := Prod.mk.inj hvisit
  obtain rfl := Step.site.inj hsite
  have hverdict := verdict_outcome f.env f.site
  rw [houtcome] at hverdict
  obtain ⟨value, -, hallowed, -⟩ := hverdict
  apply hallowed
  rw [hstyle]
  rfl

theorem forwardedAt_closure (v : Visit) :
    (forwardedAt (v.under .closure)).map Forwarded.event =
      ((forwardedAt (v.under .relax)).filter Forwarded.isCall).map Forwarded.event := by
  obtain ⟨env, step⟩ := v
  cases step with
  | enter => rfl
  | exit => rfl
  | call => rfl
  | site site =>
    have halike := alike_under env .closure .relax
    by_cases hcall : site.hasCall
    · have houtcome :
          (candidateOf { env with settings := env.settings.under .closure } site).outcome =
            (candidateOf { env with settings := env.settings.under .relax } site).outcome := by
        apply halike.outcome rfl
        · unfold Site.namesMessage Name.isMessage
          rw [hcall, halike.siteOldName]
          simp
        · simp [hcall]
      have hall : (forwardedAt (Visit.under (env, .site site) .relax)).filter Forwarded.isCall =
          forwardedAt (Visit.under (env, .site site) .relax) := by
        rw [List.filter_eq_self]
        intro f hf
        rw [isCall_of_mem_forwardedAt hf, hcall]
      rw [hall]
      simp only [Visit.under, forwardedAt, houtcome]
      cases (candidateOf { env with settings := env.settings.under .relax } site).outcome with
      | defined message =>
        cases site.value with
        | none => rfl
        | some value => rfl
      | _ => rfl
    · have hclosure : forwardedAt (Visit.under (env, .site site) .closure) = [] := by
        rw [List.eq_nil_iff_forall_not_mem]
        intro f hf
        exact hcall (hasCall_of_closure rfl hf)
      have hrelax : (forwardedAt (Visit.under (env, .site site) .relax)).filter Forwarded.isCall =
          [] := by
        rw [List.filter_eq_nil_iff]
        intro f hf
        rw [isCall_of_mem_forwardedAt hf]
        exact hcall
      rw [hclosure, hrelax]

theorem forwarded_closure (settings : Settings) (c : Compilation) :
    (forwarded (settings.under .closure) c).map Forwarded.event =
      ((forwarded (settings.under .relax) c).filter Forwarded.isCall).map Forwarded.event := by
  unfold forwarded visits
  simp only [visitsFrom_under, List.flatMap_map, List.map_flatMap, List.filter_flatMap,
    forwardedAt_closure]

theorem filterMap_filter_run {α : Type} (f : Event → Option α)
    (h : ∀ event, event.isLegacyReport → f event = none) (events : List Event) :
    (events.filter (!·.isLegacyReport)).filterMap f = events.filterMap f := by
  rw [List.filterMap_filter]
  apply List.filterMap_congr
  intro event _
  cases hlegacy : event.isLegacyReport with
  | true => simp [h event hlegacy]
  | false => simp

/-- What the styles make of the same files. -/
theorem styles_run (settings : Settings) (c : Compilation) :
    ((run (settings.under .relax) c).filterMap Event.message? =
      (run (settings.under .legacy) c).filterMap Event.message?) ∧
    ((run (settings.under .relax) c).filterMap Event.pair? =
      (run (settings.under .legacy) c).filterMap Event.pair?) ∧
    ((Event.issues (run (settings.under .relax) c)).filter (·.rule ≠ .legacyValue) =
      Event.issues (run (settings.under .legacy) c)) ∧
    ((run (settings.under .relax) c).filterMap Event.message? =
      (forwarded (settings.under .relax) c).map Forwarded.event) ∧
    (run (settings.under .closure) c).filterMap Event.message? =
      ((forwarded (settings.under .relax) c).filter Forwarded.isCall).map Forwarded.event := by
  have hrelax := filter_run_relax settings c
  refine ⟨?_, ?_, ?_, filterMap_message_run _ c, ?_⟩
  · rw [← hrelax, filterMap_filter_run]
    intro event hevent
    cases event with
    | issue => rfl
    | _ => cases hevent
  · rw [← hrelax, filterMap_filter_run]
    intro event hevent
    cases event with
    | issue => rfl
    | _ => cases hevent
  · rw [← hrelax, Event.issues, Event.issues, List.filter_filterMap, List.filterMap_filter]
    apply List.filterMap_congr
    intro event _
    cases event with
    | issue i =>
      by_cases hrule : i.rule = .legacyValue <;>
        simp [Event.isLegacyReport, hrule, Option.filter]
    | message => rfl
    | fallback => rfl
  · rw [filterMap_message_run, forwarded_closure]

end MessageCatalog.Definition
