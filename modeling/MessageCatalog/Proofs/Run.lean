import MessageCatalog.Definition.Run
import Mathlib.Tactic.SplitIfs

/-! A run as one list of visits: the steps of all files in order, each with what it knows. The
events of the run are those of its visits, followed by the reports of orphaned calls. -/

namespace MessageCatalog.Definition
open Script (Node Span)

abbrev Visit := Surroundings × Step

def visitsFrom (settings : Settings) (file : Nat) : List Source → List Visit
  | [] => []
  | s :: rest =>
    (stepsOf s.program).map (⟨settings, file, s⟩, ·) ++ visitsFrom settings (file + 1) rest

def visits (settings : Settings) (c : Compilation) : List Visit := visitsFrom settings 0 c.sources

def visitAll (vs : List Visit) (state : State) : State :=
  vs.foldl (fun state v => perform v.1 state v.2) state

theorem visitAll_cons (v : Visit) (vs : List Visit) (state : State) :
    visitAll (v :: vs) state = visitAll vs (perform v.1 state v.2) := rfl

theorem visitAll_append (vs ws : List Visit) (state : State) :
    visitAll (vs ++ ws) state = visitAll ws (visitAll vs state) := List.foldl_append

theorem visitAll_map (env : Surroundings) (steps : List Step) (state : State) :
    visitAll (steps.map (env, ·)) state = performAll env steps state := by
  rw [visitAll, performAll, List.foldl_map]

theorem visitSources_eq (settings : Settings) (file : Nat) (sources : List Source) (state : State) :
    visitSources settings file state sources =
      visitAll (visitsFrom settings file sources) state := by
  induction sources generalizing file state with
  | nil => rfl
  | cons s rest ih => rw [visitSources, visitsFrom, visitAll_append, visitAll_map, ih]

def startOf (c : Compilation) : State := { scopes := Scopes.empty.declareAll (globalNames c) }

def finalState (settings : Settings) (c : Compilation) : State :=
  visitAll (visits settings c) (startOf c)

theorem run_eq (settings : Settings) (c : Compilation) :
    run settings c = (finalState settings c).events ++
      (finalState settings c).pending.flatMap (orphanEvents settings c.sources) := by
  rw [run, visitSources_eq]
  rfl

def emitted (env : Surroundings) (state : State) : Step → List Event
  | .enter _ => []
  | .exit => []
  | .site site =>
    (legacyIssues env (candidateOf env site)).map .issue ++
      outcomeEvents env state.registry (candidateOf env site)
  | .call callee arguments span =>
    if callee.isReferenceTo Name.messageFunction then []
    else if callee.isReferenceTo Name.fallbackFunction then
      [fallbackEvent env state.scopes state.registry arguments span]
    else []

theorem events_perform (env : Surroundings) (state : State) (step : Step) :
    (perform env state step).events = state.events ++ emitted env state step := by
  cases step with
  | enter => simp [perform, emitted]
  | exit => simp [perform, emitted]
  | site => simp [perform, checkSite, emitted]
  | call =>
    simp only [perform, checkCall, emitted]
    split_ifs <;> simp

theorem fallbackEvent_cases (env : Surroundings) (scopes : Scopes) (registry : Registry)
    (arguments : List Node) (span : Span) :
    (∃ i, fallbackEvent env scopes registry arguments span = .issue i ∧
      (i.rule = .badFallback ∨ i.rule = .fallbackArgument)) ∨
    ∃ first second, fallbackEvent env scopes registry arguments span =
      .fallback span first second := by
  unfold fallbackEvent
  split
  · exact .inl ⟨_, rfl, .inl rfl⟩
  · split
    · exact .inl ⟨_, rfl, .inr rfl⟩
    · split
      · exact .inl ⟨_, rfl, .inr rfl⟩
      · exact .inr ⟨_, _, rfl⟩

theorem eq_of_mem_legacyIssues {env : Surroundings} {c : Candidate} {i : Issue}
    (h : i ∈ legacyIssues env c) :
    i = .legacyValue (env.contextAt c.site.span) c.name env.settings.style.checkLevel := by
  unfold legacyIssues at h
  dsimp only at h
  split_ifs at h
  · exact List.mem_singleton.1 h
  · cases h

theorem eq_of_mem_messageIssues {env : Surroundings} {registry : Registry} {c : Candidate}
    {value : Node} {m : Message} {i : Issue} (h : i ∈ messageIssues env registry c value m) :
    (∃ previous, i = .duplicateKey (env.contextAt value.span) c.key previous) ∨
      i = .emptyText (env.contextAt c.site.span) c.key ∨
      i = .noDescription (env.contextAt c.site.span) c.key env.settings.style.checkLevel := by
  simp only [messageIssues, List.mem_append] at h
  rcases h with (h | h) | h
  · split at h
    · split_ifs at h
      · cases h
      · exact .inl ⟨_, List.mem_singleton.1 h⟩
    · cases h
  · split_ifs at h
    · exact .inr (.inl (List.mem_singleton.1 h))
    · cases h
  · split_ifs at h
    · exact .inr (.inr (List.mem_singleton.1 h))
    · cases h

theorem rule_of_mem_legacyIssues {env : Surroundings} {c : Candidate} {i : Issue}
    (h : i ∈ legacyIssues env c) : i.rule = .legacyValue := by
  rw [eq_of_mem_legacyIssues h]
  rfl

theorem rule_of_mem_messageIssues {env : Surroundings} {registry : Registry} {c : Candidate}
    {value : Node} {m : Message} {i : Issue} (h : i ∈ messageIssues env registry c value m) :
    i.rule = .duplicateKey ∨ i.rule = .emptyText ∨ i.rule = .noDescription := by
  rcases eq_of_mem_messageIssues h with ⟨previous, rfl⟩ | rfl | rfl
  · exact .inl rfl
  · exact .inr (.inl rfl)
  · exact .inr (.inr rfl)

/-- What a step in a file may report. -/
inductive Surroundings.Raises (env : Surroundings) : Issue → Prop
  | legacyValue (span : Span) (key : String) :
    env.Raises (.legacyValue (env.contextAt span) key env.settings.style.checkLevel)
  | noValue (span : Span) (key : String) : env.Raises (.noValue (env.contextAt span) key)
  | malformed (span : Span) (reason : String) : env.Raises (.malformed (env.contextAt span) reason)
  | duplicateKey (span : Span) (key : String) (previous : Location) :
    env.Raises (.duplicateKey (env.contextAt span) key previous)
  | emptyText (span : Span) (key : String) : env.Raises (.emptyText (env.contextAt span) key)
  | noDescription (span : Span) (key : String) :
    env.Raises (.noDescription (env.contextAt span) key env.settings.style.checkLevel)
  | badFallback (span : Span) : env.Raises (.badFallback (env.contextAt span))
  | fallbackArgument (span : Span) (reference : String) :
    env.Raises (.fallbackArgument (env.contextAt span) reference)

theorem raises_of_mem_outcomeEvents {env : Surroundings} {registry : Registry} {c : Candidate}
    {i : Issue} (h : .issue i ∈ outcomeEvents env registry c) : env.Raises i := by
  unfold outcomeEvents at h
  split at h
  · obtain rfl := Event.issue.inj (List.mem_singleton.1 h)
    exact .noValue _ _
  · obtain rfl := Event.issue.inj (List.mem_singleton.1 h)
    exact .malformed _ _
  · simp only [List.mem_append, List.mem_map, List.mem_singleton, reduceCtorEq, or_false] at h
    obtain ⟨i', hi', h⟩ := h
    cases h
    rcases eq_of_mem_messageIssues hi' with ⟨previous, rfl⟩ | rfl | rfl
    · exact .duplicateKey _ _ _
    · exact .emptyText _ _
    · exact .noDescription _ _
  · cases h

theorem raises_of_fallbackEvent {env : Surroundings} {scopes : Scopes} {registry : Registry}
    {arguments : List Node} {span : Span} {i : Issue}
    (h : fallbackEvent env scopes registry arguments span = .issue i) : env.Raises i := by
  unfold fallbackEvent at h
  split at h
  · cases h
    exact .badFallback _
  · split at h
    · cases h
      exact .fallbackArgument _ _
    · split at h
      · cases h
        exact .fallbackArgument _ _
      · cases h

theorem raises_of_mem_emitted {env : Surroundings} {state : State} {step : Step} {i : Issue}
    (h : .issue i ∈ emitted env state step) : env.Raises i := by
  cases step with
  | enter => cases h
  | exit => cases h
  | site site =>
    rcases List.mem_append.1 h with h | h
    · obtain ⟨i', hi', h⟩ := List.mem_map.1 h
      cases h
      rw [eq_of_mem_legacyIssues hi']
      exact .legacyValue _ _
    · exact raises_of_mem_outcomeEvents h
  | call callee arguments span =>
    simp only [emitted] at h
    split_ifs at h
    · cases h
    · exact raises_of_fallbackEvent (List.mem_singleton.1 h).symm
    · cases h

theorem rule_of_mem_emitted {env : Surroundings} {state : State} {step : Step} {i : Issue}
    (h : .issue i ∈ emitted env state step) : i.rule ≠ .orphanedCall := by
  cases raises_of_mem_emitted h <;> exact Rule.noConfusion

theorem eq_of_mem_orphanEvents {settings : Settings} {sources : List Source} {call : CallSite}
    {event : Event} (h : event ∈ orphanEvents settings sources call) :
    ∃ source ∈ sources, event = .issue (.orphanedCall
      (Surroundings.contextAt ⟨settings, call.file, source⟩ call.span)
      settings.style.checkLevel) := by
  unfold orphanEvents at h
  split at h
  · next source hsource => exact ⟨source, List.mem_of_getElem? hsource, List.mem_singleton.1 h⟩
  · cases h

theorem filterMap_events {α : Type} (f : Event → Option α) (g : Visit → List α)
    (h : ∀ v state, (emitted v.1 state v.2).filterMap f = g v) (vs : List Visit) (state : State) :
    (visitAll vs state).events.filterMap f = state.events.filterMap f ++ vs.flatMap g := by
  induction vs generalizing state with
  | nil => simp [visitAll]
  | cons v vs ih =>
    rw [visitAll_cons, ih, events_perform, List.filterMap_append, h, List.flatMap_cons,
      List.append_assoc]

structure Forwarded where
  env : Surroundings
  site : Site
  value : Node
  message : Message

namespace Forwarded

def event (f : Forwarded) : Event :=
  .message f.message f.site.kind f.value.span (f.env.locationAt f.value.span)

end Forwarded

def forwardedAt : Visit → List Forwarded
  | (env, .site site) =>
    match (candidateOf env site).outcome, site.value with
    | .defined message, some value => [⟨env, site, value, message⟩]
    | _, _ => []
  | _ => []

def forwarded (settings : Settings) (c : Compilation) : List Forwarded :=
  (visits settings c).flatMap forwardedAt

theorem mem_forwarded {settings : Settings} {c : Compilation} {f : Forwarded}
    (h : f ∈ forwarded settings c) :
    (f.env, .site f.site) ∈ visits settings c ∧ f.site.value = some f.value ∧
      (candidateOf f.env f.site).outcome = .defined f.message := by
  obtain ⟨⟨env, step⟩, hv, hf⟩ := List.mem_flatMap.1 h
  cases step with
  | site site =>
    simp only [forwardedAt] at hf
    split at hf
    · next message value hmessage hvalue =>
      rw [List.mem_singleton] at hf
      subst hf
      exact ⟨hv, hvalue, hmessage⟩
    · simp at hf
  | enter => simp [forwardedAt] at hf
  | exit => simp [forwardedAt] at hf
  | call => simp [forwardedAt] at hf

namespace Event

def message? : Event → Option Event
  | .message m kind span location => some (.message m kind span location)
  | _ => none

end Event

theorem filterMap_message_issues (issues : List Issue) :
    (issues.map Event.issue).filterMap Event.message? = [] := by
  simp [Event.message?]

theorem message_fallbackEvent (env : Surroundings) (scopes : Scopes) (registry : Registry)
    (arguments : List Node) (span : Span) :
    (fallbackEvent env scopes registry arguments span).message? = none := by
  rcases fallbackEvent_cases env scopes registry arguments span with ⟨i, h, -⟩ | ⟨first, second, h⟩
  · rw [h]
    rfl
  · rw [h]
    rfl

theorem filterMap_message_emitted (v : Visit) (state : State) :
    (emitted v.1 state v.2).filterMap Event.message? = (forwardedAt v).map Forwarded.event := by
  obtain ⟨env, step⟩ := v
  cases step with
  | enter => rfl
  | exit => rfl
  | call callee arguments span =>
    simp only [emitted, forwardedAt]
    split_ifs <;> simp [message_fallbackEvent]
  | site site =>
    have hsite : (candidateOf env site).site = site := rfl
    simp only [emitted, forwardedAt, List.filterMap_append, filterMap_message_issues, outcomeEvents,
      hsite]
    cases (candidateOf env site).outcome <;> cases site.value <;>
      simp [Event.message?, Forwarded.event]

theorem filterMap_message_orphanEvents (settings : Settings) (sources : List Source)
    (pending : List CallSite) :
    (pending.flatMap (orphanEvents settings sources)).filterMap Event.message? = [] := by
  rw [List.filterMap_eq_nil_iff]
  intro event hevent
  obtain ⟨call, -, hevent⟩ := List.mem_flatMap.1 hevent
  obtain ⟨source, -, rfl⟩ := eq_of_mem_orphanEvents hevent
  rfl

theorem filterMap_message_run (settings : Settings) (c : Compilation) :
    (run settings c).filterMap Event.message? = (forwarded settings c).map Forwarded.event := by
  have hevents := filterMap_events Event.message? _ filterMap_message_emitted (visits settings c)
    (startOf c)
  rw [run_eq, List.filterMap_append, filterMap_message_orphanEvents, finalState, hevents]
  simp [startOf, forwarded, List.map_flatMap]

end MessageCatalog.Definition
