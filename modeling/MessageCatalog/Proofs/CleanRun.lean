import MessageCatalog.Proofs.Styles
import MessageCatalog.Cli.Outcome

/-! Files without an error under the strict style: there the other two styles find the same messages
and the same issues, so that loosening the style breaks nothing. -/

namespace MessageCatalog.Definition
open Script (Node Span)

def IsClean (events : List Event) : Prop := ∀ i ∈ Event.issues events, ¬ i.isError

namespace IsClean

theorem append_iff {events events' : List Event} :
    IsClean (events ++ events') ↔ IsClean events ∧ IsClean events' := by
  unfold IsClean
  rw [Event.issues_append, List.forall_mem_append]

theorem flatMap_iff {α : Type} {l : List α} {f : α → List Event} :
    IsClean (l.flatMap f) ↔ ∀ a ∈ l, IsClean (f a) := by
  induction l with
  | nil => simp [IsClean, Event.issues]
  | cons a l ih => rw [List.flatMap_cons, append_iff, ih, List.forall_mem_cons]

theorem map_iff {issues : List Issue} :
    IsClean (issues.map .issue) ↔ ∀ i ∈ issues, ¬ i.isError := by
  unfold IsClean
  rw [Event.issues_map]

theorem singleton_iff {i : Issue} : IsClean [.issue i] ↔ ¬ i.isError := by
  have hissues : Event.issues [.issue i] = [i] := rfl
  unfold IsClean
  rw [hissues, List.forall_mem_singleton]

end IsClean

def Surroundings.under (env : Surroundings) (style : Style) : Surroundings :=
  { env with settings := env.settings.under style }

variable {env : Surroundings} {site : Site} {state : State} {settings : Settings} {c : Compilation}

theorem namesMessage_closure {style : Style} (h : site.namesMessage (env.under style)) :
    site.namesMessage (env.under .closure) := by
  have hname : site.oldName (env.under style) = site.oldName (env.under .closure) := rfl
  unfold Site.namesMessage Name.isMessage at h ⊢
  rw [hname, Bool.and_eq_true] at h
  rw [Bool.and_eq_true]
  exact ⟨h.1, rfl⟩

theorem outcome_of_isClean (h : IsClean (emitted (env.under .closure) state (.site site))) :
    (candidateOf (env.under .closure) site).outcome = .ignored ∨
      site.hasCall ∧
        ∃ message, (candidateOf (env.under .closure) site).outcome = .defined message := by
  obtain ⟨hlegacy, hevents⟩ := IsClean.append_iff.1 h
  have hverdict := verdict_outcome (env.under .closure) site
  cases ho : (candidateOf (env.under .closure) site).outcome with
  | ignored => exact .inl rfl
  | noValue =>
    simp only [outcomeEvents, ho] at hevents
    exact absurd rfl (IsClean.singleton_iff.1 hevents)
  | malformed m =>
    simp only [outcomeEvents, ho] at hevents
    exact absurd rfl (IsClean.singleton_iff.1 hevents)
  | refused =>
    rw [ho] at hverdict
    obtain ⟨value, -, -, hcall⟩ := hverdict
    have hissues : legacyIssues (env.under .closure) (candidateOf (env.under .closure) site) =
        [.legacyValue ((env.under .closure).contextAt site.span)
          (candidateOf (env.under .closure) site).name .error] := by
      have hconsidered : (candidateOf (env.under .closure) site).isConsidered := by
        rw [Candidate.isConsidered, ho]
      have hstyle : (env.under .closure).settings.style = .closure := rfl
      unfold legacyIssues
      rw [isCall_candidateOf, hconsidered, hstyle, if_pos (by simp [hcall])]
      rfl
    rw [hissues] at hlegacy
    exact absurd rfl (IsClean.singleton_iff.1 hlegacy)
  | defined message =>
    rw [ho] at hverdict
    obtain ⟨value, -, hallowed, -⟩ := hverdict
    exact .inr ⟨hallowed rfl, message, rfl⟩

theorem candidateOf_of_isClean (style : Style)
    (h : IsClean (emitted (env.under .closure) state (.site site))) :
    candidateOf (env.under style) site = candidateOf (env.under .closure) site := by
  have houtcome : (candidateOf (env.under style) site).outcome =
      (candidateOf (env.under .closure) site).outcome := by
    rcases outcome_of_isClean h with hignored | ⟨hcall, -⟩
    · -- A name that the strict style does not accept no style does, and an alias is one in all.
      have hverdict := verdict_outcome (env.under .closure) site
      rw [hignored] at hverdict ⊢
      apply Verdict.outcome_eq
      rcases hverdict with hname | halias
      · exact .inl fun hstyle => hname (namesMessage_closure hstyle)
      · exact .inr halias
    · have hname : site.namesMessage (env.under style) =
          site.namesMessage (env.under .closure) := by
        have hold : site.oldName (env.under style) = site.oldName (env.under .closure) := rfl
        unfold Site.namesMessage Name.isMessage
        rw [hold, hcall]
        simp
      exact (alike_under env style .closure).outcome rfl hname (by simp [hcall])
  unfold candidateOf at houtcome ⊢
  rw [Candidate.mk.injEq]
  exact ⟨rfl, rfl, rfl, rfl, houtcome⟩

theorem legacyIssues_of_isClean (style : Style)
    (h : IsClean (emitted (env.under .closure) state (.site site))) :
    legacyIssues (env.under style) (candidateOf (env.under .closure) site) = [] := by
  unfold legacyIssues
  apply if_neg
  rw [isCall_candidateOf]
  rcases outcome_of_isClean h with hignored | ⟨hcall, -⟩
  · simp [Candidate.isConsidered, hignored]
  · simp [hcall]

theorem messageIssues_of_isClean (style : Style) {registry : Registry} {candidate : Candidate}
    {value : Node} {m : Message}
    (h : ∀ i ∈ messageIssues (env.under .closure) registry candidate value m, ¬ i.isError) :
    messageIssues (env.under style) registry candidate value m =
      messageIssues (env.under .closure) registry candidate value m := by
  have hcontext : (env.under style).contextAt = (env.under .closure).contextAt := rfl
  have hdescribed : ¬ (candidate.isCall && !m.isDescribed && !m.isExternal) := by
    intro hmissing
    refine h (.noDescription ((env.under .closure).contextAt candidate.site.span) candidate.key
      .error) ?_ rfl
    simp only [messageIssues, if_pos hmissing]
    exact List.mem_append_right _ (List.mem_singleton_self _)
  simp only [messageIssues, if_neg hdescribed, hcontext]

theorem outcomeEvents_of_isClean (style : Style) {registry : Registry}
    (h : IsClean (outcomeEvents (env.under .closure) registry
      (candidateOf (env.under .closure) site))) :
    outcomeEvents (env.under style) registry (candidateOf (env.under .closure) site) =
      outcomeEvents (env.under .closure) registry (candidateOf (env.under .closure) site) := by
  unfold outcomeEvents at h ⊢
  split
  · rfl
  · rfl
  · next m value ho hvalue =>
    simp only [ho, hvalue, IsClean.append_iff, IsClean.map_iff] at h
    rw [messageIssues_of_isClean style h.1]
    rfl
  · rfl

theorem emitted_of_isClean (style : Style) {step : Step}
    (h : IsClean (emitted (env.under .closure) state step)) :
    emitted (env.under style) state step = emitted (env.under .closure) state step := by
  cases step with
  | enter => rfl
  | exit => rfl
  | call => rfl
  | site site =>
    have hevents := (IsClean.append_iff.1 h).2
    simp only [emitted]
    rw [candidateOf_of_isClean style h, legacyIssues_of_isClean style h,
      legacyIssues_of_isClean .closure h, outcomeEvents_of_isClean style hevents]

theorem perform_of_isClean (style : Style) {step : Step}
    (h : IsClean (emitted (env.under .closure) state step)) :
    perform (env.under style) state step = perform (env.under .closure) state step := by
  have hevents : (perform (env.under style) state step).events =
      (perform (env.under .closure) state step).events := by
    rw [events_perform, events_perform, emitted_of_isClean style h]
  cases step with
  | enter => rfl
  | exit => rfl
  | call => rfl
  | site site =>
    simp only [perform, checkSite, candidateOf_of_isClean style h] at hevents ⊢
    rw [hevents]
    rfl

theorem visitAll_of_isClean (style : Style) (vs : List Visit) (state : State)
    (h : IsClean (visitAll (vs.map (Visit.under · .closure)) state).events) :
    visitAll (vs.map (Visit.under · style)) state =
      visitAll (vs.map (Visit.under · .closure)) state := by
  induction vs generalizing state with
  | nil => rfl
  | cons v vs ih =>
    rw [events_visitAll, IsClean.append_iff, IsClean.flatMap_iff, List.map_cons, momentsFrom,
      List.forall_mem_cons] at h
    obtain ⟨hstate, hemitted, hrest⟩ := h
    have hstep : perform (v.1.under style) state v.2 = perform (v.1.under .closure) state v.2 :=
      perform_of_isClean style hemitted
    have hclean : IsClean (perform (v.1.under .closure) state v.2).events := by
      rw [events_perform, IsClean.append_iff]
      exact ⟨hstate, hemitted⟩
    have htail := ih (perform (v.1.under .closure) state v.2) (by
      rw [events_visitAll, IsClean.append_iff, IsClean.flatMap_iff]
      exact ⟨hclean, hrest⟩)
    rw [List.map_cons, List.map_cons, visitAll_cons, visitAll_cons]
    exact (congrArg _ hstep).trans htail

theorem orphanEvents_of_isClean (style : Style) {sources : List Source} {call : CallSite}
    (h : IsClean (orphanEvents (settings.under .closure) sources call)) :
    orphanEvents (settings.under style) sources call =
      orphanEvents (settings.under .closure) sources call := by
  unfold orphanEvents at h ⊢
  cases hsource : sources[call.file]? with
  | none => rfl
  | some source =>
    rw [hsource] at h
    exact absurd rfl (IsClean.singleton_iff.1 h)

theorem run_of_isClean (style : Style) (h : IsClean (run (settings.under .closure) c)) :
    run (settings.under style) c = run (settings.under .closure) c := by
  rw [run_eq, IsClean.append_iff, IsClean.flatMap_iff] at h
  simp only [finalState, visits, visitsFrom_under] at h
  have hstate := visitAll_of_isClean style _ _ h.1
  rw [run_eq, run_eq]
  simp only [finalState, visits, visitsFrom_under]
  rw [hstate]
  exact congrArg _ (List.flatMap_congr fun call hcall => orphanEvents_of_isClean style (h.2 call hcall))

theorem ofIssues_eq_success_iff {issues : List Issue} :
    ExitStatus.ofIssues issues = .success ↔ ∀ i ∈ issues, ¬ i.isError := by
  unfold ExitStatus.ofIssues
  split_ifs with h
  · simpa using h
  · simpa using h

/-- Without an error under the strict style, a run hands on the same under every style: the same
messages, pairs and issues, in the same order, so that no style makes it fail. -/
theorem clean_run (settings : Settings) (c : Compilation)
    (h : ∀ i ∈ Event.issues (run (settings.under .closure) c), ¬ i.isError) (style : Style) :
    run (settings.under style) c = run (settings.under .closure) c ∧
      ExitStatus.ofIssues (Event.issues (run (settings.under style) c)) = .success := by
  have hrun := run_of_isClean style h
  refine ⟨hrun, ?_⟩
  rw [hrun, ofIssues_eq_success_iff]
  exact h

/-- A message with a description and no text, `/** @desc d */ var MSG_A = goog.getMsg('');`, and
under it the line `var MSG_A_HELP = MSG_A;`. -/
def describedBlank : Source where
  path := "a.js"
  text := "/** @desc d */ var MSG_A = goog.getMsg('');\nvar MSG_A_HELP = MSG_A;".toList
  program :=
    let callee : Node := .member (.name "goog" ⟨27, 31⟩) "getMsg" ⟨27, 38⟩
    let value : Node := .call callee [.string (some "") ⟨39, 41⟩] ⟨27, 42⟩
    ⟨false, [
      .declarations .var [.declarator (.name "MSG_A" ⟨19, 24⟩) (some value) ⟨19, 42⟩] ⟨15, 43⟩,
      .declarations .var
        [.declarator (.name "MSG_A_HELP" ⟨48, 58⟩) (some (.name "MSG_A" ⟨61, 66⟩)) ⟨48, 66⟩]
        ⟨44, 67⟩]⟩
  comments := [(15, "* @desc d ")]

theorem clean_run_describedBlank :
    (∀ i ∈ Event.issues (run (Settings.under {} .closure) ⟨[], [describedBlank], []⟩),
      ¬ i.isError) ∧
    (Event.issues (run (Settings.under {} .legacy) ⟨[], [describedBlank], []⟩)).map Issue.rule =
      [.emptyText] ∧
    (Event.messages (run (Settings.under {} .legacy) ⟨[], [describedBlank], []⟩)).map Message.id =
      ["MSG_A"] := by
  have hclean : ∀ i ∈ Event.issues (run (Settings.under {} .closure) ⟨[], [describedBlank], []⟩),
      ¬ i.isError := by decide +kernel
  obtain ⟨hrun, -⟩ := clean_run {} ⟨[], [describedBlank], []⟩ hclean .legacy
  rw [hrun]
  exact ⟨hclean, by decide +kernel, by decide +kernel⟩

end MessageCatalog.Definition

namespace MessageCatalog

namespace Cli
open Definition (Settings Event)

def Selection.under (s : Selection) (style : Style) : Selection :=
  { s with overrides := { s.overrides with style := some style } }

def Pass.ofEvents (fs : FileSystem) (project : Project) (events : List Event) : Pass where
  fileCount := project.files.length
  issues := Issue.sorted ((project.compile fs).1.unreadable.map (·.issue) ++ Event.issues events)
  catalog := ⟨Event.messages events, Event.fallbacks events⟩
  log := Warning.log (project.warnings ++ (project.compile fs).2)

def settingsOf (project : Project) : Settings := { strategy := project.config.strategy }

theorem Pass.run_under (fs : FileSystem) (s : Selection) (style : Style) :
    Pass.run fs (s.under style) = (Project.load fs (s.sourceRoot.getD ".") s.overrides).map
      fun project => Pass.ofEvents fs project
        (Definition.run ((settingsOf project).under style) (project.compile fs).1) := by
  have hroot : (s.under style).sourceRoot = s.sourceRoot := rfl
  unfold Pass.run Project.load
  rw [hroot]
  cases Config.load fs (s.sourceRoot.getD ".") with
  | error fault => rfl
  | ok config => rfl

theorem check_under (fs : FileSystem) (s : Selection) (style : Style)
    (h : (check fs (s.under .closure)).status = .success) :
    check fs (s.under style) = check fs (s.under .closure) := by
  unfold check at h ⊢
  rw [Pass.run_under] at h ⊢
  rw [Pass.run_under]
  cases hload : Project.load fs (s.sourceRoot.getD ".") s.overrides with
  | error fault => rfl
  | ok project =>
    rw [hload] at h
    have hclean : Definition.IsClean
        (Definition.run ((settingsOf project).under .closure) (project.compile fs).1) := by
      intro i hi
      apply Definition.ofIssues_eq_success_iff.1 h
      exact List.mem_mergeSort.2 (List.mem_append_right _ hi)
    simp only [Except.map, Definition.run_of_isClean style hclean]

end Cli

end MessageCatalog
