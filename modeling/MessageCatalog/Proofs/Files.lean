import MessageCatalog.Proofs.CommentMap
import MessageCatalog.Proofs.Moments
import MessageCatalog.Proofs.Orphans
import Mathlib.Data.List.Perm.Basic

/-! A run over several files hands on what the runs over each of them do, the reports apart that one
definition makes about another: of a key defined twice, and of a reference to no definition. -/

namespace MessageCatalog

def Issue.isLocal (i : Issue) : Bool := i.rule ≠ .duplicateKey && i.rule ≠ .fallbackArgument

namespace Definition
open Script (Node Span Program)

variable {settings : Settings}

def Event.local? : Event → Option Issue
  | .issue i => if i.isLocal then some i else none
  | _ => none

theorem filter_isLocal_issues (events : List Event) :
    (Event.issues events).filter Issue.isLocal = events.filterMap Event.local? := by
  rw [Event.issues, List.filter_filterMap]
  apply List.filterMap_congr
  intro event _
  cases event with
  | issue i => cases h : i.isLocal <;> simp [Event.local?, Option.filter, h]
  | message => rfl
  | fallback => rfl

theorem filterMap_local_issues (issues : List Issue) :
    (issues.map Event.issue).filterMap Event.local? = issues.filter Issue.isLocal := by
  rw [← filter_isLocal_issues, Event.issues_map]

theorem isLocal_messageIssues (env : Surroundings) (registry : Registry) (c : Candidate)
    (value : Node) (m : Message) :
    (messageIssues env registry c value m).filter Issue.isLocal =
      (if m.isEmpty then [.emptyText (env.contextAt c.site.span) c.key] else []) ++
        if c.isCall && !m.isDescribed && !m.isExternal then
          [.noDescription (env.contextAt c.site.span) c.key env.settings.style.checkLevel]
        else [] := by
  simp only [messageIssues, List.filter_append]
  refine congrArg₂ (· ++ ·) ?_ ?_
  · cases registry.locationOf? c.key with
    | none => split_ifs <;> rfl
    | some previous => split_ifs <;> rfl
  · split_ifs <;> rfl

theorem local_outcomeEvents (env : Surroundings) (registry registry' : Registry) (c : Candidate) :
    (outcomeEvents env registry c).filterMap Event.local? =
      (outcomeEvents env registry' c).filterMap Event.local? := by
  unfold outcomeEvents
  cases c.outcome with
  | defined m =>
    cases c.site.value with
    | none => rfl
    | some value =>
      simp only [List.filterMap_append, filterMap_local_issues, isLocal_messageIssues]
  | _ => rfl

theorem local_fallbackEvent_of_some {arguments : List Node}
    {references : (String × Span) × (String × Span)} (h : references? arguments = some references)
    (env : Surroundings) (scopes : Scopes) (registry : Registry) (span : Span) :
    (fallbackEvent env scopes registry arguments span).local? = none := by
  obtain ⟨⟨first, firstSpan⟩, second, secondSpan⟩ := references
  unfold fallbackEvent
  rw [h]
  dsimp only
  cases registry.lookup? scopes first with
  | none => rfl
  | some m => cases registry.lookup? scopes second <;> rfl

theorem local_fallbackEvent (env : Surroundings) (scopes scopes' : Scopes)
    (registry registry' : Registry) (arguments : List Node) (span : Span) :
    (fallbackEvent env scopes registry arguments span).local? =
      (fallbackEvent env scopes' registry' arguments span).local? := by
  cases h : references? arguments with
  | none =>
    unfold fallbackEvent
    rw [h]
  | some references => rw [local_fallbackEvent_of_some h, local_fallbackEvent_of_some h]

theorem local_emitted (v : Visit) (state state' : State) :
    (emitted v.1 state v.2).filterMap Event.local? =
      (emitted v.1 state' v.2).filterMap Event.local? := by
  obtain ⟨env, step⟩ := v
  cases step with
  | enter => rfl
  | exit => rfl
  | site site =>
    simp only [emitted, List.filterMap_append]
    rw [local_outcomeEvents env state.registry state'.registry]
  | call callee arguments span =>
    simp only [emitted]
    split_ifs
    · rfl
    · have hevent := local_fallbackEvent env state.scopes state'.scopes state.registry
        state'.registry arguments span
      simp only [List.filterMap_cons, hevent, List.filterMap_nil]
    · rfl

def Mark.actOn (settings : Settings) (spans : List Span) (m : Mark) : List Span :=
  match m.messageCall?, m.taken? settings with
  | some span, _ => if spans.contains span then spans else spans ++ [span]
  | none, some span => spans.filter (· ≠ span)
  | none, none => spans

/-- The calls that are pending at the end of a program. -/
def leftover (settings : Settings) (p : Program) : List Span :=
  (marksOf p).foldl (Mark.actOn settings) []

theorem act_append {file : Nat} {old : List CallSite} (hold : ∀ call ∈ old, call.file ≠ file)
    (spans : List Span) (m : Mark) :
    Mark.act settings file (old ++ spans.map (⟨file, ·⟩)) m =
      old ++ (Mark.actOn settings spans m).map (⟨file, ·⟩) := by
  have hmem : ∀ span, ⟨file, span⟩ ∈ old ++ spans.map (CallSite.mk file) ↔ span ∈ spans := by
    intro span
    have hother : ⟨file, span⟩ ∉ old := fun h => hold _ h rfl
    simp [hother]
  unfold Mark.act Mark.actOn
  cases m.messageCall? with
  | some span =>
    simp only [List.contains_iff_mem, hmem]
    split_ifs
    · rfl
    · rw [List.map_append, List.append_assoc]
      rfl
  | none =>
    cases m.taken? settings with
    | none => rfl
    | some span =>
      have hothers := filter_of_other_file hold span
      simp only [List.filter_append, hothers, List.filter_map, Function.comp_def, ne_eq,
        CallSite.mk.injEq, true_and]

theorem foldl_act_append {file : Nat} {old : List CallSite} (hold : ∀ call ∈ old, call.file ≠ file)
    (spans : List Span) (ms : List Mark) :
    ms.foldl (Mark.act settings file) (old ++ spans.map (⟨file, ·⟩)) =
      old ++ (ms.foldl (Mark.actOn settings) spans).map (⟨file, ·⟩) := by
  induction ms generalizing spans with
  | nil => rfl
  | cons m ms ih => rw [List.foldl_cons, List.foldl_cons, act_append hold, ih]

theorem pending_finalState (settings : Settings) (c : Compilation) :
    (finalState settings c).pending =
      c.sources.zipIdx.flatMap fun (s, file) => (leftover settings s.program).map (⟨file, ·⟩) := by
  have hnothing : ∀ call ∈ (startOf c).pending, call.file < 0 := by simp [startOf]
  apply pending_visitsFrom_of (fun s => leftover settings s.program) _ 0 hnothing
  intro s _ file state hold
  rw [pending_performAll, marks_stepsOf, leftover, ← foldl_act_append hold]
  simp

theorem emitted_file (file file' : Nat) (s : Source) (state : State) (step : Step) :
    emitted ⟨settings, file, s⟩ state step = emitted ⟨settings, file', s⟩ state step := by
  have halike : Surroundings.Alike ⟨settings, file, s⟩ ⟨settings, file', s⟩ :=
    ⟨rfl, rfl, rfl, rfl, rfl⟩
  exact halike.emitted rfl state fun _ _ => rfl

theorem flatMap_visitsFrom {α : Type} (g : Visit → List α)
    (hg : ∀ file file' s step, g (⟨settings, file, s⟩, step) = g (⟨settings, file', s⟩, step))
    (file : Nat) (sources : List Source) :
    (visitsFrom settings file sources).flatMap g =
      sources.flatMap fun s => (visits settings ⟨[], [s], []⟩).flatMap g := by
  induction sources generalizing file with
  | nil => rfl
  | cons s rest ih =>
    have hhead : ((stepsOf s.program).map (Surroundings.mk settings file s, ·)).flatMap g =
        (visits settings ⟨[], [s], []⟩).flatMap g := by
      simp only [visits, visitsFrom, List.append_nil, List.flatMap_map]
      exact List.flatMap_congr fun step _ => hg file 0 s step
    rw [visitsFrom, List.flatMap_append, hhead, ih, List.flatMap_cons]

theorem filterMap_finalState {α : Type} (f : Event → Option α)
    (hf : ∀ (v : Visit) state state', (emitted v.1 state v.2).filterMap f =
      (emitted v.1 state' v.2).filterMap f) (settings : Settings) (c : Compilation) :
    (finalState settings c).events.filterMap f =
      c.sources.flatMap fun s => (finalState settings ⟨[], [s], []⟩).events.filterMap f := by
  have hevents : ∀ c, (finalState settings c).events.filterMap f =
      (visits settings c).flatMap fun v => (emitted v.1 {} v.2).filterMap f := by
    intro c
    exact filterMap_events f _ (fun v state => hf v state {}) (visits settings c) (startOf c)
  simp only [hevents]
  refine flatMap_visitsFrom _ ?_ 0 c.sources
  intro file file' s step
  dsimp only
  rw [emitted_file file file']

theorem reports_run (settings : Settings) (c : Compilation) :
    (finalState settings c).pending.flatMap (orphanEvents settings c.sources) =
      c.sources.flatMap fun s => (finalState settings ⟨[], [s], []⟩).pending.flatMap
        (orphanEvents settings [s]) := by
  have hreports : ∀ c, (finalState settings c).pending.flatMap (orphanEvents settings c.sources) =
      c.sources.flatMap fun s => (leftover settings s.program).map fun span =>
        .issue (.orphanedCall (Surroundings.contextAt ⟨settings, 0, s⟩ span)
          settings.style.checkLevel) := by
    intro c
    rw [pending_finalState, orphanEvents_reports fun s => leftover settings s.program]
    conv_rhs => rw [← List.zipIdx_map_fst 0 c.sources, List.flatMap_map]
    rfl
  rw [hreports]
  refine List.flatMap_congr fun s _ => ?_
  rw [hreports ⟨[], [s], []⟩, List.flatMap_singleton]

theorem sources_parseAll (files : List (String × String)) :
    (Compilation.parseAll files).1 =
      (files.mergeSort Compilation.pathOrder).filterMap fun (path, code) =>
        (Source.parse path code).toOption := by
  unfold Compilation.parseAll
  induction files.mergeSort Compilation.pathOrder with
  | nil => rfl
  | cons file rest ih =>
    obtain ⟨path, code⟩ := file
    rw [List.foldr_cons]
    cases h : Source.parse path code with
    | ok source => simp [h, ih, Except.toOption]
    | error failure => simp [h, ih, Except.toOption]

theorem exists_parse_of_mem_ofFiles {externs files : List (String × String)} {s : Source}
    (hs : s ∈ (Compilation.ofFiles externs files).sources) :
    ∃ path code, Source.parse path code = .ok s := by
  have hsources : s ∈ (Compilation.parseAll files).1 := hs
  rw [sources_parseAll] at hsources
  obtain ⟨⟨path, code⟩, -, hparse⟩ := List.mem_filterMap.1 hsources
  refine ⟨path, code, ?_⟩
  dsimp only at hparse
  cases h : Source.parse path code with
  | ok s' =>
    rw [h] at hparse
    cases hparse
    rfl
  | error failure =>
    rw [h] at hparse
    cases hparse

theorem flatMap_sources_ofFiles {α : Type} (f : Source → List α)
    (externs files : List (String × String)) :
    (Compilation.ofFiles externs files).sources.flatMap f =
      (files.mergeSort Compilation.pathOrder).flatMap fun file =>
        (Compilation.ofFiles [] [file]).sources.flatMap f := by
  have hsources : ∀ externs files, (Compilation.ofFiles externs files).sources =
      (Compilation.parseAll files).1 := fun _ _ => rfl
  simp only [hsources, sources_parseAll, List.mergeSort_singleton]
  induction files.mergeSort Compilation.pathOrder with
  | nil => rfl
  | cons file rest ih =>
    rw [List.flatMap_cons, ← ih, ← List.flatMap_append, ← List.filterMap_append,
      List.singleton_append]

theorem messages_run_files (settings : Settings) (c : Compilation) :
    (run settings c).filterMap Event.message? =
      c.sources.flatMap fun s => (run settings ⟨[], [s], []⟩).filterMap Event.message? := by
  have hmessages : ∀ c, (run settings c).filterMap Event.message? =
      (finalState settings c).events.filterMap Event.message? := by
    intro c
    rw [run_eq, List.filterMap_append, filterMap_message_orphanEvents, List.append_nil]
  simp only [hmessages]
  apply filterMap_finalState
  intro v state state'
  rw [filterMap_message_emitted, filterMap_message_emitted]

theorem localIssues_run (settings : Settings) (c : Compilation) :
    (Event.issues (run settings c)).filter Issue.isLocal =
      (finalState settings c).events.filterMap Event.local? ++
        ((finalState settings c).pending.flatMap (orphanEvents settings c.sources)).filterMap
          Event.local? := by
  rw [filter_isLocal_issues, run_eq, List.filterMap_append]

theorem localIssues_run_files (settings : Settings) (c : Compilation) :
    ((Event.issues (run settings c)).filter Issue.isLocal).Perm
      (c.sources.flatMap fun s =>
        (Event.issues (run settings ⟨[], [s], []⟩)).filter Issue.isLocal) := by
  -- The reports of orphaned calls come at the end of each run, and so between those of two files
  -- when the files are taken one by one.
  simp only [localIssues_run]
  rw [filterMap_finalState Event.local? local_emitted, reports_run, List.filterMap_flatMap]
  exact List.flatMap_append_perm c.sources _ _

theorem localIssues_run_externs (settings : Settings) (c : Compilation) (externs : List Source)
    (unreadable : List Unreadable) :
    (Event.issues (run settings ⟨externs, c.sources, unreadable⟩)).filter Issue.isLocal =
      (Event.issues (run settings c)).filter Issue.isLocal := by
  rw [localIssues_run, localIssues_run, filterMap_finalState Event.local? local_emitted,
    filterMap_finalState Event.local? local_emitted settings c, reports_run, reports_run settings c]

/-- What a run hands on, taken file by file. Of the files that share a map of comments, each sees
its own. -/
theorem files_run (settings : Settings) :
    (∀ c, (run settings c).filterMap Event.message? =
      c.sources.flatMap fun s => (run settings ⟨[], [s], []⟩).filterMap Event.message?) ∧
    (∀ c, ((Event.issues (run settings c)).filter Issue.isLocal).Perm
      (c.sources.flatMap fun s =>
        (Event.issues (run settings ⟨[], [s], []⟩)).filter Issue.isLocal)) ∧
    (∀ (c : Compilation) externs unreadable,
      (run settings ⟨externs, c.sources, unreadable⟩).filterMap Event.message? =
        (run settings c).filterMap Event.message? ∧
      (Event.issues (run settings ⟨externs, c.sources, unreadable⟩)).filter Issue.isLocal =
        (Event.issues (run settings c)).filter Issue.isLocal) ∧
    (∀ externs files,
      (run settings (.ofFiles externs files)).filterMap Event.message? =
        ((files.mergeSort Compilation.pathOrder).flatMap fun file =>
          (run settings (.ofFiles [] [file])).filterMap Event.message?) ∧
      ((Event.issues (run settings (.ofFiles externs files))).filter Issue.isLocal).Perm
        ((files.mergeSort Compilation.pathOrder).flatMap fun file =>
          (Event.issues (run settings (.ofFiles [] [file]))).filter Issue.isLocal)) ∧
    ∀ l : Layout, l.Disjoint → ∀ externs unreadable,
      run settings ⟨externs, l.views, unreadable⟩ =
        run settings ⟨externs, l.sources, unreadable⟩ := by
  refine ⟨messages_run_files settings, localIssues_run_files settings, ?_, ?_, ?_⟩
  · intro c externs unreadable
    refine ⟨?_, localIssues_run_externs settings c externs unreadable⟩
    rw [messages_run_files, messages_run_files settings c]
  · intro externs files
    constructor
    · simp only [messages_run_files settings (.ofFiles _ _)]
      exact flatMap_sources_ofFiles _ externs files
    · refine (localIssues_run_files settings _).trans ?_
      rw [flatMap_sources_ofFiles]
      refine List.Perm.flatMap_left _ fun file _ => ?_
      exact (localIssues_run_files settings _).symm
  · intro l hl externs unreadable
    exact l.run_views hl settings externs unreadable

def describedFile (path : String) : Source where
  path := path
  text := ("/** @desc In " ++ path ++ " */var MSG_A = goog.getMsg('Hi');").toList
  program :=
    let callee := Node.member (.name "goog" ⟨32, 36⟩) "getMsg" ⟨32, 43⟩
    let value := Node.call callee [.string (some "Hi") ⟨44, 48⟩] ⟨32, 49⟩
    ⟨false, [.declarations .var [.declarator (.name "MSG_A" ⟨24, 29⟩) (some value) ⟨24, 49⟩]
      ⟨20, 50⟩]⟩
  comments := [(20, "* @desc In " ++ path ++ " ")]

def twoFiles : Layout := [(1, describedFile "a.js"), (52, describedFile "b.js")]

theorem docs_describedFile (path : String) {site : Site}
    (h : .site site ∈ stepsOf (describedFile path).program) : site.docs = [20] := by
  simp only [describedFile, stepsOf, walkStatements, walkAll, walk, walkOption,
    declaratorSites] at h
  simp at h
  rw [h]

theorem files_run_twoFiles :
    run {} ⟨[], twoFiles.views, []⟩ = run {} ⟨[], twoFiles.sources, []⟩ ∧
      twoFiles.comments = [(21, "* @desc In a.js "), (72, "* @desc In b.js ")] := by
  have hfiles : ∀ base s, (base, s) ∈ twoFiles →
      s = describedFile "a.js" ∨ s = describedFile "b.js" := by
    intro base s hmem
    simp only [twoFiles, List.mem_cons, Prod.mk.injEq, List.not_mem_nil, or_false] at hmem
    exact hmem.imp And.right And.right
  have hdisjoint : twoFiles.Disjoint := by
    refine ⟨by decide, ?_, ?_⟩
    · intro base s hmem
      rcases hfiles base s hmem with rfl | rfl <;> decide
    · intro base s hmem site hsite
      rcases hfiles base s hmem with rfl | rfl
      · rw [docs_describedFile "a.js" hsite]
        decide
      · rw [docs_describedFile "b.js" hsite]
        decide
  exact ⟨(files_run {}).2.2.2.2 twoFiles hdisjoint [] [], by decide⟩

end Definition

end MessageCatalog
