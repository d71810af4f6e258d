import MessageCatalog.Proofs.Run
import MessageCatalog.Proofs.SiteOutcome
import MessageCatalog.Proofs.Subnodes
import Mathlib.Data.List.Induction
import Mathlib.Data.List.Nodup

/-! The calls of the message function that no definition takes. A call is met before the definition
whose value it is, so that at the end of a run just these calls are pending. -/

namespace MessageCatalog.Definition
open Script (Node Span Program)

def callSpan? : Node → Option Span
  | .call _ _ span => some span
  | _ => none

def callSpans (n : Node) : List Span := n.subnodes.filterMap callSpan?

def Mark.messageCall? : Mark → Option Span
  | .call callee _ span => if callee.isReferenceTo Name.messageFunction then some span else none
  | .site .. => none

def Mark.taken? (settings : Settings) : Mark → Option Span
  | .call .. => none
  | .site _ name value _ =>
    if Name.isMessage (settings.oldName name).toList true settings.style then
      (value.map Node.unparenthesized).bind callSpan?
    else none

def orphansOf (settings : Settings) (ms : List Mark) : List Span :=
  (ms.filterMap Mark.messageCall?).filter (· ∉ ms.filterMap (Mark.taken? settings))

variable {settings : Settings}

theorem callSpans_eq (n : Node) :
    callSpans n = n.parts.flatMap callSpans ++ (callSpan? n).toList := by
  rw [callSpans, Node.subnodes_eq, List.filterMap_append, List.filterMap_flatMap]
  cases h : callSpan? n <;> simp [h] <;> rfl

theorem mem_callSpans_of_mem_subnodes {m n : Node} {span : Span} (hm : m ∈ n.subnodes)
    (h : span ∈ callSpans m) : span ∈ callSpans n := by
  obtain ⟨call, hcall, hspan⟩ := List.mem_filterMap.1 h
  exact List.mem_filterMap.2 ⟨call, Node.mem_subnodes_trans hcall hm, hspan⟩

theorem value?_of_taken? {m : Mark} {span : Span} (h : m.taken? settings = some span) :
    ∃ value, m.value? = some value ∧ span ∈ callSpans value := by
  cases m with
  | call => cases h
  | site kind name value place =>
    rw [Mark.taken?] at h
    split_ifs at h
    obtain ⟨call, hcall, hspan⟩ := Option.bind_eq_some_iff.1 h
    obtain ⟨value, hvalue, rfl⟩ := Option.map_eq_some_iff.1 hcall
    exact ⟨value, hvalue, List.mem_filterMap.2 ⟨_, value.unparenthesized_mem_subnodes, hspan⟩⟩

theorem mem_callSpans_of_taken? {n : Node} {m : Mark} {span : Span} (hm : m ∈ marks n)
    (h : m.taken? settings = some span) : span ∈ callSpans n := by
  obtain ⟨inner, hinner, hm⟩ := List.mem_flatMap.1 hm
  obtain ⟨value, hvalue, hspan⟩ := value?_of_taken? h
  obtain ⟨part, hpart, hmem⟩ := value_mem_parts hm hvalue
  have hvalue : value ∈ inner.subnodes :=
    Node.mem_subnodes_trans hmem (Node.mem_subnodes_of_mem_parts hpart)
  exact mem_callSpans_of_mem_subnodes (Node.mem_subnodes_trans hvalue hinner) hspan

theorem marksAt_eq_or (n : Node) :
    (∃ callee arguments span, n = .call callee arguments span) ∨
      ∀ m ∈ marksAt n, m.messageCall? = none := by
  cases n with
  | call callee arguments span => exact .inl ⟨callee, arguments, span, rfl⟩
  | _ =>
    right
    intro m hm
    cases mem_marksAt.1 hm <;> rfl

theorem messageCalls_marksAt (n : Node) :
    ((marksAt n).filterMap Mark.messageCall?).Sublist (callSpan? n).toList := by
  rcases marksAt_eq_or n with ⟨callee, arguments, span, rfl⟩ | hnone
  · cases h : callee.isReferenceTo Name.messageFunction <;>
      simp [marksAt, Mark.messageCall?, callSpan?, h]
  · rw [List.filterMap_eq_nil_iff.2 hnone]
    exact List.nil_sublist _

theorem messageCalls_sublist (ns : List Node) :
    ((ns.flatMap marksAt).filterMap Mark.messageCall?).Sublist (ns.filterMap callSpan?) := by
  induction ns with
  | nil => exact .slnil
  | cons n ns ih =>
    rw [List.flatMap_cons, List.filterMap_append, ← List.singleton_append, List.filterMap_append]
    refine List.Sublist.append ?_ ih
    have hn := messageCalls_marksAt n
    cases h : callSpan? n <;> simpa [h] using hn

def Spares (settings : Settings) (m m' : Mark) : Prop :=
  ∀ span, m'.messageCall? = some span → m.taken? settings ≠ some span

theorem marksAt_pairwise (settings : Settings) (n : Node) :
    (marksAt n).Pairwise (Spares settings) := by
  rcases marksAt_eq_or n with ⟨callee, arguments, span, rfl⟩ | hnone
  · exact List.pairwise_singleton _ _
  · refine List.pairwise_of_forall_mem_list fun m _ m' hm' span hcall => ?_
    rw [hnone m' hm'] at hcall
    cases hcall

theorem flatMap_marks_pairwise {ns : List Node}
    (each : ∀ n ∈ ns, (callSpans n).Nodup → (marks n).Pairwise (Spares settings))
    (hnodup : (ns.flatMap callSpans).Nodup) :
    (ns.flatMap marks).Pairwise (Spares settings) := by
  obtain ⟨hinner, hcross⟩ := List.nodup_flatMap.1 hnodup
  -- A mark takes a call of its own tree only, and two trees share none.
  refine List.pairwise_flatMap.2 ⟨fun n hn => each n hn (hinner n hn), ?_⟩
  refine hcross.imp ?_
  intro n n' hdisjoint m hm m' hm' span hcall htaken
  have hspan : span ∈ callSpans n' :=
    (messageCalls_sublist n'.subnodes).subset (List.mem_filterMap.2 ⟨m', hm', hcall⟩)
  exact hdisjoint (mem_callSpans_of_taken? hm htaken) hspan

theorem marks_pairwise {n : Node} (hnodup : (callSpans n).Nodup) :
    (marks n).Pairwise (Spares settings) := by
  induction n using Node.parts_induction with
  | whole n ih =>
    rw [callSpans_eq, List.nodup_append] at hnodup
    obtain ⟨hparts, -, hself⟩ := hnodup
    rw [marks_eq, List.pairwise_append]
    refine ⟨flatMap_marks_pairwise ih hparts, marksAt_pairwise settings n, ?_⟩
    intro m hm m' hm' span hcall htaken
    obtain ⟨part, hpart, hm⟩ := List.mem_flatMap.1 hm
    have hinner : span ∈ n.parts.flatMap callSpans :=
      List.mem_flatMap.2 ⟨part, hpart, mem_callSpans_of_taken? hm htaken⟩
    have hown : span ∈ (callSpan? n).toList :=
      (messageCalls_marksAt n).subset (List.mem_filterMap.2 ⟨m', hm', hcall⟩)
    exact hself span hinner span hown rfl

def Mark.act (settings : Settings) (file : Nat) (pending : List CallSite) (m : Mark) :
    List CallSite :=
  match m.messageCall?, m.taken? settings with
  | some span, _ => if pending.contains ⟨file, span⟩ then pending else pending ++ [⟨file, span⟩]
  | none, some span => pending.filter (· ≠ ⟨file, span⟩)
  | none, none => pending

theorem callSpan?_eq (n : Node) : callSpan? n = if n.isCall then some n.span else none := by
  cases n <;> rfl

variable {env : Surroundings} {site : Site}

theorem isConsidered_of_hasCall (h : site.hasCall) :
    (candidateOf env site).isConsidered = site.namesMessage env := by
  obtain ⟨call, hcall⟩ := Option.isSome_iff_exists.1 h
  obtain ⟨hvalue, hisCall⟩ := Option.filter_eq_some_iff.1 hcall
  obtain ⟨value, hsite, rfl⟩ := Option.map_eq_some_iff.1 hvalue
  have halias : isAlias env.settings value = false := by
    unfold isAlias
    cases hu : value.unparenthesized <;> simp_all [Node.isCall]
  rw [Candidate.isConsidered, outcome_candidateOf]
  by_cases hname : site.namesMessage env
  · cases hdraft : draftOf env site (site.draft env) value <;>
      simp [hname, hsite, halias, h, hdraft]
  · simp [hname]

theorem callSpan?_value (site : Site) :
    (site.value.map Node.unparenthesized).bind callSpan? = site.call?.map Node.span := by
  rw [Site.call?]
  cases site.value with
  | none => rfl
  | some value =>
    cases h : value.unparenthesized.isCall <;> simp [callSpan?_eq, Option.filter, h]

/-- A site takes its call just if it names a message; such a value is never an alias, and every
style accepts it. -/
theorem taken?_site_eq (env : Surroundings) (site : Site) :
    Mark.taken? env.settings (.site site.kind site.name site.value site.span) =
      if (candidateOf env site).isConsidered then site.call?.map Node.span else none := by
  rw [Mark.taken?, callSpan?_value]
  cases hcall : site.call? with
  | none => simp
  | some call =>
    have hhas : site.hasCall := by simp [Site.hasCall, hcall]
    rw [isConsidered_of_hasCall hhas, Site.namesMessage, hhas]
    rfl

theorem pending_checkSite (env : Surroundings) (site : Site) (state : State) :
    (checkSite env site state).pending =
      Mark.act env.settings env.file state.pending
        (.site site.kind site.name site.value site.span) := by
  have hpending : (checkSite env site state).pending =
      takeCall env (candidateOf env site) state.pending := rfl
  rw [hpending, takeCall_candidateOf, Mark.act, taken?_site_eq, Mark.messageCall?, Site.withoutCall]
  cases (candidateOf env site).isConsidered <;> cases site.call? <;> rfl

theorem pending_perform (env : Surroundings) (state : State) (step : Step) :
    (perform env state step).pending =
      step.mark?.toList.foldl (Mark.act env.settings env.file) state.pending := by
  cases step with
  | enter => rfl
  | exit => rfl
  | site site => exact pending_checkSite env site state
  | call callee arguments span =>
    simp only [perform, checkCall, Step.mark?, Option.toList_some, List.foldl_cons, List.foldl_nil,
      Mark.act, Mark.messageCall?, Mark.taken?]
    split_ifs <;> simp_all

theorem pending_performAll (env : Surroundings) (steps : List Step) (state : State) :
    (performAll env steps state).pending =
      (steps.filterMap Step.mark?).foldl (Mark.act env.settings env.file) state.pending := by
  induction steps generalizing state with
  | nil => rfl
  | cons step steps ih =>
    have hstep := pending_perform env state step
    rw [performAll, List.foldl_cons, ← performAll, ih, hstep]
    cases h : step.mark? <;> simp [h]

variable {ms : List Mark} {m : Mark}

theorem orphansOf_append_call {span : Span} (hcall : m.messageCall? = some span)
    (hspared : ∀ m' ∈ ms, m'.taken? settings ≠ some span) :
    orphansOf settings (ms ++ [m]) = orphansOf settings ms ++ [span] := by
  have htaken : m.taken? settings = none := by
    cases m with
    | site => simp [Mark.messageCall?] at hcall
    | call => rfl
  simpa [orphansOf, hcall, htaken, List.filter_append] using hspared

theorem orphansOf_append_site (hcall : m.messageCall? = none) :
    orphansOf settings (ms ++ [m]) =
      (orphansOf settings ms).filter (m.taken? settings ≠ some ·) := by
  cases htaken : m.taken? settings with
  | none => simp [orphansOf, hcall, htaken]
  | some span =>
    simp [orphansOf, hcall, htaken, List.filter_filter, eq_comm, and_comm]

theorem mem_messageCalls_of_mem_orphansOf {span : Span} (h : span ∈ orphansOf settings ms) :
    span ∈ ms.filterMap Mark.messageCall? := (List.mem_filter.1 h).1

theorem filter_of_other_file {file : Nat} {old : List CallSite}
    (hold : ∀ call ∈ old, call.file ≠ file) (span : Span) :
    old.filter (· ≠ ⟨file, span⟩) = old := by
  rw [List.filter_eq_self]
  rintro call h
  rw [decide_eq_true_iff]
  rintro rfl
  exact hold _ h rfl

/-- Of the calls in a file, just those are pending that no mark has taken so far. -/
theorem foldl_act (file : Nat) {old : List CallSite} (hold : ∀ call ∈ old, call.file ≠ file)
    (hnodup : (ms.filterMap Mark.messageCall?).Nodup) (hpairwise : ms.Pairwise (Spares settings)) :
    ms.foldl (Mark.act settings file) old = old ++ (orphansOf settings ms).map (⟨file, ·⟩) := by
  -- The last mark meets just the orphans of the marks before it: a call is new among them, and a
  -- definition takes its call from them.
  induction ms using List.reverseRecOn with
  | nil => simp [orphansOf]
  | append_singleton ms m ih =>
    rw [List.filterMap_append, List.nodup_append] at hnodup
    rw [List.pairwise_append] at hpairwise
    obtain ⟨hms, -, hfresh⟩ := hnodup
    obtain ⟨hspares, -, hlast⟩ := hpairwise
    rw [List.foldl_append, ih hms hspares, List.foldl_cons, List.foldl_nil]
    cases hcall : m.messageCall? with
    | some span =>
      have hspared := fun m' hm' => hlast m' hm' m (by simp) span hcall
      have hnew : ⟨file, span⟩ ∉ old ++ (orphansOf settings ms).map (CallSite.mk file ·) := by
        rw [List.mem_append, List.mem_map]
        rintro (h | ⟨span', horphan, h⟩)
        · exact hold _ h rfl
        · cases h
          exact hfresh span (mem_messageCalls_of_mem_orphansOf horphan) span (by simp [hcall]) rfl
      rw [orphansOf_append_call hcall hspared, Mark.act, hcall]
      simp only [List.contains_iff_mem]
      rw [if_neg hnew, List.map_append, ← List.append_assoc]
      rfl
    | none =>
      rw [orphansOf_append_site hcall, Mark.act, hcall]
      cases htaken : m.taken? settings with
      | none => simp
      | some span =>
        have hothers := filter_of_other_file hold span
        have hspans : ∀ span', decide (CallSite.mk file span' ≠ ⟨file, span⟩) =
            decide (some span ≠ some span') := by simp [eq_comm]
        simp only [List.filter_append, hothers, List.filter_map, Function.comp_def, hspans]

def orphans (settings : Settings) (p : Program) : List Span := orphansOf settings (marksOf p)

theorem mem_orphans {p : Program} {span : Span} :
    span ∈ orphans settings p ↔
      (∃ callee arguments, .call callee arguments span ∈ p.subnodes ∧
        callee.isReferenceTo Name.messageFunction) ∧
      ¬ ∃ m ∈ marksOf p, m.taken? settings = some span := by
  rw [orphans, orphansOf, List.mem_filter, decide_eq_true_iff, List.mem_filterMap,
    List.mem_filterMap]
  refine and_congr_left fun _ => ⟨?_, ?_⟩
  · rintro ⟨m, hm, hspan⟩
    obtain ⟨n, hn, hm⟩ := List.mem_flatMap.1 hm
    rcases marksAt_eq_or n with ⟨callee, arguments, place, rfl⟩ | hnone
    · rw [marksAt, List.mem_singleton] at hm
      subst hm
      rw [Mark.messageCall?] at hspan
      split_ifs at hspan with hcallee
      cases hspan
      exact ⟨callee, arguments, hn, hcallee⟩
    · rw [hnone m hm] at hspan
      cases hspan
  · rintro ⟨callee, arguments, hn, hcallee⟩
    refine ⟨.call callee arguments span, List.mem_flatMap.2 ⟨_, hn, by simp [marksAt]⟩, ?_⟩
    rw [Mark.messageCall?, if_pos hcallee]

def HasDistinctCalls (p : Program) : Prop := (p.subnodes.filterMap callSpan?).Nodup

theorem messageCalls_nodup {p : Program} (h : HasDistinctCalls p) :
    ((marksOf p).filterMap Mark.messageCall?).Nodup := h.sublist (messageCalls_sublist p.subnodes)

theorem hasDistinctCalls_iff {p : Program} :
    HasDistinctCalls p ↔ (p.items.flatMap callSpans).Nodup := by
  rw [HasDistinctCalls, Program.subnodes, List.filterMap_flatMap]
  rfl

theorem marksOf_pairwise {p : Program} (h : HasDistinctCalls p) :
    (marksOf p).Pairwise (Spares settings) := by
  rw [marksOf_eq]
  exact flatMap_marks_pairwise (fun n _ => marks_pairwise) (hasDistinctCalls_iff.1 h)

theorem orphans_nodup {p : Program} (h : HasDistinctCalls p) : (orphans settings p).Nodup :=
  (messageCalls_nodup h).filter _

theorem pending_stepsOf (env : Surroundings) {p : Program} (h : HasDistinctCalls p) {state : State}
    (hold : ∀ call ∈ state.pending, call.file ≠ env.file) :
    (performAll env (stepsOf p) state).pending =
      state.pending ++ (orphans env.settings p).map (⟨env.file, ·⟩) := by
  rw [pending_performAll, marks_stepsOf]
  exact foldl_act env.file hold (messageCalls_nodup h) (marksOf_pairwise h)

theorem pending_visitsFrom_of {sources : List Source} (spans : Source → List Span)
    (each : ∀ s ∈ sources, ∀ file (state : State), (∀ call ∈ state.pending, call.file ≠ file) →
      (performAll ⟨settings, file, s⟩ (stepsOf s.program) state).pending =
        state.pending ++ (spans s).map (⟨file, ·⟩))
    (file : Nat) {state : State} (hold : ∀ call ∈ state.pending, call.file < file) :
    (visitAll (visitsFrom settings file sources) state).pending =
      state.pending ++ (sources.zipIdx file).flatMap fun (s, i) => (spans s).map (⟨i, ·⟩) := by
  induction sources generalizing file state with
  | nil => simp [visitsFrom, visitAll]
  | cons s rest ih =>
    obtain ⟨hs, hrest⟩ := List.forall_mem_cons.1 each
    have hpending := hs file state fun call h => Nat.ne_of_lt (hold call h)
    rw [visitsFrom, visitAll_append, visitAll_map, ih hrest (file + 1), hpending, List.zipIdx_cons,
      List.flatMap_cons, List.append_assoc]
    intro call h
    rw [hpending, List.mem_append, List.mem_map] at h
    rcases h with h | ⟨span, -, rfl⟩
    · exact Nat.lt_succ_of_lt (hold call h)
    · exact Nat.lt_succ_self file

theorem pending_visitsFrom {sources : List Source}
    (distinct : ∀ s ∈ sources, HasDistinctCalls s.program) (file : Nat) {state : State}
    (hold : ∀ call ∈ state.pending, call.file < file) :
    (visitAll (visitsFrom settings file sources) state).pending =
      state.pending ++ (sources.zipIdx file).flatMap fun (s, i) =>
        (orphans settings s.program).map (⟨i, ·⟩) := by
  apply pending_visitsFrom_of (fun s => orphans settings s.program) _ file hold
  intro s hs file state
  exact pending_stepsOf ⟨settings, file, s⟩ (distinct s hs)

def Event.orphan? : Event → Option Issue
  | .issue i => if i.rule = .orphanedCall then some i else none
  | _ => none

theorem filter_issues (events : List Event) :
    (Event.issues events).filter (·.rule = .orphanedCall) = events.filterMap Event.orphan? := by
  rw [Event.issues, List.filter_filterMap]
  refine List.filterMap_congr fun event _ => ?_
  cases event <;> simp [Event.orphan?, Option.filter]

theorem orphan?_emitted (v : Visit) (state : State) :
    (emitted v.1 state v.2).filterMap Event.orphan? = [] := by
  rw [List.filterMap_eq_nil_iff]
  intro event hevent
  cases event with
  | issue i => simp [Event.orphan?, rule_of_mem_emitted hevent]
  | message => rfl
  | fallback => rfl

theorem orphanEvents_reports {sources : List Source} (spans : Source → List Span) :
    ((sources.zipIdx.flatMap fun (s, file) => (spans s).map (CallSite.mk file)).flatMap
        (orphanEvents settings sources)) =
      sources.zipIdx.flatMap fun (s, file) => (spans s).map fun span =>
        .issue (.orphanedCall (Surroundings.contextAt ⟨settings, file, s⟩ span)
          settings.style.checkLevel) := by
  rw [List.flatMap_assoc]
  refine List.flatMap_congr fun (s, file) hmem => ?_
  have hs : sources[file]? = some s := List.mem_zipIdx_iff_getElem?.1 hmem
  dsimp only
  rw [List.flatMap_map, List.map_eq_flatMap]
  refine List.flatMap_congr fun span _ => ?_
  unfold orphanEvents
  rw [hs]

theorem orphan?_reports {sources : List Source} (spans : Source → List Span) :
    ((sources.zipIdx.flatMap fun (s, file) => (spans s).map (CallSite.mk file)).flatMap
        (orphanEvents settings sources)).filterMap Event.orphan? =
      sources.zipIdx.flatMap fun (s, file) => (spans s).map fun span =>
        .orphanedCall (Surroundings.contextAt ⟨settings, file, s⟩ span)
          settings.style.checkLevel := by
  rw [orphanEvents_reports, List.filterMap_flatMap]
  refine List.flatMap_congr fun (s, file) _ => ?_
  dsimp only
  rw [List.filterMap_map, ← List.filterMap_eq_map]
  rfl

theorem orphanedCalls_run (settings : Settings) (c : Compilation)
    (distinct : ∀ s ∈ c.sources, HasDistinctCalls s.program) :
    ((Event.issues (run settings c)).filter (·.rule = .orphanedCall) =
      c.sources.zipIdx.flatMap fun (s, file) => (orphans settings s.program).map fun span =>
        .orphanedCall (Surroundings.contextAt ⟨settings, file, s⟩ span) settings.style.checkLevel) ∧
    (∀ s ∈ c.sources, (orphans settings s.program).Nodup) ∧
    ∀ file s span, settings.lineMap.find? s.path (Text.position s.text span.start).line = none →
      (Surroundings.contextAt ⟨settings, file, s⟩ span).location.file = s.path := by
  refine ⟨?_, fun s hs => orphans_nodup (distinct s hs), fun file s span hmap => ?_⟩
  · have hnothing : ∀ call ∈ (startOf c).pending, call.file < 0 := by simp [startOf]
    have hpending : (finalState settings c).pending = [] ++ _ :=
      pending_visitsFrom distinct 0 hnothing
    have hevents := filterMap_events Event.orphan? (fun _ => []) orphan?_emitted
      (visits settings c) (startOf c)
    rw [filter_issues, run_eq, List.filterMap_append, hpending, List.nil_append, finalState,
      hevents, orphan?_reports fun s => orphans settings s.program]
    simp [startOf]
  · simp only [Surroundings.contextAt, SourceMap.locate?, hmap, Option.bind_none]

/-- `var MSG_A = goog.getMsg();` and, on the next line, `goog.getMsg();`. The definition is
malformed, but its call is taken. -/
def twoCalls : Source where
  path := "a.js"
  text := "var MSG_A = goog.getMsg();\ngoog.getMsg();".toList
  program :=
    let callee := Node.member (.name "goog" ⟨12, 16⟩) "getMsg" ⟨12, 23⟩
    let callee' := Node.member (.name "goog" ⟨27, 31⟩) "getMsg" ⟨27, 38⟩
    let value := Node.call callee [] ⟨12, 25⟩
    ⟨false, [.declarations .var [.declarator (.name "MSG_A" ⟨4, 9⟩) (some value) ⟨4, 25⟩] ⟨0, 26⟩,
      .expressionStatement (.call callee' [] ⟨27, 40⟩) ⟨27, 41⟩]⟩
  comments := []

theorem orphanedCalls_run_twoCalls :
    (Event.issues (run {} ⟨[], [twoCalls], []⟩)).filter (·.rule = .orphanedCall) =
      [.orphanedCall ⟨⟨"a.js", 2, 1⟩, some "goog.getMsg();"⟩ .error] := by
  have hdistinct : ∀ s ∈ [twoCalls], HasDistinctCalls s.program := by
    simp [twoCalls, hasDistinctCalls_iff, callSpans_eq, callSpan?, Node.parts]
  have hmarks : (marksOf twoCalls.program).filterMap Mark.messageCall? = [⟨12, 25⟩, ⟨27, 40⟩] ∧
      (marksOf twoCalls.program).filterMap (Mark.taken? {}) = [⟨12, 25⟩] := by
    simp only [twoCalls, marksOf_eq, marks_eq, Node.parts, marksAt, declaratorMarks,
      List.flatMap_cons, List.flatMap_nil, Option.toList_some, List.append_nil, List.nil_append, List.cons_append]
    decide
  have horphans : orphans {} twoCalls.program = [⟨27, 40⟩] := by
    rw [orphans, orphansOf, hmarks.1, hmarks.2]
    rfl
  rw [(orphanedCalls_run {} ⟨[], [twoCalls], []⟩ hdistinct).1]
  simp only [List.zipIdx_cons, List.zipIdx_nil, List.flatMap_cons, List.flatMap_nil, horphans]
  decide

end MessageCatalog.Definition
