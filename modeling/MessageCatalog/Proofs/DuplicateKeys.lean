import MessageCatalog.Proofs.Moments

/-! Definitions of one key in the course of a run: each but the first is reported as a duplicate of
the one before it, whatever else the run meets in between. -/

namespace MessageCatalog

def Issue.isDuplicateOf (key : String) : Issue → Bool
  | .duplicateKey _ k _ => k = key
  | _ => false

theorem Issue.rule_of_isDuplicateOf {key : String} {i : Issue} (h : i.isDuplicateOf key) :
    i.rule = .duplicateKey := by
  cases i <;> first | rfl | cases h

namespace Definition
open Script (Node Span)

def MustBeUnique (key : String) : Prop :=
  Name.isUnnamed key.toList = false ∧ Name.externalId? key.toList = none

instance (key : String) : Decidable (MustBeUnique key) := inferInstanceAs (Decidable (_ ∧ _))

def Forwarded.duplicate (f : Forwarded) (previous : Location) : Issue :=
  .duplicateKey (f.env.contextAt f.value.span) f.key previous

def definitionsOf (settings : Settings) (c : Compilation) (key : String) : List Forwarded :=
  (forwarded settings c).filter (·.key = key)

variable {key : String}

theorem filter_eq_nil_of_rule {issues : List Issue} (h : ∀ i ∈ issues, i.rule ≠ .duplicateKey) :
    issues.filter (·.isDuplicateOf key) = [] :=
  List.filter_eq_nil_iff.2 fun i hi hkey => h i hi (Issue.rule_of_isDuplicateOf hkey)

theorem filter_messageIssues (env : Surroundings) (registry : Registry) (c : Candidate)
    (value : Node) (m : Message) :
    (messageIssues env registry c value m).filter (·.isDuplicateOf key) =
      if c.key = key ∧ ¬ c.isUnnamed ∧ ¬ m.isExternal then
        (registry.locationOf? key).toList.map (.duplicateKey (env.contextAt value.span) key ·)
      else [] := by
  simp only [messageIssues, List.filter_append]
  have hempty : (if m.isEmpty then [Issue.emptyText (env.contextAt c.site.span) c.key] else
      []).filter (·.isDuplicateOf key) = [] := by
    split_ifs <;> rfl
  have hundescribed : (if c.isCall && !m.isDescribed && !m.isExternal then
      [Issue.noDescription (env.contextAt c.site.span) c.key env.settings.style.checkLevel] else
      []).filter (·.isDuplicateOf key) = [] := by
    split_ifs <;> rfl
  rw [hempty, hundescribed, List.append_nil, List.append_nil]
  by_cases hkey : c.key = key
  · subst hkey
    cases registry.locationOf? c.key <;> cases c.isUnnamed <;> cases m.isExternal <;>
      simp [Issue.isDuplicateOf]
  · rw [if_neg fun h => hkey h.1]
    cases registry.locationOf? c.key <;> cases c.isUnnamed <;> cases m.isExternal <;>
      simp [Issue.isDuplicateOf, hkey]

theorem mustBeUnique_iff {v : Visit} {f : Forwarded} (h : f ∈ forwardedAt v) :
    MustBeUnique f.key ↔ ¬ f.isUnnamed ∧ ¬ f.message.isExternal := by
  obtain ⟨hkey, hexternal⟩ := key_of_mem_forwardedAt h
  have hunnamed : f.isUnnamed = Name.isUnnamed f.key.toList := rfl
  rw [hexternal, hkey, MustBeUnique, ← hunnamed]
  cases f.isUnnamed <;> simp

theorem duplicates_emitted (t : Moment) :
    (Event.issues t.emitted).filter (·.isDuplicateOf key) =
      ((forwardedAt t.visit).filter (·.key = key)).flatMap fun f =>
        if MustBeUnique key then (t.before.registry.locationOf? key).toList.map f.duplicate
        else [] := by
  obtain ⟨env, step, before⟩ := t
  cases step with
  | enter => rfl
  | exit => rfl
  | call callee arguments span =>
    refine filter_eq_nil_of_rule fun i hi => ?_
    rw [Event.mem_issues, Moment.emitted, emitted] at hi
    split_ifs at hi
    · cases hi
    · rw [List.mem_singleton] at hi
      rcases fallbackEvent_cases env before.scopes before.registry arguments span with
        ⟨i', hi', hrule⟩ | ⟨first, second, hi'⟩
      · obtain rfl := Event.issue.inj (hi.trans hi')
        rcases hrule with hrule | hrule <;> simp [hrule]
      · rw [hi'] at hi
        cases hi
    · cases hi
  | site site =>
    have hlegacy : (legacyIssues env (candidateOf env site)).filter (·.isDuplicateOf key) = [] :=
      filter_eq_nil_of_rule fun i hi => by simp [rule_of_mem_legacyIssues hi]
    rw [Moment.emitted, emitted, Event.issues_append, Event.issues_map, List.filter_append, hlegacy,
      List.nil_append]
    rcases outcomeEvents_cases env before.registry site with
      ⟨f, hf, hevents⟩ | ⟨hnone, issues, hevents, hrule⟩
    · have hmem : f ∈ forwardedAt (env, .site site) := hf ▸ List.mem_singleton_self f
      obtain ⟨hvisit, -, -⟩ := mem_forwardedAt hmem
      obtain ⟨rfl, hsite⟩ := Prod.mk.inj hvisit
      obtain rfl := Step.site.inj hsite
      have hunique := mustBeUnique_iff hmem
      rw [hevents, Event.issues_append, Event.issues_map, List.filter_append, filter_messageIssues,
        Moment.visit, hf]
      have hevent : (Event.issues [f.event]).filter (·.isDuplicateOf key) = [] := rfl
      have hkey : (candidateOf f.env f.site).key = f.key := rfl
      have hunnamed : (candidateOf f.env f.site).isUnnamed = f.isUnnamed := rfl
      rw [hevent, List.append_nil, hkey, hunnamed]
      by_cases h : f.key = key
      · subst h
        simp only [true_and, ← hunique, List.filter_cons, decide_true, if_true, List.filter_nil,
          List.flatMap_cons, List.flatMap_nil, List.append_nil]
        rfl
      · simp [h]
    · rw [hevents, Event.issues_map, Moment.visit, hnone]
      exact filter_eq_nil_of_rule fun i hi => by rcases hrule i hi with h | h <;> simp [h]

/-- The reports of definitions of one key, the first of which finds `previous`. -/
def chain (previous : Option Location) : List Forwarded → List Issue
  | [] => []
  | f :: fs => previous.toList.map f.duplicate ++ chain (some f.location) fs

theorem chain_append (previous : Option Location) (fs gs : List Forwarded) :
    chain previous (fs ++ gs) =
      chain previous fs ++ chain ((fs.getLast?.map Forwarded.location).or previous) gs := by
  induction fs generalizing previous with
  | nil => rfl
  | cons f fs ih =>
    rw [List.cons_append, chain, chain, ih, List.append_assoc, List.getLast?_cons]
    cases fs.getLast? <;> rfl

theorem chain_some (f : Forwarded) (fs : List Forwarded) :
    chain (some f.location) fs =
      List.zipWith (fun previous f => f.duplicate previous.location) (f :: fs) fs := by
  induction fs generalizing f with
  | nil => rfl
  | cons g fs ih => rw [chain, ih, List.zipWith_cons_cons]; rfl

theorem chain_none (fs : List Forwarded) :
    chain none fs =
      List.zipWith (fun previous f => f.duplicate previous.location) fs fs.tail := by
  cases fs with
  | nil => rfl
  | cons f fs => exact chain_some f fs

theorem latest_isNamed (hnamed : Name.isUnnamed key.toList = false) (ts : List Moment) :
    (latest (·.isNamed key) (definedIn ts)).map Defined.source =
      (((ts.map Moment.visit).flatMap forwardedAt).filter (·.key = key)).getLast? := by
  have hsame : ∀ d : Defined, d.isNamed key = decide (d.source.key = key) := by
    intro d
    have hunnamed : d.source.isUnnamed = Name.isUnnamed d.source.key.toList := rfl
    by_cases hkey : d.source.key = key
    · simp [Defined.isNamed, hunnamed, hkey, hnamed]
    · simp [Defined.isNamed, hkey, Ne.symm hkey]
  rw [← map_source_definedIn, List.filter_map, List.getLast?_map, latest]
  simp only [hsame, Function.comp_def]

theorem locationOf?_after (hnamed : Name.isUnnamed key.toList = false) (t : Moment) :
    t.after.registry.locationOf? key =
      (((forwardedAt t.visit).filter (·.key = key)).getLast?.map Forwarded.location).or
        (t.before.registry.locationOf? key) := by
  have hlatest := latest_isNamed hnamed [t]
  rw [List.map_singleton, List.flatMap_singleton] at hlatest
  rw [← hlatest, Registry.locationOf?, named_after, Option.map_or, Option.map_map, Option.map_map]
  simp only [definedIn, List.flatMap_cons, List.flatMap_nil, List.append_nil]
  rfl

theorem duplicates_momentsFrom (hunique : MustBeUnique key) (vs : List Visit) (state : State) :
    ((momentsFrom state vs).flatMap fun t =>
        (Event.issues t.emitted).filter (·.isDuplicateOf key)) =
      chain (state.registry.locationOf? key) ((vs.flatMap forwardedAt).filter (·.key = key)) := by
  induction vs generalizing state with
  | nil => rfl
  | cons v vs ih =>
    have hafter := locationOf?_after hunique.1 ⟨v.1, v.2, state⟩
    rw [Moment.after] at hafter
    rw [momentsFrom, List.flatMap_cons, duplicates_emitted, ih, hafter, List.flatMap_cons,
      List.filter_append, chain_append]
    -- A visit defines the key at most once, and so adds at most one link.
    rcases forwardedAt_cases v with hv | ⟨f, hv⟩
    · simp [Moment.visit, hv, chain]
    · by_cases hkey : f.key = key <;> simp [Moment.visit, hv, chain, hunique, hkey]

theorem forwarded_sublist_run (settings : Settings) (c : Compilation) :
    ((forwarded settings c).map Forwarded.event).Sublist (run settings c) := by
  have hself : ∀ events : List Event, (events.filterMap Event.message?).Sublist events := by
    intro events
    induction events with
    | nil => exact .slnil
    | cons event events ih =>
      cases event with
      | message => exact ih.cons_cons _
      | fallback => exact ih.cons _
      | issue => exact ih.cons _
  rw [← filterMap_message_run]
  exact hself _

theorem filter_message_run (settings : Settings) (c : Compilation) :
    ((definitionsOf settings c key).map Forwarded.event).Sublist (run settings c) :=
  (List.Sublist.map _ List.filter_sublist).trans (forwarded_sublist_run settings c)

theorem filter_duplicates_run (settings : Settings) (c : Compilation) (key : String) :
    (Event.issues (run settings c)).filter (·.isDuplicateOf key) =
      if MustBeUnique key then
        List.zipWith (fun previous f => f.duplicate previous.location)
          (definitionsOf settings c key) (definitionsOf settings c key).tail
      else [] := by
  have hend : (Event.issues ((finalState settings c).pending.flatMap
      (orphanEvents settings c.sources))).filter (·.isDuplicateOf key) = [] := by
    refine filter_eq_nil_of_rule fun i hi => ?_
    obtain ⟨i', hi', hrule⟩ := rule_of_mem_orphanEvents (Event.mem_issues.1 hi)
    obtain rfl := Event.issue.inj hi'
    simp [hrule]
  rw [run_eq_moments, Event.issues_append, List.filter_append, hend, List.append_nil,
    Event.issues_flatMap, List.filter_flatMap]
  split_ifs with hunique
  · rw [moments, duplicates_momentsFrom hunique]
    exact chain_none _
  · simp [duplicates_emitted, hunique]

/-- Whatever else happens in between, the definitions of a key form one chain. -/
theorem duplicateKeys_run (settings : Settings) (c : Compilation) (key : String)
    (unmapped : settings.lineMap = {}) :
    ((Event.issues (run settings c)).filter (·.isDuplicateOf key) =
      if MustBeUnique key then
        List.zipWith (fun previous f => f.duplicate previous.location)
          (definitionsOf settings c key) (definitionsOf settings c key).tail
      else []) ∧
    (∀ f ∈ definitionsOf settings c key,
      (f.env.contextAt f.value.span).location = f.location) ∧
    ((definitionsOf settings c key).map Forwarded.event).Sublist (run settings c) ∧
    (∀ t ∈ moments settings c, ∀ f ∈ forwardedAt t.visit, f.key = key → f.IsHeld t.after) ∧
    (Name.isUnnamed key.toList = false → ∀ earlier t later,
      moments settings c = earlier ++ t :: later →
        t.before.registry.named.find? key =
          (((earlier.map Moment.visit).flatMap forwardedAt).filter (·.key = key)).getLast?.map
            Forwarded.entry) := by
  refine ⟨filter_duplicates_run settings c key, fun f hf => ?_, filter_message_run settings c,
    fun t _ f hf _ => isHeld_after hf, fun hnamed earlier t later hmoments => ?_⟩
  · have hlines : f.env.settings.lineMap = {} := by
      obtain ⟨hvisit, -, -⟩ := mem_forwarded (List.mem_of_mem_filter hf)
      rw [(mem_visitsFrom hvisit).1, unmapped]
    simp only [Surroundings.contextAt, hlines]
    rfl
  · rw [named_moments hmoments, ← latest_isNamed hnamed, Option.map_map]
    rfl

/-- `var MSG_A = goog.getMsg('a');`, `var MSG_A = goog.getMsg();` and
`x = {MSG_A: goog.getMsg('b')};`, each on a line of its own. -/
def repeatedKey : Source where
  path := "a.js"
  text := ("var MSG_A = goog.getMsg('a');\nvar MSG_A = goog.getMsg();\n" ++
    "x = \x7bMSG_A: goog.getMsg('b')\x7d;").toList
  program :=
    let call (start : Nat) (arguments : List Node) (stop : Nat) : Node :=
      .call (.member (.name "goog" ⟨start, start + 4⟩) "getMsg" ⟨start, start + 11⟩) arguments
        ⟨start, stop⟩
    let definition (start : Nat) (value : Node) : Node :=
      .declarations .var
        [.declarator (.name "MSG_A" ⟨start + 4, start + 9⟩) (some value) ⟨start + 4, value.span.stop⟩]
        ⟨start, value.span.stop + 1⟩
    let value := call 69 [.string (some "b") ⟨81, 84⟩] 85
    ⟨false, [definition 0 (call 12 [.string (some "a") ⟨24, 27⟩] 28), definition 30 (call 42 [] 55),
      .expressionStatement (.assign "=" (.name "x" ⟨57, 58⟩)
        (.object [.property (.name "MSG_A" ⟨62, 67⟩) value ⟨62, 85⟩] ⟨61, 86⟩) ⟨57, 86⟩) ⟨57, 87⟩]⟩
  comments := []

theorem duplicateKeys_run_repeatedKey :
    (Event.issues (run {} ⟨[], [repeatedKey], []⟩)).filter (·.isDuplicateOf "MSG_A") =
      [.duplicateKey ⟨⟨"a.js", 3, 13⟩, some "x = \x7bMSG_A: goog.getMsg('b')\x7d;"⟩ "MSG_A"
        ⟨"a.js", 1, 13⟩] := by
  rw [(duplicateKeys_run {} ⟨[], [repeatedKey], []⟩ "MSG_A" rfl).1]
  decide +kernel

end Definition

end MessageCatalog
