import MessageCatalog.Proofs.Run
import MessageCatalog.Proofs.SiteOutcome

/-! A run moment by moment: its visits, with the states in which they are made. What the registry
holds at a moment is told by the messages defined before it. -/

namespace MessageCatalog.Definition
open Script (Node Span)

theorem mem_visitsFrom {settings : Settings} {file : Nat} {sources : List Source}
    {env : Surroundings} {step : Step} (h : (env, step) ∈ visitsFrom settings file sources) :
    env.settings = settings ∧ env.source ∈ sources ∧ step ∈ stepsOf env.source.program := by
  induction sources generalizing file with
  | nil => cases h
  | cons s rest ih =>
    rcases List.mem_append.1 h with h | h
    · obtain ⟨step', hstep, hvisit⟩ := List.mem_map.1 h
      cases hvisit
      exact ⟨rfl, List.mem_cons_self, hstep⟩
    · obtain ⟨hsettings, hsource, hstep⟩ := ih h
      exact ⟨hsettings, List.mem_cons_of_mem s hsource, hstep⟩

structure Moment where
  env : Surroundings
  step : Step
  before : State

namespace Moment

def visit (t : Moment) : Visit := (t.env, t.step)

def after (t : Moment) : State := perform t.env t.before t.step

def emitted (t : Moment) : List Event := Definition.emitted t.env t.before t.step

end Moment

def momentsFrom (state : State) : List Visit → List Moment
  | [] => []
  | v :: vs => ⟨v.1, v.2, state⟩ :: momentsFrom (perform v.1 state v.2) vs

def moments (settings : Settings) (c : Compilation) : List Moment :=
  momentsFrom (startOf c) (visits settings c)

variable {state : State} {vs : List Visit}

theorem map_visit_momentsFrom (state : State) (vs : List Visit) :
    (momentsFrom state vs).map Moment.visit = vs := by
  induction vs generalizing state with
  | nil => rfl
  | cons v vs ih => rw [momentsFrom, List.map_cons, ih, Moment.visit]

theorem map_visit_moments (settings : Settings) (c : Compilation) :
    (moments settings c).map Moment.visit = visits settings c := map_visit_momentsFrom _ _

theorem momentsFrom_eq_append {earlier later : List Moment}
    (h : momentsFrom state vs = earlier ++ later) :
    ∃ ws us, vs = ws ++ us ∧ earlier = momentsFrom state ws ∧
      later = momentsFrom (visitAll ws state) us := by
  induction earlier generalizing state vs with
  | nil => exact ⟨[], vs, rfl, rfl, h.symm⟩
  | cons t earlier ih =>
    cases vs with
    | nil => cases h
    | cons v vs =>
      obtain ⟨rfl, hrest⟩ := List.cons.inj h
      obtain ⟨ws, us, rfl, rfl, rfl⟩ := ih hrest
      exact ⟨v :: ws, us, rfl, rfl, rfl⟩

theorem before_of_momentsFrom {earlier later : List Moment} {t : Moment}
    (h : momentsFrom state vs = earlier ++ t :: later) :
    ∃ ws, earlier = momentsFrom state ws ∧ t.before = visitAll ws state := by
  obtain ⟨ws, us, -, hearlier, hlater⟩ := momentsFrom_eq_append h
  refine ⟨ws, hearlier, ?_⟩
  cases us with
  | nil => cases hlater
  | cons v us =>
    obtain ⟨rfl, -⟩ := List.cons.inj hlater
    rfl

theorem later_of_momentsFrom {earlier later : List Moment} {t : Moment}
    (h : momentsFrom state vs = earlier ++ t :: later) :
    ∃ us, t :: later = momentsFrom t.before us := by
  obtain ⟨ws, us, -, -, hlater⟩ := momentsFrom_eq_append h
  cases us with
  | nil => cases hlater
  | cons v us =>
    obtain ⟨rfl, rfl⟩ := List.cons.inj hlater
    exact ⟨v :: us, rfl⟩

namespace Event

theorem issues_append (events events' : List Event) :
    issues (events ++ events') = issues events ++ issues events' := List.filterMap_append

theorem issues_flatMap {α : Type} (l : List α) (f : α → List Event) :
    issues (l.flatMap f) = l.flatMap fun a => issues (f a) := List.filterMap_flatMap

theorem issues_map (l : List Issue) : issues (l.map .issue) = l := by
  rw [issues, List.filterMap_map]
  exact List.filterMap_some

theorem mem_issues {events : List Event} {i : Issue} : i ∈ issues events ↔ .issue i ∈ events := by
  rw [issues, List.mem_filterMap]
  constructor
  · rintro ⟨event, hevent, hi⟩
    cases event with
    | issue => simp_all
    | message => cases hi
    | fallback => cases hi
  · intro h
    exact ⟨_, h, rfl⟩

end Event

theorem events_visitAll (vs : List Visit) (state : State) :
    (visitAll vs state).events =
      state.events ++ (momentsFrom state vs).flatMap Moment.emitted := by
  induction vs generalizing state with
  | nil => simp [visitAll, momentsFrom]
  | cons v vs ih =>
    rw [visitAll_cons, ih, events_perform, momentsFrom, List.flatMap_cons, List.append_assoc]
    rfl

/-- All that a run hands on: what its moments emit, and then the reports of orphaned calls. -/
theorem run_eq_moments (settings : Settings) (c : Compilation) :
    run settings c = (moments settings c).flatMap Moment.emitted ++
      (finalState settings c).pending.flatMap (orphanEvents settings c.sources) := by
  rw [run_eq, finalState, events_visitAll]
  rfl

theorem rule_of_mem_orphanEvents {settings : Settings} {sources : List Source}
    {pending : List CallSite} {event : Event}
    (h : event ∈ pending.flatMap (orphanEvents settings sources)) :
    ∃ i, event = .issue i ∧ i.rule = .orphanedCall := by
  obtain ⟨call, -, hevent⟩ := List.mem_flatMap.1 h
  obtain ⟨source, -, hevent⟩ := eq_of_mem_orphanEvents hevent
  exact ⟨_, hevent, rfl⟩

theorem messages_run (settings : Settings) (c : Compilation) :
    Event.messages (run settings c) = (forwarded settings c).map Forwarded.message := by
  have hmessages : ∀ events : List Event,
      Event.messages (events.filterMap Event.message?) = Event.messages events := by
    intro events
    rw [Event.messages, Event.messages, List.filterMap_filterMap]
    congr
    funext event
    cases event <;> rfl
  rw [← hmessages, filterMap_message_run, Event.messages, List.filterMap_map]
  exact congrFun List.filterMap_eq_map _

namespace Forwarded

def key (f : Forwarded) : String := f.site.key f.env

def isUnnamed (f : Forwarded) : Bool := f.site.isUnnamed f.env

def location (f : Forwarded) : Location := f.env.locationAt f.value.span

def entry (f : Forwarded) : NamedEntry := ⟨f.message, f.location⟩

end Forwarded

theorem mem_forwardedAt {v : Visit} {f : Forwarded} (h : f ∈ forwardedAt v) :
    v = (f.env, .site f.site) ∧ f.site.value = some f.value ∧
      (candidateOf f.env f.site).outcome = .defined f.message := by
  obtain ⟨env, step⟩ := v
  cases step with
  | site site =>
    simp only [forwardedAt] at h
    split at h
    · next message value houtcome hvalue =>
      obtain rfl := List.mem_singleton.1 h
      exact ⟨rfl, hvalue, houtcome⟩
    · cases h
  | enter => cases h
  | exit => cases h
  | call => cases h

theorem mem_forwarded_of_moment {settings : Settings} {c : Compilation} {t : Moment} {f : Forwarded}
    (ht : t ∈ moments settings c) (hf : f ∈ forwardedAt t.visit) : f ∈ forwarded settings c := by
  rw [forwarded, ← map_visit_moments]
  exact List.mem_flatMap_of_mem (List.mem_map_of_mem ht) hf

theorem settings_of_mem_forwarded {settings : Settings} {c : Compilation} {f : Forwarded}
    (hf : f ∈ forwarded settings c) : f.env.settings = settings :=
  (mem_visitsFrom (mem_forwarded hf).1).1

theorem forwardedAt_cases (v : Visit) : forwardedAt v = [] ∨ ∃ f, forwardedAt v = [f] := by
  unfold forwardedAt
  split
  · split
    · exact .inr ⟨_, rfl⟩
    · exact .inl rfl
  · exact .inl rfl

theorem key_of_mem_forwardedAt {v : Visit} {f : Forwarded} (h : f ∈ forwardedAt v) :
    f.message.key = (if f.isUnnamed then none else some f.key) ∧
      f.message.isExternal =
        (f.message.key.bind fun key => Name.externalId? key.toList).isSome := by
  obtain ⟨-, -, houtcome⟩ := mem_forwardedAt h
  have hverdict := verdict_outcome f.env f.site
  rw [houtcome] at hverdict
  obtain ⟨value, -, -, d, hd, hmessage⟩ := hverdict
  have hkey : d.key = f.message.key := by rw [← hmessage, Draft.build]
  have hexternal : f.message.isExternal =
      (d.key.bind fun key => Name.externalId? key.toList).isSome := by rw [← hmessage, Draft.build]
  rw [hexternal, ← hkey]
  exact ⟨(Site.draft_extends hd).1, rfl⟩

theorem outcomeEvents_cases (env : Surroundings) (registry : Registry) (site : Site) :
    (∃ f, forwardedAt (env, .site site) = [f] ∧
      outcomeEvents env registry (candidateOf env site) =
        (messageIssues env registry (candidateOf env site) f.value f.message).map .issue ++
          [f.event]) ∨
    (forwardedAt (env, .site site) = [] ∧
      ∃ issues : List Issue, outcomeEvents env registry (candidateOf env site) = issues.map .issue ∧
        ∀ i ∈ issues, i.rule = .noValue ∨ i.rule = .malformed) := by
  have hsite : (candidateOf env site).site = site := rfl
  simp only [outcomeEvents, forwardedAt, hsite]
  cases (candidateOf env site).outcome with
  | defined message =>
    cases site.value with
    | some value => exact .inl ⟨⟨env, site, value, message⟩, rfl, rfl⟩
    | none => exact .inr ⟨rfl, [], rfl, by simp⟩
  | noValue => exact .inr ⟨rfl, [_], rfl, by simp [Issue.rule]⟩
  | malformed m => exact .inr ⟨rfl, [_], rfl, by simp [Issue.rule]⟩
  | ignored => exact .inr ⟨rfl, [], rfl, by simp⟩
  | refused => exact .inr ⟨rfl, [], rfl, by simp⟩

structure Defined where
  source : Forwarded
  binding : Option Binding

namespace Defined

def isNamed (key : String) (d : Defined) : Bool := !d.source.isUnnamed && key == d.source.key

def isBound (binding : Binding) (d : Defined) : Bool :=
  d.source.isUnnamed && d.binding == some binding

def message (d : Defined) : Message := d.source.message

def entry (d : Defined) : NamedEntry := d.source.entry

end Defined

def Moment.defined (t : Moment) : List Defined :=
  (forwardedAt t.visit).map fun f => ⟨f, t.before.scopes.resolve f.site.name⟩

def definedIn (ts : List Moment) : List Defined := ts.flatMap Moment.defined

theorem definedIn_cons (t : Moment) (ts : List Moment) :
    definedIn (t :: ts) = t.defined ++ definedIn ts := List.flatMap_cons

theorem defined_cases (u : Moment) : u.defined = [] ∨ ∃ d, u.defined = [d] := by
  rcases forwardedAt_cases u.visit with h | ⟨f, h⟩
  · exact .inl (by rw [Moment.defined, h]; rfl)
  · exact .inr ⟨_, by rw [Moment.defined, h]; rfl⟩

theorem mem_definedIn {ts : List Moment} {d : Defined} :
    d ∈ definedIn ts ↔ ∃ t ∈ ts, d.source ∈ forwardedAt t.visit ∧
      d.binding = t.before.scopes.resolve d.source.site.name := by
  simp only [definedIn, Moment.defined, List.mem_flatMap, List.mem_map]
  constructor
  · rintro ⟨t, ht, f, hf, rfl⟩
    exact ⟨t, ht, hf, rfl⟩
  · rintro ⟨t, ht, hf, hbinding⟩
    exact ⟨t, ht, d.source, hf, by rw [← hbinding]⟩

theorem map_source_definedIn (ts : List Moment) :
    (definedIn ts).map Defined.source = (ts.map Moment.visit).flatMap forwardedAt := by
  rw [definedIn, List.map_flatMap, List.flatMap_map]
  refine List.flatMap_congr fun t _ => ?_
  rw [Moment.defined, List.map_map]
  exact List.map_id' _

def latest (p : Defined → Bool) (ds : List Defined) : Option Defined := (ds.filter p).getLast?

theorem latest_append (p : Defined → Bool) (ds es : List Defined) :
    latest p (ds ++ es) = (latest p es).or (latest p ds) := by
  rw [latest, List.filter_append, List.getLast?_append]
  rfl

theorem mem_of_latest {p : Defined → Bool} {ds : List Defined} {d : Defined}
    (h : latest p ds = some d) : d ∈ ds ∧ p d := List.mem_filter.1 (List.mem_of_getLast? h)

theorem latest_singleton (p : Defined → Bool) (d : Defined) :
    latest p [d] = if p d then some d else none := by
  cases h : p d <;> simp [latest, h]

theorem latest_eq_none {p : Defined → Bool} {ds : List Defined} :
    latest p ds = none ↔ ∀ d ∈ ds, ¬ p d := by
  rw [latest, List.getLast?_eq_none_iff, List.filter_eq_nil_iff]

theorem latest_definedIn_eq_some {p : Defined → Bool} {ts : List Moment} {d : Defined} :
    latest p (definedIn ts) = some d ↔
      ∃ past u between, ts = past ++ u :: between ∧ (d ∈ u.defined ∧ p d) ∧
        ∀ e ∈ definedIn between, ¬ p e := by
  induction ts with
  | nil => simp [definedIn, latest]
  | cons t ts ih =>
    rw [definedIn_cons, latest_append]
    constructor
    · intro h
      -- A later definition goes before that of `t`.
      cases hlater : latest p (definedIn ts) with
      | some e =>
        rw [hlater] at h
        obtain rfl := Option.some.inj h
        obtain ⟨past, u, between, rfl, hd, hbetween⟩ := ih.1 hlater
        exact ⟨t :: past, u, between, rfl, hd, hbetween⟩
      | none =>
        rw [hlater, Option.none_or] at h
        exact ⟨[], t, ts, rfl, mem_of_latest h, latest_eq_none.1 hlater⟩
    · rintro ⟨past, u, between, hts, ⟨hd, hp⟩, hbetween⟩
      cases past with
      | nil =>
        obtain ⟨rfl, rfl⟩ := List.cons.inj hts
        rw [latest_eq_none.2 hbetween, Option.none_or]
        rcases defined_cases t with h | ⟨e, h⟩
        · rw [h] at hd
          cases hd
        · rw [h, List.mem_singleton] at hd
          rw [h, latest_singleton, ← hd, if_pos hp]
      | cons t' past =>
        obtain ⟨rfl, rfl⟩ := List.cons.inj hts
        rw [ih.2 ⟨past, u, between, rfl, ⟨hd, hp⟩, hbetween⟩, Option.some_or]

theorem registry_after (t : Moment) :
    (t.defined = [] ∧ t.after.registry = t.before.registry) ∨
      ∃ d, t.defined = [d] ∧
        (∀ key, t.after.registry.named.find? key =
          if d.isNamed key then some d.entry else t.before.registry.named.find? key) ∧
        ∀ binding, t.after.registry.unnamed.find? binding =
          if d.isBound binding then some d.message
          else t.before.registry.unnamed.find? binding := by
  obtain ⟨env, step, before⟩ := t
  cases step with
  | enter => exact .inl ⟨rfl, rfl⟩
  | exit => exact .inl ⟨rfl, rfl⟩
  | call callee arguments span =>
    refine .inl ⟨rfl, ?_⟩
    simp only [Moment.after, perform, checkCall]
    split_ifs <;> rfl
  | site site =>
    simp only [Moment.defined, Moment.visit, Moment.after, perform, forwardedAt, checkSite]
    cases houtcome : (candidateOf env site).outcome with
    | defined message =>
      cases hvalue : site.value with
      | some value =>
        obtain ⟨hnamed, hunnamed⟩ :=
          register_stored env site before.scopes before.registry value message
        refine .inr ⟨⟨⟨env, site, value, message⟩, before.scopes.resolve site.name⟩, rfl,
          fun key => ?_, fun binding => ?_⟩
        · refine (hnamed key).trans (if_congr ?_ rfl rfl)
          simp only [Defined.isNamed, Forwarded.isUnnamed, Forwarded.key, Bool.and_eq_true,
            Bool.not_eq_true', beq_iff_eq, Bool.not_eq_true]
        · refine (hunnamed binding).trans (if_congr ?_ rfl rfl)
          simp only [Defined.isBound, Forwarded.isUnnamed, Bool.and_eq_true, beq_iff_eq]
      | none => exact .inl ⟨rfl, rfl⟩
    | _ => exact .inl ⟨rfl, rfl⟩

theorem named_after (t : Moment) (key : String) :
    t.after.registry.named.find? key =
      ((latest (·.isNamed key) t.defined).map Defined.entry).or
        (t.before.registry.named.find? key) := by
  rcases registry_after t with ⟨hdefined, hregistry⟩ | ⟨d, hdefined, hnamed, -⟩
  · rw [hdefined, hregistry]
    rfl
  · rw [hdefined, hnamed, latest_singleton]
    split_ifs <;> rfl

theorem unnamed_after (t : Moment) (binding : Binding) :
    t.after.registry.unnamed.find? binding =
      ((latest (·.isBound binding) t.defined).map Defined.message).or
        (t.before.registry.unnamed.find? binding) := by
  rcases registry_after t with ⟨hdefined, hregistry⟩ | ⟨d, hdefined, -, hunnamed⟩
  · rw [hdefined, hregistry]
    rfl
  · rw [hdefined, hunnamed, latest_singleton]
    split_ifs <;> rfl

theorem named_visitAll (vs : List Visit) (state : State) (key : String) :
    (visitAll vs state).registry.named.find? key =
      ((latest (·.isNamed key) (definedIn (momentsFrom state vs))).map Defined.entry).or
        (state.registry.named.find? key) := by
  induction vs generalizing state with
  | nil => rfl
  | cons v vs ih =>
    have hafter := named_after ⟨v.1, v.2, state⟩ key
    rw [Moment.after] at hafter
    rw [visitAll_cons, ih, hafter, momentsFrom, definedIn_cons, latest_append, Option.map_or,
      Option.or_assoc]

theorem unnamed_visitAll (vs : List Visit) (state : State) (binding : Binding) :
    (visitAll vs state).registry.unnamed.find? binding =
      ((latest (·.isBound binding) (definedIn (momentsFrom state vs))).map Defined.message).or
        (state.registry.unnamed.find? binding) := by
  induction vs generalizing state with
  | nil => rfl
  | cons v vs ih =>
    have hafter := unnamed_after ⟨v.1, v.2, state⟩ binding
    rw [Moment.after] at hafter
    rw [visitAll_cons, ih, hafter, momentsFrom, definedIn_cons, latest_append, Option.map_or,
      Option.or_assoc]

variable {settings : Settings} {c : Compilation} {earlier later : List Moment} {t : Moment}

theorem named_moments (h : moments settings c = earlier ++ t :: later) (key : String) :
    t.before.registry.named.find? key =
      (latest (·.isNamed key) (definedIn earlier)).map Defined.entry := by
  obtain ⟨ws, rfl, hbefore⟩ := before_of_momentsFrom h
  rw [hbefore, named_visitAll]
  exact Option.or_none

theorem unnamed_moments (h : moments settings c = earlier ++ t :: later) (binding : Binding) :
    t.before.registry.unnamed.find? binding =
      (latest (·.isBound binding) (definedIn earlier)).map Defined.message := by
  obtain ⟨ws, rfl, hbefore⟩ := before_of_momentsFrom h
  rw [hbefore, unnamed_visitAll]
  exact Option.or_none

/-- The message is where a reference to it is looked up: under its key, or if it is unnamed under
the binding of its name, if that has one. -/
structure Forwarded.IsHeld (f : Forwarded) (state : State) : Prop where
  named : f.isUnnamed = false → state.registry.named? f.key = some f.message ∧
    state.registry.locationOf? f.key = some f.location
  unnamed : f.isUnnamed → ∀ binding, state.scopes.resolve f.site.name = some binding →
    state.registry.unnamed? binding = some f.message

theorem isHeld_after {t : Moment} {f : Forwarded} (hf : f ∈ forwardedAt t.visit) :
    f.IsHeld t.after := by
  have hdefined : t.defined = [⟨f, t.before.scopes.resolve f.site.name⟩] := by
    rcases forwardedAt_cases t.visit with hv | ⟨g, hv⟩
    · rw [hv] at hf
      cases hf
    · rw [hv, List.mem_singleton] at hf
      rw [Moment.defined, hv, hf]
      rfl
  have hscopes : t.after.scopes = t.before.scopes := by
    have hstep : t.step = .site f.site := congrArg Prod.snd (mem_forwardedAt hf).1
    rw [Moment.after, hstep]
    rfl
  refine ⟨fun hnamed => ?_, fun hunnamed binding hbinding => ?_⟩
  · have hentry : t.after.registry.named.find? f.key = some f.entry := by
      rw [named_after, hdefined, latest_singleton, if_pos (by simp [Defined.isNamed, hnamed])]
      rfl
    rw [Registry.named?, Registry.locationOf?, hentry]
    exact ⟨rfl, rfl⟩
  · rw [hscopes] at hbinding
    rw [Registry.unnamed?, unnamed_after, hdefined, latest_singleton,
      if_pos (by simp [Defined.isBound, hunnamed, hbinding])]
    rfl

end MessageCatalog.Definition
