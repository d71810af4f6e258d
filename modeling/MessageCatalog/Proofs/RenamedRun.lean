import MessageCatalog.Proofs.RenamedEvents

/-! Runs over renamed files, with the old names as a table. Both runs go step by step, and what the
states know keeps to the renaming; only a fallback call can tell them apart, for it looks its
arguments up as they are written. -/

namespace MessageCatalog

namespace Compilation
open Definition (fallbackCall?)

/-- The files with other names in their programs, the tokens of each moved in a way of its own. -/
structure IsRenamed (ρ : String → String) (c c' : Compilation) : Prop where
  externs : List.Forall₂ (fun s s' => ∃ σ, s'.program = s.program.rename ρ σ) c.externs c'.externs
  sources : List.Forall₂ (fun s s' => ∃ σ, s.IsRenamed ρ σ s') c.sources c'.sources

def RenamesReference (ρ : String → String) (c : Compilation) : Prop :=
  ∃ s ∈ c.sources, ∃ call ∈ s.program.subnodes.filterMap fallbackCall?, ∃ argument ∈ call.1,
    (argument.rename ρ id).dottedName ≠ argument.dottedName

end Compilation

namespace Definition
open Script (Node Span)

def Event.Agrees (c : Compilation) (ρ : String → String) (e e' : Event) : Prop :=
  e.Same e' ∨ (c.RenamesReference ρ ∧ e.isAnswer ∧ e'.isAnswer)

def CallSite.IsRenamed (file : Nat) (σ : Nat → Nat) (call call' : CallSite) : Prop :=
  call'.file = call.file ∧
    (call.file < file ∨ (call.file = file ∧ call'.span = call.span.move σ))

structure State.IsRenamed (c : Compilation) (ρ : String → String) (file : Nat) (σ : Nat → Nat)
    (state state' : State) : Prop where
  scopes : state'.scopes = state.scopes.rename ρ
  namesIn : state.scopes.NamesIn c.names
  registry : Registry.Alike state.registry state'.registry
  pending : List.Forall₂ (CallSite.IsRenamed file σ) state.pending state'.pending
  events : List.Forall₂ (Event.Agrees c ρ) state.events state'.events

variable {c : Compilation} {ρ : String → String} {σ : Nat → Nat} {env env' : Surroundings}
  {file : Nat}

theorem move_inj (hσ : Function.Injective σ) {s s' : Span} : s.move σ = s'.move σ ↔ s = s' := by
  obtain ⟨start, stop⟩ := s
  obtain ⟨start', stop'⟩ := s'
  simp [Span.move, hσ.eq_iff]

theorem CallSite.IsRenamed.eq_iff (hσ : Function.Injective σ) {call call' : CallSite}
    (h : call.IsRenamed file σ call') (span : Span) :
    call' = ⟨file, span.move σ⟩ ↔ call = ⟨file, span⟩ := by
  obtain ⟨number, place⟩ := call
  obtain ⟨number', place'⟩ := call'
  obtain ⟨hfile, hplace⟩ := h
  dsimp only at hfile hplace
  rcases hplace with hearlier | ⟨rfl, rfl⟩
  · have hne : number ≠ file := hearlier.ne
    simp [hfile, hne]
  · simp [hfile, move_inj hσ]

theorem contains_rename (hσ : Function.Injective σ) {pending pending' : List CallSite}
    (h : List.Forall₂ (CallSite.IsRenamed file σ) pending pending') (span : Span) :
    pending'.contains ⟨file, span.move σ⟩ = pending.contains ⟨file, span⟩ := by
  induction h with
  | nil => rfl
  | cons hcall _ ih =>
    have hiff := hcall.eq_iff hσ span
    rw [List.contains_cons, List.contains_cons, ih, beq_eq_decide, beq_eq_decide]
    simp only [eq_comm, hiff]

theorem withoutCall_rename (h : env.IsRenamed c ρ σ env') {pending pending' : List CallSite}
    (hpending : List.Forall₂ (CallSite.IsRenamed env.file σ) pending pending') {a b : Candidate}
    (hab : a.IsRenamed ρ σ b) :
    List.Forall₂ (CallSite.IsRenamed env.file σ) (takeCall env a pending)
      (takeCall env' b pending') := by
  unfold takeCall
  rw [hab.site, Site.value_rename, hab.isCall, isConsidered_of_alike hab.outcome, h.file]
  cases a.site.value with
  | none => exact hpending
  | some value =>
    simp only [Option.map_some, Node.unparenthesized_rename, Node.span_rename]
    split_ifs
    · refine List.rel_filter (fun call call' hcall => ?_) hpending
      simp [hcall.eq_iff h.source.apart]
    · exact hpending

theorem Registry.Alike.addNamed {r r' : Registry} (h : Registry.Alike r r') (key : String)
    (m : Message) (location location' : Location) :
    Registry.Alike (r.addNamed key m location) (r'.addNamed key m location') where
  named k := by
    have hnamed := h.named k
    simp only [Registry.named?, Registry.addNamed, Table.find?_insert] at hnamed ⊢
    split_ifs
    · rfl
    · exact hnamed
  unnamed := h.unnamed

theorem Registry.Alike.addUnnamed {r r' : Registry} (h : Registry.Alike r r') (binding : Binding)
    (m : Message) : Registry.Alike (r.addUnnamed binding m) (r'.addUnnamed binding m) where
  named := h.named
  unnamed b := by
    have hunnamed := h.unnamed b
    simp only [Registry.unnamed?, Registry.addUnnamed, Table.find?_insert] at hunnamed ⊢
    split_ifs
    · rfl
    · exact hunnamed

theorem register_rename {scopes : Scopes} (hresolve : ∀ x ∈ c.names,
      (scopes.rename ρ).resolve (ρ x) = scopes.resolve x) {r r' : Registry}
    (hr : Registry.Alike r r') {a b : Candidate} (hab : a.IsRenamed ρ σ b)
    (hname : a.site.name ∈ c.names) (value value' : Node) (m : Message) :
    Registry.Alike (register env scopes r a value m)
      (register env' (scopes.rename ρ) r' b value' m) := by
  have hunnamed : b.isUnnamed = a.isUnnamed := by rw [Candidate.isUnnamed, hab.key]; rfl
  have hbinding : (scopes.rename ρ).resolve b.site.name = scopes.resolve a.site.name := by
    rw [hab.site]
    exact hresolve _ hname
  unfold register
  rw [hunnamed, hab.key, hbinding]
  split_ifs
  · cases scopes.resolve a.site.name with
    | none => exact hr
    | some binding => exact hr.addUnnamed binding m
  · exact hr.addNamed _ m _ _

theorem dottedName_rename_id (n : Node) :
    (n.rename ρ σ).dottedName = (n.rename ρ id).dottedName := by
  induction n using Node.parts_induction with
  | whole n ih =>
    cases n with
    | member base last span =>
      have hbase := ih base (by simp [Node.parts])
      simp [Node.rename, Node.dottedName, hbase]
    | paren inner span =>
      have hinner := ih inner (by simp [Node.parts])
      simp [Node.rename, Node.dottedName, hinner]
    | _ => rfl

theorem checkSite_rename (h : env.IsRenamed c ρ σ env') (hc : c.Renames ρ) {site : Site}
    (hsite : .site site ∈ stepsOf env.source.program)
    (halone : env.settings.style.isStrict ∨ site.StandsAlone ρ env) {state state' : State}
    (hstate : state.IsRenamed c ρ env.file σ state') :
    (checkSite env site state).IsRenamed c ρ env.file σ
      (checkSite env' (site.rename ρ σ) state') := by
  have hab := candidateOf_rename h hc hsite halone
  have hsame : ∀ {es es'}, List.Forall₂ Event.Same es es' →
      List.Forall₂ (Event.Agrees c ρ) es es' := fun hes => hes.imp fun _ _ => .inl
  refine ⟨hstate.scopes, hstate.namesIn, ?_, ?_, ?_⟩
  · have houtcome := hab.outcome
    have hregister : ∀ value value' m,
        Registry.Alike (register env state.scopes state.registry (candidateOf env site) value m)
          (register env' (state.scopes.rename ρ) state'.registry
            (candidateOf env' (site.rename ρ σ)) value' m) :=
      register_rename (fun x hx => Scopes.resolve_rename hc.injective hstate.namesIn hx)
        hstate.registry hab (stands_of_site h.mem hsite).1
    unfold checkSite
    dsimp only
    rw [Site.value_rename]
    cases ha : (candidateOf env site).outcome <;>
      cases hb : (candidateOf env' (site.rename ρ σ)).outcome <;>
      simp only [ha, hb, Outcome.Alike] at houtcome
    case defined.defined m m' =>
      subst houtcome
      cases site.value with
      | none => exact hstate.registry
      | some value =>
        dsimp only [Option.map_some]
        rw [hstate.scopes]
        exact hregister _ _ _
    all_goals exact hstate.registry
  · exact withoutCall_rename h hstate.pending hab
  · exact List.rel_append (List.rel_append hstate.events (hsame (legacyIssues_rename h hab)))
      (hsame (outcomeEvents_rename h hab hstate.registry))

theorem checkCall_rename (h : env.IsRenamed c ρ σ env') (hc : c.Renames ρ) {callee : Node}
    {arguments : List Node} {span : Span}
    (hcall : .call callee arguments span ∈ stepsOf env.source.program) {state state' : State}
    (hstate : state.IsRenamed c ρ env.file σ state') :
    (checkCall env callee arguments span state).IsRenamed c ρ env.file σ
      (checkCall env' (callee.rename ρ σ) (arguments.map (Node.rename ρ σ)) (span.move σ)
        state') := by
  have hmem := mem_subnodes_of_call hcall
  have hnames : ∀ n ∈ callee :: arguments, n.names ⊆ c.names := by
    intro n hn
    have hpart : n ∈ (Node.call callee arguments span).subnodes :=
      Node.mem_subnodes_of_mem_parts hn
    exact StandsIn.names ⟨env.source, h.mem, Script.Program.mem_subnodes_trans hpart hmem⟩
  obtain ⟨hcallee, harguments⟩ := List.forall_mem_cons.1 hnames
  obtain ⟨hmessage, hfallback⟩ := isReferenceTo_rename (σ := σ) hc hcallee
  have hcontains := contains_rename h.source.apart hstate.pending span
  unfold checkCall
  dsimp only
  rw [hmessage, hfallback, h.file, hcontains]
  split_ifs with _ _ hreference
  · exact hstate
  · refine ⟨hstate.scopes, hstate.namesIn, hstate.registry, ?_, hstate.events⟩
    exact List.rel_append hstate.pending (.cons ⟨rfl, .inr ⟨rfl, rfl⟩⟩ .nil)
  · refine ⟨hstate.scopes, hstate.namesIn, hstate.registry, hstate.pending, ?_⟩
    refine List.rel_append hstate.events (.cons ?_ .nil)
    rw [hstate.scopes]
    by_cases hspelled : ∀ n ∈ arguments, (n.rename ρ σ).dottedName = n.dottedName
    · exact .inl (fallbackEvent_rename hc hstate.namesIn hstate.registry harguments hspelled span)
    · refine .inr ⟨?_, isAnswer_fallbackEvent .., isAnswer_fallbackEvent ..⟩
      push Not at hspelled
      obtain ⟨argument, hargument, hne⟩ := hspelled
      rw [dottedName_rename_id] at hne
      refine ⟨env.source, h.mem, (arguments, span), ?_, argument, hargument, hne⟩
      refine List.mem_filterMap.2 ⟨_, hmem, ?_⟩
      simpa [fallbackCall?, Node.isReferenceTo] using hreference
  · exact hstate

theorem perform_rename (h : env.IsRenamed c ρ σ env') (hc : c.Renames ρ) {step : Step}
    (hstep : step ∈ stepsOf env.source.program)
    (halone : env.settings.style.isStrict ∨ ∀ site, step = .site site → site.StandsAlone ρ env)
    {state state' : State} (hstate : state.IsRenamed c ρ env.file σ state') :
    (perform env state step).IsRenamed c ρ env.file σ
      (perform env' state' (step.rename ρ σ)) := by
  cases step with
  | enter names =>
    have hnames : names ⊆ c.names :=
      List.Subset.trans (names_of_enter hstep)
        (Compilation.names_subset (List.mem_append_right _ h.mem))
    have hentered := hstate.namesIn.enter
    refine ⟨?_, hentered.declareAll hnames, hstate.registry, hstate.pending, hstate.events⟩
    simp only [perform, Step.rename, hstate.scopes, Scopes.enter_rename]
    exact Scopes.declareAll_rename hc.injective hentered hnames
  | exit =>
    refine ⟨?_, hstate.namesIn.exit, hstate.registry, hstate.pending, hstate.events⟩
    simp only [perform, Step.rename, hstate.scopes, Scopes.exit_rename]
  | site site =>
    exact checkSite_rename h hc hstep (halone.imp_right fun halone => halone site rfl) hstate
  | call callee arguments span => exact checkCall_rename h hc hstep hstate

theorem performAll_rename (h : env.IsRenamed c ρ σ env') (hc : c.Renames ρ) {steps : List Step}
    (hsteps : steps ⊆ stepsOf env.source.program)
    (halone : env.settings.style.isStrict ∨
      ∀ step ∈ steps, ∀ site, step = .site site → site.StandsAlone ρ env)
    {state state' : State} (hstate : state.IsRenamed c ρ env.file σ state') :
    (performAll env steps state).IsRenamed c ρ env.file σ
      (performAll env' (steps.map (Step.rename ρ σ)) state') := by
  induction steps generalizing state state' with
  | nil => exact hstate
  | cons step steps ih =>
    obtain ⟨hstep, hsteps⟩ := List.cons_subset.1 hsteps
    have hhead := halone.imp_right fun halone => halone step List.mem_cons_self
    have htail := halone.imp_right fun halone step' hmem =>
      halone step' (List.mem_cons_of_mem step hmem)
    exact ih hsteps htail (perform_rename h hc hstep hhead hstate)

structure Settings.IsRenamed (c : Compilation) (ρ : String → String)
    (settings settings' : Settings) : Prop where
  style : settings'.style = settings.style
  strategy : settings'.strategy = settings.strategy
  lineMap : ∀ path line column column', settings'.lineMap.locate? path line column' =
    settings.lineMap.locate? path line column
  oldName : ∀ x ∈ c.names, settings'.oldName (ρ x) = settings.oldName x

theorem State.IsRenamed.next {state state' : State} (h : state.IsRenamed c ρ file σ state')
    (τ : Nat → Nat) : state.IsRenamed c ρ (file + 1) τ state' := by
  refine ⟨h.scopes, h.namesIn, h.registry, h.pending.imp fun call call' hcall => ?_, h.events⟩
  obtain ⟨hfile, hplace⟩ := hcall
  refine ⟨hfile, .inl ?_⟩
  rcases hplace with hearlier | ⟨rfl, -⟩
  · omega
  · omega

theorem visitSources_rename (hc : c.Renames ρ) {settings settings' : Settings}
    (hsettings : settings.IsRenamed c ρ settings') {sources sources' : List Source}
    (h : List.Forall₂ (fun s s' => ∃ σ, s.IsRenamed ρ σ s') sources sources')
    (hsources : sources ⊆ c.sources)
    (halone : settings.style.isStrict ∨ ∀ v ∈ visitsFrom settings file sources,
      ∀ site, v.2 = .site site → site.StandsAlone ρ v.1)
    {state state' : State} (hstate : ∀ σ, state.IsRenamed c ρ file σ state') :
    ∃ last, ∀ σ, (visitSources settings file state sources).IsRenamed c ρ last σ
      (visitSources settings' file state' sources') := by
  induction h generalizing file state state' with
  | nil => exact ⟨file, hstate⟩
  | cons hsource _ ih =>
    next s s' rest rest' _ =>
    obtain ⟨σ, hsource⟩ := hsource
    obtain ⟨hs, hrest⟩ := List.cons_subset.1 hsources
    have henv : Surroundings.IsRenamed c ρ σ ⟨settings, file, s⟩ ⟨settings', file, s'⟩ :=
      ⟨rfl, hs, hsource, hsettings.style, hsettings.strategy, hsettings.lineMap, hsettings.oldName⟩
    have hhead : settings.style.isStrict ∨ ∀ step ∈ stepsOf s.program,
        ∀ site, step = .site site → site.StandsAlone ρ ⟨settings, file, s⟩ :=
      halone.imp_right fun halone step hstep => halone (_, step)
        (List.mem_append_left _ (List.mem_map_of_mem hstep))
    have htail : settings.style.isStrict ∨ ∀ v ∈ visitsFrom settings (file + 1) rest,
        ∀ site, v.2 = .site site → site.StandsAlone ρ v.1 :=
      halone.imp_right fun halone v hv => halone v (List.mem_append_right _ hv)
    have hfile := performAll_rename henv hc (List.Subset.refl _) hhead (hstate σ)
    rw [← stepsOf_rename, ← hsource.program] at hfile
    exact ih hrest htail hfile.next

theorem topNames_rename_all {p : Source → Bool} {sources sources' : List Source}
    (h : List.Forall₂ (fun s s' => ∃ σ, s'.program = s.program.rename ρ σ) sources sources')
    (hp : ∀ s s', (∃ σ, s'.program = s.program.rename ρ σ) → p s' = p s) :
    (sources'.filter p).flatMap (·.program.topNames) =
      ((sources.filter p).flatMap (·.program.topNames)).map ρ := by
  induction h with
  | nil => rfl
  | cons hsource _ ih =>
    next s s' rest rest' _ =>
    rw [List.filter_cons, List.filter_cons, hp s s' hsource]
    obtain ⟨σ, hsource⟩ := hsource
    split_ifs
    · rw [List.flatMap_cons, List.flatMap_cons, List.map_append, ih, hsource,
        Script.Program.topNames_rename]
    · exact ih

theorem globalNames_rename {c' : Compilation} (h : c.IsRenamed ρ c') :
    globalNames c' = (globalNames c).map ρ := by
  have hexterns := topNames_rename_all (p := fun _ => true) h.externs fun _ _ _ => rfl
  have hsources := topNames_rename_all (p := fun s => !s.program.isModule)
    (h.sources.imp fun s s' ⟨σ, hs⟩ => ⟨σ, hs.program⟩)
    (fun s s' ⟨σ, hs⟩ => by rw [hs, Script.Program.rename])
  rw [List.filter_true, List.filter_true] at hexterns
  rw [globalNames, globalNames, List.map_append, hexterns, hsources]

theorem globalNames_subset (c : Compilation) : globalNames c ⊆ c.names := by
  have htop : ∀ {s}, s ∈ c.externs ++ c.sources → s.program.topNames ⊆ c.names := fun hs =>
    List.Subset.trans (Script.Program.topNames_subset _) (Compilation.names_subset hs)
  intro x hx
  rcases List.mem_append.1 hx with hx | hx
  · obtain ⟨s, hs, hx⟩ := List.mem_flatMap.1 hx
    exact htop (List.mem_append_left _ hs) hx
  · obtain ⟨s, hs, hx⟩ := List.mem_flatMap.1 hx
    exact htop (List.mem_append_right _ (List.mem_of_mem_filter hs)) hx

theorem startOf_rename {c' : Compilation} (hc : c.Renames ρ) (h : c.IsRenamed ρ c')
    (σ : Nat → Nat) : (startOf c).IsRenamed c ρ 0 σ (startOf c') := by
  have hempty : Scopes.empty.NamesIn c.names :=
    ⟨by simp [Scopes.empty], by simp [Scopes.empty, Table.KeysIn, Table.empty]⟩
  have hglobal := globalNames_subset c
  refine ⟨?_, hempty.declareAll hglobal, ⟨fun _ => rfl, fun _ => rfl⟩, .nil, .nil⟩
  rw [startOf, startOf, globalNames_rename h]
  exact Scopes.declareAll_rename hc.injective hempty hglobal

theorem orphanEvents_rename {settings settings' : Settings}
    (hsettings : settings.IsRenamed c ρ settings') {sources sources' : List Source}
    (hlength : sources'.length = sources.length) {call call' : CallSite}
    (h : call.IsRenamed file σ call') :
    List.Forall₂ (Event.Agrees c ρ) (orphanEvents settings sources call)
      (orphanEvents settings' sources' call') := by
  unfold orphanEvents
  rw [h.1, hsettings.style]
  by_cases hfile : call.file < sources.length
  · rw [List.getElem?_eq_getElem hfile, List.getElem?_eq_getElem (hlength ▸ hfile)]
    exact .cons (.inl ⟨rfl, rfl⟩) .nil
  · rw [List.getElem?_eq_none (by omega), List.getElem?_eq_none (by omega)]
    exact .nil

/-- Under new names, and with a table of the old ones, a run hands on the same messages and pairs
and reports problems of the same kinds, in the same order. Only what becomes of fallback calls may
differ, and that only if such a call refers to something by a name that changes. -/
theorem renamed_run {settings settings' : Settings} {c c' : Compilation} {ρ : String → String}
    (hρ : c.Renames ρ) (hc : c.IsRenamed ρ c') (hsettings : settings.IsRenamed c ρ settings')
    (halone : settings.style.isStrict ∨ ∀ v ∈ visits settings c,
      ∀ site, v.2 = .site site → site.StandsAlone ρ v.1) :
    List.Forall₂ (Event.Agrees c ρ) (run settings c) (run settings' c') := by
  obtain ⟨last, hfinal⟩ := visitSources_rename hρ hsettings hc.sources (List.Subset.refl _)
    halone (startOf_rename hρ hc)
  have hfinal := hfinal id
  refine List.rel_append hfinal.events (List.rel_flatMap hfinal.pending ?_)
  exact fun call call' hcall =>
    orphanEvents_rename hsettings hc.sources.length_eq.symm hcall

/-- The message `/** @desc d */ var MSG_A = goog.getMsg('a');` under a name of five letters. -/
def described (name : String) : Node :=
  let callee : Node := .member (.name "goog" ⟨27, 31⟩) "getMsg" ⟨27, 38⟩
  let value : Node := .call callee [.string (some "a") ⟨39, 42⟩] ⟨27, 43⟩
  .declarations .var [.declarator (.name name ⟨19, 24⟩) (some value) ⟨19, 43⟩] ⟨15, 44⟩

def aliased (name other : String) : Source where
  path := "a.js"
  text := ("/** @desc d */ var " ++ name ++ " = goog.getMsg('a');\nvar " ++ other ++ " = " ++ name ++
    ";").toList
  program :=
    ⟨false, [described name, .declarations .var
      [.declarator (.name other ⟨49, 54⟩) (some (.name name ⟨57, 62⟩)) ⟨49, 62⟩] ⟨45, 63⟩]⟩
  comments := [(15, "* @desc d ")]

def paired (name : String) : Source where
  path := "a.js"
  text := ("/** @desc d */ var " ++ name ++ " = goog.getMsg('a');\ngoog.getMsgWithFallback(" ++
    name ++ ", " ++ name ++ ");").toList
  program :=
    let callee : Node := .member (.name "goog" ⟨45, 49⟩) "getMsgWithFallback" ⟨45, 68⟩
    let value : Node := .call callee [.name name ⟨69, 74⟩, .name name ⟨76, 81⟩] ⟨45, 82⟩
    ⟨false, [described name, .expressionStatement value ⟨45, 83⟩]⟩
  comments := [(15, "* @desc d ")]

def toGreeting : String → String
  | "MSG_A" => "greet"
  | "MSG_B" => "hello"
  | x => x

def greetings : Settings :=
  { oldNames := .ofList [("greet", "MSG_A"), ("hello", "MSG_B")] }

theorem renamed_run_aliased :
    Compilation.Renames ⟨[], [aliased "MSG_A" "MSG_B"], []⟩ toGreeting ∧
    Settings.IsRenamed ⟨[], [aliased "MSG_A" "MSG_B"], []⟩ toGreeting {} greetings ∧
    List.Forall₂ (Event.Agrees ⟨[], [aliased "MSG_A" "MSG_B"], []⟩ toGreeting)
      (run {} ⟨[], [aliased "MSG_A" "MSG_B"], []⟩)
      (run greetings ⟨[], [aliased "greet" "hello"], []⟩) ∧
    (Event.messages (run greetings ⟨[], [aliased "greet" "hello"], []⟩)).map Message.id =
      ["MSG_A"] := by
  have hrenames : Compilation.Renames ⟨[], [aliased "MSG_A" "MSG_B"], []⟩ toGreeting :=
    ⟨by decide +kernel, by decide +kernel, by decide +kernel, by decide +kernel⟩
  have hsource : (aliased "MSG_A" "MSG_B").IsRenamed toGreeting id (aliased "greet" "hello") :=
    ⟨rfl, rfl, rfl, Function.injective_id, by decide +kernel⟩
  have hsettings : Settings.IsRenamed ⟨[], [aliased "MSG_A" "MSG_B"], []⟩ toGreeting {} greetings :=
    ⟨rfl, rfl, fun _ _ _ _ => rfl, by decide +kernel⟩
  have hunit : Compilation.IsRenamed toGreeting ⟨[], [aliased "MSG_A" "MSG_B"], []⟩
      ⟨[], [aliased "greet" "hello"], []⟩ := ⟨.nil, .cons ⟨id, hsource⟩ .nil⟩
  exact ⟨hrenames, hsettings, renamed_run hrenames hunit hsettings (.inl rfl), by decide +kernel⟩

/-- A fallback call is told the new name of its message, and does not find it. -/
theorem renamed_run_paired :
    Compilation.Renames ⟨[], [paired "MSG_A"], []⟩ toGreeting ∧
    (paired "MSG_A").IsRenamed toGreeting id (paired "greet") ∧
    Settings.IsRenamed ⟨[], [paired "MSG_A"], []⟩ toGreeting {} greetings ∧
    Event.fallbacks (run {} ⟨[], [paired "MSG_A"], []⟩) = [("MSG_A", "MSG_A")] ∧
    Event.issues (run {} ⟨[], [paired "MSG_A"], []⟩) = [] ∧
    Event.fallbacks (run greetings ⟨[], [paired "greet"], []⟩) = [] ∧
    (Event.issues (run greetings ⟨[], [paired "greet"], []⟩)).map Issue.rule = [.badFallback] ∧
    (Event.messages (run greetings ⟨[], [paired "greet"], []⟩)).map Message.id = ["MSG_A"] := by
  refine ⟨⟨?_, ?_, ?_, ?_⟩, ⟨rfl, rfl, rfl, Function.injective_id, ?_⟩, ⟨rfl, rfl, fun _ _ _ _ => rfl, ?_⟩,
    ?_, ?_, ?_, ?_, ?_⟩
  all_goals decide +kernel

end Definition

end MessageCatalog
