import MessageCatalog.Proofs.Extraction

/-! What becomes of a site: which of the five outcomes its name and value call for, and what each
of them does to the state of the run. -/

namespace MessageCatalog.Definition
open Script (Node Span)

namespace Site
variable (env : Surroundings) (site : Site)

def oldName : String := env.settings.oldName site.name

def key : String := String.ofList (Name.unscoped (site.oldName env).toList)

def isUnnamed : Bool := Name.isUnnamed (site.key env).toList

def call? : Option Node := (site.value.map Node.unparenthesized).filter Node.isCall

def hasCall : Bool := site.call?.isSome

def namesMessage : Bool :=
  Name.isMessage (site.oldName env).toList site.hasCall env.settings.style

def draft : Draft where
  key := if site.isUnnamed env then none else some (site.key env)
  sourceName := env.sourceNameAt site.span

def withoutCall (pending : List CallSite) : List CallSite :=
  match site.call? with
  | some call => pending.filter (· ≠ ⟨env.file, call.span⟩)
  | none => pending

def HasValue (value : Node) : Prop :=
  site.namesMessage env ∧ site.value = some value ∧ ¬ isAlias env.settings value

end Site

variable {env : Surroundings} {site : Site}

/-- What a site calls for, told by its name, its value, the style and the reading of the value. -/
def Verdict (env : Surroundings) (site : Site) : Outcome → Prop
  | .ignored =>
    ¬ site.namesMessage env ∨ ∃ value, site.value = some value ∧ isAlias env.settings value
  | .noValue => site.namesMessage env ∧ site.value = none
  | .refused => ∃ value, site.HasValue env value ∧ env.settings.style.isStrict ∧ ¬ site.hasCall
  | .malformed m =>
    ∃ value, site.HasValue env value ∧ (env.settings.style.isStrict → site.hasCall) ∧
      draftOf env site (site.draft env) value = .error m
  | .defined message =>
    ∃ value, site.HasValue env value ∧ (env.settings.style.isStrict → site.hasCall) ∧
      ∃ d, draftOf env site (site.draft env) value = .ok d ∧
        d.build env.settings.strategy = message

theorem isCall_candidateOf (env : Surroundings) (site : Site) :
    (candidateOf env site).isCall = site.hasCall := by
  cases hvalue : site.value with
  | none => simp [candidateOf, Site.hasCall, Site.call?, hvalue]
  | some value =>
    cases hcall : value.unparenthesized.isCall <;>
      simp [candidateOf, Site.hasCall, Site.call?, hvalue, hcall, Option.filter]

theorem outcome_candidateOf (env : Surroundings) (site : Site) :
    (candidateOf env site).outcome =
      if site.namesMessage env then
        match site.value with
        | none => .noValue
        | some value =>
          if isAlias env.settings value then .ignored
          else if env.settings.style.isStrict ∧ ¬ site.hasCall then .refused
          else
            match draftOf env site (site.draft env) value with
            | .error m => .malformed m
            | .ok d => .defined (d.build env.settings.strategy)
      else .ignored := by
  change outcomeOf env site (site.oldName env) (site.key env) (candidateOf env site).isCall = _
  rw [isCall_candidateOf, outcomeOf]
  by_cases hname : site.namesMessage env
  · rw [if_pos hname, if_neg (by simpa [Site.namesMessage] using hname)]
    cases site.value with
    | none => rfl
    | some value =>
      have hrefused : (!site.hasCall && env.settings.style.isStrict) ↔
          env.settings.style.isStrict ∧ ¬ site.hasCall := by simp [and_comm]
      simp only [hrefused]
      rfl
  · rw [if_neg hname, if_pos (by simpa [Site.namesMessage] using hname)]

theorem verdict_outcome (env : Surroundings) (site : Site) :
    Verdict env site (candidateOf env site).outcome := by
  rw [outcome_candidateOf]
  split
  · next hname =>
    split
    · next hvalue => exact ⟨hname, hvalue⟩
    · next value hvalue =>
      split_ifs with halias hstrict
      · exact .inr ⟨value, hvalue, halias⟩
      · exact ⟨value, ⟨hname, hvalue, halias⟩, hstrict⟩
      · have hallowed : env.settings.style.isStrict → site.hasCall := by simpa using hstrict
        split
        · next m hm => exact ⟨value, ⟨hname, hvalue, halias⟩, hallowed, hm⟩
        · next d hd => exact ⟨value, ⟨hname, hvalue, halias⟩, hallowed, d, hd, rfl⟩
  · next hname => exact .inl hname

theorem Verdict.outcome_eq {o : Outcome} (h : Verdict env site o) :
    (candidateOf env site).outcome = o := by
  rw [outcome_candidateOf]
  cases o with
  | ignored =>
    rcases h with hname | ⟨value, hvalue, halias⟩
    · rw [if_neg hname]
    · simp [hvalue, halias]
  | noValue =>
    obtain ⟨hname, hvalue⟩ := h
    simp [hname, hvalue]
  | refused =>
    obtain ⟨value, ⟨hname, hvalue, halias⟩, hstrict⟩ := h
    simp [hname, hvalue, halias, hstrict]
  | malformed m =>
    obtain ⟨value, ⟨hname, hvalue, halias⟩, hallowed, hm⟩ := h
    simpa [hname, hvalue, halias, hm] using hallowed
  | defined message =>
    obtain ⟨value, ⟨hname, hvalue, halias⟩, hallowed, d, hd, hmessage⟩ := h
    simpa [hname, hvalue, halias, hd, hmessage] using hallowed

def reportIf (p : Prop) [Decidable p] (i : Issue) : List Event := if p then [.issue i] else []

def lacksDesc (m : Metadata) : Bool := (m.desc.getD "").toList.all Text.isBlank

/-- The message is in one table at most: under its key if it is named, or else under the binding
that the name as written resolves to. All other entries are as before. -/
def Stored (env : Surroundings) (site : Site) (scopes : Scopes) (value : Node) (message : Message)
    (before after : Registry) : Prop :=
  (∀ key, after.named.find? key =
    if ¬ site.isUnnamed env ∧ key = site.key env then some ⟨message, env.locationAt value.span⟩
    else before.named.find? key) ∧
  ∀ binding, after.unnamed.find? binding =
    if site.isUnnamed env ∧ scopes.resolve site.name = some binding then some message
    else before.unnamed.find? binding

def legacyReport (env : Surroundings) (site : Site) : List Event :=
  reportIf (env.settings.style = .relax ∧ ¬ site.hasCall)
    (.legacyValue (env.contextAt site.span) (site.oldName env) .warning)

def duplicateReport (env : Surroundings) (site : Site) (registry : Registry) (value : Node)
    (message : Message) : List Event :=
  (registry.named.find? (site.key env)).toList.flatMap fun earlier =>
    reportIf (¬ site.isUnnamed env ∧ ¬ message.isExternal)
      (.duplicateKey (env.contextAt value.span) (site.key env) earlier.location)

def definitionEvents (env : Surroundings) (site : Site) (registry : Registry) (value : Node)
    (message : Message) : List Event :=
  legacyReport env site ++ duplicateReport env site registry value message ++
    reportIf (message.parts = []) (.emptyText (env.contextAt site.span) (site.key env)) ++
    reportIf (site.hasCall ∧ ¬ message.isExternal ∧ lacksDesc message.metadata)
      (.noDescription (env.contextAt site.span) (site.key env) env.settings.style.checkLevel) ++
    [.message message site.kind value.span (env.locationAt value.span)]

def Effect (env : Surroundings) (site : Site) (before after : State) : Outcome → Prop
  | .ignored => after = before
  | .noValue =>
    after = { before with
      events := before.events ++ [.issue (.noValue (env.contextAt site.span) (site.oldName env))] }
  | .refused =>
    after = { before with
      events := before.events ++
        [.issue (.legacyValue (env.contextAt site.span) (site.oldName env) .error)] }
  | .malformed m =>
    after = { before with
      pending := site.withoutCall env before.pending
      events := before.events ++
        (legacyReport env site ++ [.issue (.malformed (env.contextAt m.span) m.fault.reason)]) }
  | .defined message =>
    ∃ value registry, site.value = some value ∧
      message.key = (if site.isUnnamed env then none else some (site.key env)) ∧
      message.sourceName = env.sourceNameAt site.span ∧
      Stored env site before.scopes value message before.registry registry ∧
      after = { before with
        registry := registry
        pending := site.withoutCall env before.pending
        events := before.events ++ definitionEvents env site before.registry value message }

theorem isDescribed_eq (m : Message) : m.isDescribed = !lacksDesc m.metadata := by
  have hblank : ∀ cs, (Text.dropBlank cs).isEmpty = cs.all Text.isBlank := by
    intro cs
    induction cs with
    | nil => rfl
    | cons c r ih => cases hc : Text.isBlank c <;> simp [Text.dropBlank, hc, ih]
  unfold Message.isDescribed lacksDesc
  cases m.metadata.desc <;> simp [hblank]

theorem takeCall_candidateOf (env : Surroundings) (site : Site) (pending : List CallSite) :
    takeCall env (candidateOf env site) pending =
      if (candidateOf env site).isConsidered then site.withoutCall env pending else pending := by
  have hsite : (candidateOf env site).site = site := rfl
  unfold takeCall Site.withoutCall
  rw [isCall_candidateOf, hsite]
  cases hvalue : site.value with
  | none => simp [Site.call?, hvalue]
  | some value =>
    cases hcall : value.unparenthesized.isCall <;>
      simp [Site.hasCall, Site.call?, hvalue, hcall, Option.filter]

theorem legacyIssues_of_allowed (hconsidered : (candidateOf env site).isConsidered)
    (hallowed : env.settings.style.isStrict → site.hasCall) :
    (legacyIssues env (candidateOf env site)).map .issue = legacyReport env site := by
  have hsite : (candidateOf env site).site = site := rfl
  have hname : (candidateOf env site).name = site.oldName env := rfl
  unfold legacyIssues legacyReport reportIf
  rw [isCall_candidateOf, hsite, hname]
  cases hstyle : env.settings.style <;> cases hcall : site.hasCall <;>
    simp_all [Style.isStrict, Style.checkLevel]

theorem Site.draft_extends {value : Node} {d : Draft}
    (h : draftOf env site (site.draft env) value = .ok d) :
    d.key = (if site.isUnnamed env then none else some (site.key env)) ∧
      d.sourceName = env.sourceNameAt site.span ∧ Part.Tidy d.parts := by
  have hextends := draftOf_extends h
  refine ⟨?_, ?_, hextends.tidy .nil⟩
  · rw [hextends.key, Site.draft]
  · rw [hextends.sourceName, Site.draft]

theorem register_stored (env : Surroundings) (site : Site) (scopes : Scopes) (registry : Registry)
    (value : Node) (message : Message) :
    Stored env site scopes value message registry
      (register env scopes registry (candidateOf env site) value message) := by
  have hunnamed : (candidateOf env site).isUnnamed = site.isUnnamed env := rfl
  have hkey : (candidateOf env site).key = site.key env := rfl
  have hsite : (candidateOf env site).site = site := rfl
  unfold register Stored
  rw [hunnamed, hkey, hsite]
  by_cases h : site.isUnnamed env
  · rw [if_pos h]
    cases hresolve : scopes.resolve site.name with
    | none => simp [h]
    | some binding => simp [h, Registry.addUnnamed, Table.find?_insert]
  · rw [if_neg h]
    simp [h, Registry.addNamed, Table.find?_insert, eq_comm]

theorem messageIssues_eq (env : Surroundings) (site : Site) (registry : Registry) (value : Node)
    {message : Message} (htidy : Part.Tidy message.parts) :
    (messageIssues env registry (candidateOf env site) value message).map .issue =
      duplicateReport env site registry value message ++
        reportIf (message.parts = []) (.emptyText (env.contextAt site.span) (site.key env)) ++
        reportIf (site.hasCall ∧ ¬ message.isExternal ∧ lacksDesc message.metadata)
          (.noDescription (env.contextAt site.span) (site.key env)
            env.settings.style.checkLevel) := by
  have hunnamed : (candidateOf env site).isUnnamed = site.isUnnamed env := rfl
  have hkey : (candidateOf env site).key = site.key env := rfl
  have hsite : (candidateOf env site).site = site := rfl
  have hempty : message.isEmpty = decide (message.parts = []) := by
    rw [Bool.eq_iff_iff, decide_eq_true_iff]
    exact Message.isEmpty_iff htidy
  unfold messageIssues
  rw [isCall_candidateOf, hunnamed, hkey, hsite, hempty, isDescribed_eq]
  rw [List.map_append, List.map_append]
  refine congrArg₂ (· ++ ·) (congrArg₂ (· ++ ·) ?_ ?_) ?_
  · unfold duplicateReport reportIf Registry.locationOf?
    cases registry.named.find? (site.key env) with
    | none => rfl
    | some earlier => cases site.isUnnamed env <;> cases message.isExternal <;> simp
  · unfold reportIf
    split_ifs <;> simp_all
  · unfold reportIf
    split_ifs <;> simp_all

theorem checkSite_effect (env : Surroundings) (site : Site) (state : State) :
    Effect env site state (checkSite env site state) (candidateOf env site).outcome := by
  have hsite : (candidateOf env site).site = site := rfl
  have hname : (candidateOf env site).name = site.oldName env := rfl
  have hverdict := verdict_outcome env site
  simp only [checkSite, takeCall_candidateOf]
  cases ho : (candidateOf env site).outcome with
  | ignored =>
    simp [Effect, Candidate.isConsidered, legacyIssues, outcomeEvents, ho]
  | noValue =>
    simp [Effect, Candidate.isConsidered, legacyIssues, outcomeEvents, ho, hsite, hname]
  | refused =>
    rw [ho] at hverdict
    obtain ⟨value, -, hstrict, hcall⟩ := hverdict
    have hstyle : env.settings.style = .closure := by
      cases hs : env.settings.style <;> simp [hs, Style.isStrict] at hstrict ⊢
    -- A value that is refused is no call, so that no pending call goes with it.
    have hnone : site.call? = none := by simpa [Site.hasCall] using hcall
    simp [Effect, Candidate.isConsidered, legacyIssues, outcomeEvents, ho, hsite, hname,
      isCall_candidateOf, hcall, hstyle, hnone, Site.withoutCall, Style.checkLevel, Style.isStrict]
  | malformed m =>
    rw [ho] at hverdict
    obtain ⟨value, hvalue, hallowed, -⟩ := hverdict
    have hconsidered : (candidateOf env site).isConsidered := by simp [Candidate.isConsidered, ho]
    rw [if_pos hconsidered, legacyIssues_of_allowed hconsidered hallowed]
    simp [Effect, outcomeEvents, ho]
  | defined message =>
    rw [ho] at hverdict
    obtain ⟨value, hvalue, hallowed, d, hd, rfl⟩ := hverdict
    obtain ⟨hkey, hsource, htidy⟩ := Site.draft_extends hd
    have hconsidered : (candidateOf env site).isConsidered := by simp [Candidate.isConsidered, ho]
    rw [if_pos hconsidered, legacyIssues_of_allowed hconsidered hallowed]
    refine ⟨value, _, hvalue.2.1, hkey, hsource, register_stored env site state.scopes _ _ _, ?_⟩
    simp only [outcomeEvents, ho, hsite, hvalue.2.1, definitionEvents]
    rw [messageIssues_eq env site _ _ htidy]
    simp

theorem checkSite_outcome (env : Surroundings) (site : Site) (state : State) :
    ∃ o, Verdict env site o ∧ (∀ o', Verdict env site o' → o' = o) ∧
      Effect env site state (checkSite env site state) o :=
  ⟨_, verdict_outcome env site, fun _ h => h.outcome_eq.symm, checkSite_effect env site state⟩

end MessageCatalog.Definition
