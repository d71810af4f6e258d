import MessageCatalog.Proofs.Hoisting
import MessageCatalog.Proofs.Inputs
import MessageCatalog.Proofs.TidyStatements

/-! Hoisting agrees with the walk in every file that can be parsed, so that no message of a `var`
declaration goes without a binding. -/

namespace MessageCatalog

namespace Scopes

variable {s : Scopes} {name : String}

theorem inner_declareAll (hinner : s.inner = []) (names : List String) :
    (s.declareAll names).inner = [] := by
  induction names generalizing s with
  | nil => exact hinner
  | cons name names ih =>
    apply ih
    unfold declare
    split_ifs
    · exact hinner
    · rw [setInnermost, hinner]

theorem resolve_isSome {i : Nat} {scope : Table String Binding}
    (hscope : s.openScopes[i]? = some scope) (hname : scope.contains name) :
    (s.resolve name).isSome := by
  rw [resolve, List.findSome?_isSome_iff]
  exact ⟨scope, List.mem_of_getElem? hscope, hname⟩

end Scopes

namespace Source

theorem isTidy_of_parse {path code : String} {s : Source} (h : parse path code = .ok s) :
    s.program.IsTidy := by
  unfold parse at h
  dsimp only at h
  split at h
  · next hparse =>
    cases h
    exact Script.isTidy_of_parse hparse
  · cases h

end Source

theorem Compilation.MadeFrom.isTidy {c : Compilation} {es ss : List Loaded}
    (h : c.MadeFrom es ss) {s : Source} (hs : s ∈ c.sources) : s.program.IsTidy := by
  obtain ⟨path, code, hparse⟩ := h.exists_parse hs
  exact Source.isTidy_of_parse hparse

namespace Definition
open Script (Node Span Program)
open Script.Node (hoistedNamesOfAll)

theorem visitsFrom_append (settings : Settings) (file : Nat) (sources rest : List Source) :
    visitsFrom settings file (sources ++ rest) =
      visitsFrom settings file sources ++ visitsFrom settings (file + sources.length) rest := by
  induction sources generalizing file with
  | nil => rfl
  | cons s sources ih =>
    rw [List.cons_append, visitsFrom, visitsFrom, ih, List.append_assoc, List.length_cons,
      Nat.add_right_comm, Nat.add_assoc]

theorem momentsFrom_append (state : State) (vs ws : List Visit) :
    momentsFrom state (vs ++ ws) = momentsFrom state vs ++ momentsFrom (visitAll vs state) ws := by
  induction vs generalizing state with
  | nil => rfl
  | cons v vs ih =>
    rw [List.cons_append, momentsFrom, ih]
    rfl

variable {c : Compilation} {sources rest : List Source} {s : Source}

structure Moment.IsAt (t : Moment) (earlier : List Moment) (settings : Settings)
    (sources : List Source) (s : Source) (pre : List Act) (step : Step) : Prop where
  visit : t.visit = (Surroundings.mk settings sources.length s, step)
  earlier : earlier.map Moment.visit = visitsFrom settings 0 sources ++
    (pre.filterMap Act.step?).map (Surroundings.mk settings sources.length s, ·)

theorem exists_isAt (settings : Settings) (hc : c.sources = sources ++ s :: rest)
    {pre post : List Act} {act : Act} {step : Step}
    (hsplit : actsOf s.program = pre ++ act :: post) (hstep : act.step? = some step) :
    ∃ earlier t later, moments settings c = earlier ++ t :: later ∧
      t.IsAt earlier settings sources s pre step ∧
      t.before.scopes = scopesAfterActs
        (visitAll (visitsFrom settings 0 sources) (startOf c)).scopes pre := by
  let env : Surroundings := ⟨settings, sources.length, s⟩
  let vs := visitsFrom settings 0 sources
  let ws : List Visit := (pre.filterMap Act.step?).map (env, ·)
  let us : List Visit := (post.filterMap Act.step?).map (env, ·) ++
    visitsFrom settings (sources.length + 1) rest
  let before := visitAll (vs ++ ws) (startOf c)
  have hsteps : stepsOf s.program =
      pre.filterMap Act.step? ++ step :: post.filterMap Act.step? := by
    rw [← step?_actsOf, hsplit, List.filterMap_append, List.filterMap_cons_some hstep]
  have hvisits : visits settings c = (vs ++ ws) ++ (env, step) :: us := by
    rw [visits, hc, visitsFrom_append, visitsFrom, hsteps, Nat.zero_add, List.map_append,
      List.map_cons, List.append_assoc, List.append_assoc]
    rfl
  refine ⟨momentsFrom (startOf c) (vs ++ ws), ⟨env, step, before⟩,
    momentsFrom (perform env before step) us, ?_, ⟨rfl, map_visit_momentsFrom _ _⟩, ?_⟩
  · rw [moments, hvisits, momentsFrom_append]
    rfl
  · have hmap : ws.map Prod.snd = pre.filterMap Act.step? := by
      rw [List.map_map]
      exact List.map_id _
    show (visitAll (vs ++ ws) (startOf c)).scopes = _
    rw [visitAll_append, scopes_visitAll, hmap]
    rfl

theorem declares_at_start (settings : Settings) (hc : c.sources = sources ++ s :: rest) :
    Declares [] (visitAll (visitsFrom settings 0 sources) (startOf c)).scopes
      (if s.program.isModule then [] else hoistedNamesOfAll s.program.items) := by
  let start := Scopes.empty.declareAll (globalNames c)
  have hinner : start.inner = [] := Scopes.inner_declareAll rfl _
  have hopen : (visitAll (visitsFrom settings 0 sources) (startOf c)).scopes.openScopes =
      [start.innermost] := by
    rw [(restored_visitsFrom settings 0 sources (startOf c)).openScopes]
    show start.inner ++ [start.global] = [start.innermost]
    rw [Scopes.innermost, hinner]
    rfl
  refine ⟨start.innermost, by rw [hopen]; rfl, ?_⟩
  intro name hname
  split_ifs at hname with hmodule
  · cases hname
  · -- A module has a scope of its own; a script declares its names with the externs.
    have hs : s ∈ c.sources.filter (!·.program.isModule) := by
      rw [hc]
      simp [hmodule]
    have htop : name ∈ s.program.topNames := by
      rw [Program.topNames, if_neg hmodule]
      exact List.mem_append_left _ hname
    have hglobal : name ∈ globalNames c :=
      List.mem_append_right _ (List.mem_flatMap.2 ⟨s, hs, htop⟩)
    exact (Scopes.contains_declareAll _ _ _).2 (.inr hglobal)

structure Moment.Binds (t : Moment) (pre : List Act) (site : Site) : Prop where
  declares : Declares (pre.foldl kindsAfter []) t.before.scopes [site.name]
  resolves : (t.before.scopes.resolve site.name).isSome
  holds : ∀ f ∈ forwardedAt t.visit, f.isUnnamed → ∃ binding,
    t.before.scopes.resolve site.name = some binding ∧
      t.after.registry.unnamed? binding = some f.message

theorem binds_of_declares {t : Moment} {env : Surroundings} {site : Site} {pre : List Act}
    (hvisit : t.visit = (env, .site site))
    (hdeclares : Declares (pre.foldl kindsAfter []) t.before.scopes [site.name]) :
    t.Binds pre site := by
  obtain ⟨scope, hscope, hcontains⟩ := hdeclares
  have hname := hcontains site.name (List.mem_singleton_self _)
  have hresolve := Scopes.resolve_isSome hscope hname
  refine ⟨⟨scope, hscope, hcontains⟩, hresolve, ?_⟩
  intro f hf hunnamed
  obtain ⟨binding, hbinding⟩ := Option.isSome_iff_exists.1 hresolve
  have hafter : t.after.scopes = t.before.scopes := by
    have hstep : t.step = .site site := congrArg Prod.snd hvisit
    rw [Moment.after, hstep]
    rfl
  have hsite : Step.site site = .site f.site :=
    congrArg Prod.snd (hvisit.symm.trans (mem_forwardedAt hf).1)
  cases hsite
  exact ⟨binding, hbinding, (isHeld_after hf).unnamed hunnamed binding (by rw [hafter, hbinding])⟩

theorem exists_binds_of_var (settings : Settings) (hc : c.sources = sources ++ s :: rest)
    (htidy : s.program.IsTidy) {pre post : List Act} {site : Site}
    (hsplit : actsOf s.program = pre ++ .declared .var site :: post) :
    ∃ earlier t later, moments settings c = earlier ++ t :: later ∧
      t.IsAt earlier settings sources s pre (.site site) ∧ t.Binds pre site := by
  obtain ⟨earlier, t, later, hmoments, hat, hscopes⟩ :=
    exists_isAt settings hc hsplit rfl
  have hdeclares := (level_of_isTidy htidy).declares (declares_at_start settings hc) hsplit
  rw [← hscopes] at hdeclares
  exact ⟨earlier, t, later, hmoments, hat, binds_of_declares hat.visit hdeclares⟩

structure HoistsNames (p : Program) : Prop where
  steps : (actsOf p).filterMap Act.step? = stepsOf p
  body : ∀ (pre : List Act) (before : List String) (statements : List Node) (after : List String)
    (post : List Act), actsOf p = pre ++ .body before statements after :: post →
      namesUntilExit [] post = hoistedNamesOfAll statements
  function : ∀ n ∈ p.subnodes, ∀ (before : List String) (statements : List Node)
    (after : List String), bodyOf? n = some (before, statements, after) →
      ∀ q : Progress, ∃ inner : List Act,
        tour n q = q.emit (.body before statements after :: (inner ++ [.exit])) ∧
          namesUntilExit [] (inner ++ [.exit]) = hoistedNamesOfAll statements
  module : p.isModule → ∃ post : List Act,
    actsOf p = .body (p.items.flatMap Node.itemNames) p.items [] :: post ∧
      Node.moduleNames p.items = p.items.flatMap Node.itemNames ++ namesUntilExit [] post
  script : ¬ p.isModule → namesUntilExit [] (actsOf p) = hoistedNamesOfAll p.items

theorem hoistsNames_of_isTidy {p : Program} (h : p.IsTidy) : HoistsNames p where
  steps := step?_actsOf p
  body _ _ _ _ _ hsplit := namesUntilExit_of_body (level_of_isTidy h) hsplit
  function n hn before statements after hbody q := by
    obtain ⟨item, hitem, hsub⟩ := List.mem_flatMap.1 hn
    have hnode : n.IsTidy := fun m hm => h item hitem m (Node.mem_subnodes_trans hm hsub)
    obtain ⟨inner, vars, htour, hinner, hagrees⟩ := level_body hnode hbody q
    refine ⟨inner, htour, ?_⟩
    rw [hinner.namesUntilExit_exit, hagrees]
  module hmodule := by
    have hacts : actsOf p = [] ++ .body (p.items.flatMap Node.itemNames) p.items [] :: _ :=
      if_pos hmodule
    refine ⟨_, hacts, ?_⟩
    rw [namesUntilExit_of_body (level_of_isTidy h) hacts]
    rfl
  script hscript := by
    have hlevel := level_of_isTidy h
    rw [if_neg hscript] at hlevel
    simpa [namesUntilExit] using hlevel.namesUntilExit_append [] []

/-- In every file of a compilation whose program is tidy, as all are that are read from texts, the
names that are collected for a body are those of the `var` declarations that the visit meets in it;
and where a declarator of one is a site, its name is bound, so that no unnamed message of a `var`
declaration is lost. -/
theorem hoisting_run (settings : Settings) (c : Compilation) :
    (∀ es ss, c.MadeFrom es ss → ∀ s ∈ c.sources, s.program.IsTidy) ∧
    ∀ (sources : List Source) (s : Source) (rest : List Source),
      c.sources = sources ++ s :: rest → s.program.IsTidy →
        HoistsNames s.program ∧
        ∀ (pre : List Act) (site : Site) (post : List Act),
          actsOf s.program = pre ++ .declared .var site :: post →
          ∃ (earlier : List Moment) (t : Moment) (later : List Moment),
            moments settings c = earlier ++ t :: later ∧
            t.IsAt earlier settings sources s pre (.site site) ∧ t.Binds pre site :=
  ⟨fun _ _ h _ hs => h.isTidy hs, fun _ _ _ hc htidy =>
    ⟨hoistsNames_of_isTidy htidy, fun _ _ _ hsplit => exists_binds_of_var settings hc htidy hsplit⟩⟩

end Definition

end MessageCatalog
