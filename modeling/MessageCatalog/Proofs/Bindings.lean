import MessageCatalog.Proofs.References

/-! Unnamed messages and the bindings they are held under. A binding belongs to one name and one
scope. It holds the message last defined by a site that wrote the name while it had the binding;
nothing else about the site matters, not even whether it declares the name. -/

namespace MessageCatalog

namespace Scopes

def openScopes (s : Scopes) : List (Table String Binding) := s.inner ++ [s.global]

structure Named (log : List String) (s : Scopes) : Prop where
  next : s.next = log.length
  bound : ∀ scope ∈ s.openScopes, ∀ name binding,
    scope.find? name = some binding → log[binding.index]? = some name

def Binds (s : Scopes) (binding : Binding) : Prop :=
  ∃ scope ∈ s.openScopes, ∃ name, scope.find? name = some binding

/-- The binding has been handed out, and the scope that had it has been left. -/
structure Past (binding : Binding) (s : Scopes) : Prop where
  known : binding.index < s.next
  unbound : ¬ s.Binds binding

variable {log : List String} {binding : Binding} {s : Scopes} {scope scope' : Table String Binding}

theorem getElem?_of_prefix {log' : List String} (h : log <+: log') {i : Nat} {name : String}
    (hi : log[i]? = some name) : log'[i]? = some name := by
  obtain ⟨rest, rfl⟩ := h
  rw [List.getElem?_append_left (List.getElem?_eq_some_iff.1 hi).1, hi]

theorem mem_openScopes_enter (h : scope ∈ s.enter.openScopes) :
    scope = .empty ∨ scope ∈ s.openScopes := List.mem_cons.1 h

theorem mem_openScopes_exit (h : scope ∈ s.exit.openScopes) : scope ∈ s.openScopes := by
  rcases List.mem_append.1 h with h | h
  · exact List.mem_append_left _ (List.mem_of_mem_tail h)
  · exact List.mem_append_right _ h

theorem innermost_mem_openScopes (s : Scopes) : s.innermost ∈ s.openScopes := by
  unfold innermost openScopes
  cases s.inner with
  | nil => exact List.mem_singleton_self _
  | cons scope rest => exact List.mem_cons_self

theorem mem_openScopes_setInnermost (h : scope ∈ (s.setInnermost scope').openScopes) :
    scope = scope' ∨ scope ∈ s.openScopes := by
  unfold setInnermost at h
  split at h
  · next hinner =>
    rw [openScopes, hinner, List.nil_append, List.mem_singleton] at h
    exact .inl h
  · next hinner =>
    rw [openScopes, hinner]
    rcases List.mem_cons.1 h with h | h
    · exact .inl h
    · exact .inr (List.mem_cons_of_mem _ h)

theorem find?_declare {name name' : String} (hnew : ¬ s.innermost.contains name)
    (hscope : scope ∈ (s.declare name).openScopes) (h : scope.find? name' = some binding) :
    (name = name' ∧ binding = ⟨s.next⟩) ∨
      ∃ old ∈ s.openScopes, old.find? name' = some binding := by
  rw [declare, if_neg hnew] at hscope
  rcases mem_openScopes_setInnermost hscope with rfl | hscope
  · rw [Table.find?_insert] at h
    split_ifs at h with hname
    · exact .inl ⟨hname, (Option.some.inj h).symm⟩
    · exact .inr ⟨_, s.innermost_mem_openScopes, h⟩
  · exact .inr ⟨scope, hscope, h⟩

theorem next_declare {name : String} (hnew : ¬ s.innermost.contains name) :
    (s.declare name).next = s.next + 1 := by rw [declare, if_neg hnew]

theorem declare_of_contains {name : String} (hknown : s.innermost.contains name) :
    s.declare name = s := if_pos hknown

namespace Named

theorem empty : Named [] .empty := by
  refine ⟨rfl, fun scope hscope name binding h => ?_⟩
  obtain rfl := List.mem_singleton.1 hscope
  cases h

theorem enter (h : Named log s) : Named log s.enter := by
  refine ⟨h.next, fun scope hscope name binding hfind => ?_⟩
  rcases mem_openScopes_enter hscope with rfl | hscope
  · cases hfind
  · exact h.bound scope hscope name binding hfind

theorem exit (h : Named log s) : Named log s.exit :=
  ⟨h.next, fun scope hscope => h.bound scope (mem_openScopes_exit hscope)⟩

theorem declare (h : Named log s) (name : String) :
    ∃ log', log <+: log' ∧ Named log' (s.declare name) := by
  by_cases hknown : s.innermost.contains name
  · exact ⟨log, List.prefix_refl log, by rwa [declare_of_contains hknown]⟩
  · have hlog : log <+: log ++ [name] := List.prefix_append _ _
    refine ⟨log ++ [name], hlog, ?_, fun scope hscope name' binding hfind => ?_⟩
    · rw [next_declare hknown, h.next, List.length_append, List.length_singleton]
    · rcases find?_declare hknown hscope hfind with ⟨rfl, rfl⟩ | ⟨old, hold, hfind⟩
      · rw [h.next, List.getElem?_concat_length]
      · exact getElem?_of_prefix hlog (h.bound old hold name' binding hfind)

theorem declareAll (h : Named log s) (names : List String) :
    ∃ log', log <+: log' ∧ Named log' (s.declareAll names) := by
  induction names generalizing log s with
  | nil => exact ⟨log, List.prefix_refl log, h⟩
  | cons name names ih =>
    obtain ⟨log₁, hlog₁, h₁⟩ := h.declare name
    obtain ⟨log₂, hlog₂, h₂⟩ := ih h₁
    exact ⟨log₂, hlog₁.trans hlog₂, h₂⟩

theorem resolve (h : Named log s) {name : String} (hresolve : s.resolve name = some binding) :
    log[binding.index]? = some name := by
  obtain ⟨scope, hscope, hfind⟩ := List.exists_of_findSome?_eq_some hresolve
  exact h.bound scope hscope name binding hfind

end Named

namespace Past

theorem enter (h : Past binding s) : Past binding s.enter := by
  refine ⟨h.known, ?_⟩
  rintro ⟨scope, hscope, name, hfind⟩
  rcases mem_openScopes_enter hscope with rfl | hscope
  · cases hfind
  · exact h.unbound ⟨scope, hscope, name, hfind⟩

theorem exit (h : Past binding s) : Past binding s.exit :=
  ⟨h.known, fun ⟨scope, hscope, hfind⟩ => h.unbound ⟨scope, mem_openScopes_exit hscope, hfind⟩⟩

theorem declare (h : Past binding s) (name : String) : Past binding (s.declare name) := by
  by_cases hknown : s.innermost.contains name
  · rwa [declare_of_contains hknown]
  · refine ⟨by rw [next_declare hknown]; exact Nat.lt_succ_of_lt h.known, ?_⟩
    rintro ⟨scope, hscope, name', hfind⟩
    rcases find?_declare hknown hscope hfind with ⟨-, rfl⟩ | ⟨old, hold, hfind⟩
    · exact Nat.lt_irrefl _ h.known
    · exact h.unbound ⟨old, hold, name', hfind⟩

theorem declareAll (h : Past binding s) (names : List String) :
    Past binding (s.declareAll names) := by
  induction names generalizing s with
  | nil => exact h
  | cons name names ih => exact ih (h.declare name)

end Past

theorem binds_of_resolve {name : String} (h : s.resolve name = some binding) : s.Binds binding := by
  obtain ⟨scope, hscope, hfind⟩ := List.exists_of_findSome?_eq_some h
  exact ⟨scope, hscope, name, hfind⟩

theorem next_le_declareAll (s : Scopes) (names : List String) :
    s.next ≤ (s.declareAll names).next := by
  induction names generalizing s with
  | nil => exact Nat.le_refl _
  | cons name names ih =>
    have hdeclare : s.next ≤ (s.declare name).next := by
      by_cases hknown : s.innermost.contains name
      · rw [declare_of_contains hknown]
      · rw [next_declare hknown]
        exact Nat.le_succ _
    exact hdeclare.trans (ih (s.declare name))

end Scopes

namespace Definition
open Script (Node Span)

theorem scopes_perform (env : Surroundings) (state : State) (step : Step) :
    (perform env state step).scopes =
      match step with
      | .enter names => state.scopes.enter.declareAll names
      | .exit => state.scopes.exit
      | _ => state.scopes := by
  cases step with
  | call callee arguments span =>
    simp only [perform, checkCall]
    split_ifs <;> rfl
  | _ => rfl

theorem named_perform {log : List String} {state : State} (h : state.scopes.Named log)
    (env : Surroundings) (step : Step) :
    ∃ log', log <+: log' ∧ (perform env state step).scopes.Named log' := by
  rw [scopes_perform]
  cases step with
  | enter names => exact h.enter.declareAll names
  | exit => exact ⟨log, List.prefix_refl log, h.exit⟩
  | site => exact ⟨log, List.prefix_refl log, h⟩
  | call => exact ⟨log, List.prefix_refl log, h⟩

theorem past_perform {binding : Binding} {state : State} (h : Scopes.Past binding state.scopes)
    (env : Surroundings) (step : Step) :
    Scopes.Past binding (perform env state step).scopes := by
  rw [scopes_perform]
  cases step with
  | enter names => exact h.enter.declareAll names
  | exit => exact h.exit
  | site => exact h
  | call => exact h

theorem next_le_perform (env : Surroundings) (state : State) (step : Step) :
    state.scopes.next ≤ (perform env state step).scopes.next := by
  rw [scopes_perform]
  cases step with
  | enter names => exact state.scopes.enter.next_le_declareAll names
  | exit => exact Nat.le_refl _
  | site => exact Nat.le_refl _
  | call => exact Nat.le_refl _

theorem scopes_momentsFrom (P : Scopes → Prop)
    (hstep : ∀ env state step, P state.scopes → P (perform env state step).scopes) {state : State}
    {vs : List Visit} (h : P state.scopes) : ∀ t ∈ momentsFrom state vs, P t.before.scopes := by
  induction vs generalizing state with
  | nil =>
    intro t ht
    cases ht
  | cons v vs ih =>
    intro t ht
    rcases List.mem_cons.1 ht with rfl | ht
    · exact h
    · exact ih (hstep v.1 state v.2 h) t ht

theorem exists_log {log : List String} {state : State} (h : state.scopes.Named log)
    (vs : List Visit) :
    ∃ log', log <+: log' ∧ ∀ t ∈ momentsFrom state vs,
      ∃ part, part <+: log' ∧ t.before.scopes.Named part := by
  induction vs generalizing log state with
  | nil => exact ⟨log, List.prefix_refl log, fun t ht => by cases ht⟩
  | cons v vs ih =>
    obtain ⟨log₁, hlog₁, h₁⟩ := named_perform h v.1 v.2
    obtain ⟨log₂, hlog₂, h₂⟩ := ih h₁
    refine ⟨log₂, hlog₁.trans hlog₂, fun t ht => ?_⟩
    rcases List.mem_cons.1 ht with rfl | ht
    · exact ⟨log, hlog₁.trans hlog₂, h⟩
    · exact h₂ t ht

variable {settings : Settings} {c : Compilation}

theorem exists_names (settings : Settings) (c : Compilation) :
    ∃ log : List String, ∀ t ∈ moments settings c,
      ∃ part, part <+: log ∧ t.before.scopes.Named part := by
  obtain ⟨start, -, hstart⟩ := Scopes.Named.empty.declareAll (globalNames c)
  have hscopes : (startOf c).scopes.Named start := hstart
  obtain ⟨log, -, hlog⟩ := exists_log hscopes (visits settings c)
  exact ⟨log, hlog⟩

theorem eq_of_resolve_eq {t t' : Moment} {name name' : String} {binding : Binding}
    (ht : t ∈ moments settings c) (ht' : t' ∈ moments settings c)
    (h : t.before.scopes.resolve name = some binding)
    (h' : t'.before.scopes.resolve name' = some binding) : name = name' := by
  obtain ⟨log, hlog⟩ := exists_names settings c
  have hname : ∀ {t n}, t ∈ moments settings c → t.before.scopes.resolve n = some binding →
      log[binding.index]? = some n := by
    intro t n ht hn
    obtain ⟨part, hpart, hnamed⟩ := hlog t ht
    exact Scopes.getElem?_of_prefix hpart (hnamed.resolve hn)
  exact Option.some.inj ((hname ht h).symm.trans (hname ht' h'))

theorem index_lt_of_resolve {t : Moment} {name : String} {binding : Binding}
    (ht : t ∈ moments settings c) (h : t.before.scopes.resolve name = some binding) :
    binding.index < t.before.scopes.next := by
  obtain ⟨log, hlog⟩ := exists_names settings c
  obtain ⟨part, -, hnamed⟩ := hlog t ht
  rw [hnamed.next]
  exact (List.getElem?_eq_some_iff.1 (hnamed.resolve h)).1

theorem binds_between {past between later : List Moment} {u t : Moment} {name name' : String}
    {binding : Binding} (hmoments : moments settings c = past ++ u :: between ++ t :: later)
    (hu : u.before.scopes.resolve name = some binding)
    (ht : t.before.scopes.resolve name' = some binding) :
    ∀ v ∈ between, v.before.scopes.Binds binding := by
  intro v hv
  by_contra hunbound
  obtain ⟨between₁, between₂, rfl⟩ := List.append_of_mem hv
  have hfromU : moments settings c = past ++ u :: (between₁ ++ v :: between₂ ++ t :: later) := by
    simp [hmoments]
  have hfromV : moments settings c = (past ++ u :: between₁) ++ v :: (between₂ ++ t :: later) := by
    simp [hmoments]
  -- Handed out by the first moment, the binding would be past from `v` on.
  have hknown : binding.index < v.before.scopes.next := by
    have hmem : u ∈ moments settings c := by simp [hfromU]
    obtain ⟨us, hus⟩ := later_of_momentsFrom hfromU
    have hv : v ∈ momentsFrom u.before us := by simp [← hus]
    exact scopes_momentsFrom (binding.index < ·.next)
      (fun env state step h => h.trans_le (next_le_perform env state step))
      (index_lt_of_resolve hmem hu) v hv
  have hpast : Scopes.Past binding t.before.scopes := by
    obtain ⟨us, hus⟩ := later_of_momentsFrom hfromV
    have ht : t ∈ momentsFrom v.before us := by simp [← hus]
    exact scopes_momentsFrom (Scopes.Past binding) (fun env state step h => past_perform h env step)
      ⟨hknown, hunbound⟩ t ht
  exact hpast.unbound (Scopes.binds_of_resolve ht)

def StoresUnder (binding : Binding) (u : Moment) (f : Forwarded) : Prop :=
  f ∈ forwardedAt u.visit ∧ f.isUnnamed ∧ u.before.scopes.resolve f.site.name = some binding

theorem mem_defined_isBound {u : Moment} {d : Defined} {binding : Binding} :
    d ∈ u.defined ∧ d.isBound binding ↔
      StoresUnder binding u d.source ∧ d.binding = some binding := by
  simp only [Moment.defined, List.mem_map, Defined.isBound, Bool.and_eq_true, beq_iff_eq,
    StoresUnder]
  constructor
  · rintro ⟨⟨f, hf, rfl⟩, hunnamed, hbinding⟩
    exact ⟨⟨hf, hunnamed, hbinding⟩, hbinding⟩
  · rintro ⟨⟨hf, hunnamed, hresolve⟩, hbinding⟩
    exact ⟨⟨d.source, hf, by rw [hresolve, ← hbinding]⟩, hunnamed, hbinding⟩

section Runs
variable {earlier later : List Moment} {t : Moment} {binding : Binding} {m : Message}

theorem unnamed?_eq_some_iff (h : moments settings c = earlier ++ t :: later) :
    t.before.registry.unnamed? binding = some m ↔
      ∃ past u between f, earlier = past ++ u :: between ∧ StoresUnder binding u f ∧
        f.message = m ∧ ∀ u' ∈ between, ∀ f', ¬ StoresUnder binding u' f' := by
  rw [Registry.unnamed?, unnamed_moments h, Option.map_eq_some_iff]
  constructor
  · rintro ⟨d, hd, rfl⟩
    obtain ⟨past, u, between, rfl, hdefined, hbetween⟩ := latest_definedIn_eq_some.1 hd
    refine ⟨past, u, between, d.source, rfl, (mem_defined_isBound.1 hdefined).1, rfl, ?_⟩
    intro u' hu' f' hf'
    obtain ⟨hmem, hbound⟩ := (mem_defined_isBound (d := ⟨f', some binding⟩)).2 ⟨hf', rfl⟩
    exact hbetween _ (List.mem_flatMap.2 ⟨u', hu', hmem⟩) hbound
  · rintro ⟨past, u, between, f, rfl, hf, rfl, hbetween⟩
    have hlater : ∀ e ∈ definedIn between, ¬ e.isBound binding := by
      intro e he hbound
      obtain ⟨u', hu', he⟩ := List.mem_flatMap.1 he
      exact hbetween u' hu' _ (mem_defined_isBound.1 ⟨he, hbound⟩).1
    have hdefined := (mem_defined_isBound (d := ⟨f, some binding⟩)).2 ⟨hf, rfl⟩
    exact ⟨_, latest_definedIn_eq_some.2 ⟨past, u, between, rfl, hdefined, hlater⟩, rfl⟩

theorem storesUnder_of_lookup? {reference : String}
    (h : moments settings c = earlier ++ t :: later)
    (hfound : t.before.registry.lookup? t.before.scopes reference = some m)
    (hkey : m.key = none) :
    ∃ binding, t.before.scopes.resolve reference = some binding ∧
      ∃ u ∈ earlier, ∃ f, StoresUnder binding u f ∧ f.message = m := by
  rw [lookup?_before h] at hfound
  obtain ⟨d, hd, rfl, key, -, hkind⟩ := latestFor_cases hfound
  obtain ⟨u, hu, hmem, hbinding⟩ := mem_definedIn.1 hd
  have hunnamed : d.source.isUnnamed := by
    have hsame := (key_of_mem_forwardedAt hmem).1
    by_contra hnamed
    rw [if_neg hnamed] at hsame
    cases hsame.symm.trans hkey
  split_ifs at hkind with hmark
  · obtain ⟨binding, hresolve, hbound⟩ := hkind
    rw [Defined.isBound, Bool.and_eq_true, beq_iff_eq, hbinding] at hbound
    exact ⟨binding, hresolve, u, hu, d.source, ⟨hmem, hunnamed, hbound.2⟩, rfl⟩
  · rw [Defined.isNamed, hunnamed] at hkind
    cases hkind

end Runs

/-- A binding holds an unnamed message just if that is the last one defined by a site that wrote a
name of this binding, and all such sites write the same name. What a reference to an unnamed message
finds was defined under the very name and binding of the reference, in a scope that has been open
ever since. -/
theorem unnamedMessages_run (settings : Settings) (c : Compilation) :
    (∀ t ∈ moments settings c, ∀ t' ∈ moments settings c, ∀ name name' binding,
      t.before.scopes.resolve name = some binding →
        t'.before.scopes.resolve name' = some binding → name = name') ∧
    (∀ earlier t later, moments settings c = earlier ++ t :: later → ∀ binding m,
      t.before.registry.unnamed? binding = some m ↔
        ∃ past u between f, earlier = past ++ u :: between ∧ StoresUnder binding u f ∧
          f.message = m ∧ ∀ u' ∈ between, ∀ f', ¬ StoresUnder binding u' f') ∧
    ∀ earlier t later, moments settings c = earlier ++ t :: later → ∀ reference m,
      t.before.registry.lookup? t.before.scopes reference = some m → m.key = none →
        ∃ binding, t.before.scopes.resolve reference = some binding ∧
          ∃ past u between f, earlier = past ++ u :: between ∧ StoresUnder binding u f ∧
            f.message = m ∧ f.site.name = reference ∧
            ∀ v ∈ between, v.before.scopes.Binds binding := by
  refine ⟨fun t ht t' ht' name name' binding => eq_of_resolve_eq ht ht',
    fun earlier t later hmoments binding m => unnamed?_eq_some_iff hmoments, ?_⟩
  intro earlier t later hmoments reference m hfound hkey
  obtain ⟨binding, hresolve, u, hu, f, hf, hm⟩ := storesUnder_of_lookup? hmoments hfound hkey
  obtain ⟨past, between, rfl⟩ := List.append_of_mem hu
  have hu : u ∈ moments settings c := by simp [hmoments]
  have ht : t ∈ moments settings c := by simp [hmoments]
  have hname : f.site.name = reference := eq_of_resolve_eq hu ht hf.2.2 hresolve
  have hopen := binds_between hmoments hf.2.2 hresolve
  exact ⟨binding, hresolve, past, u, between, f, rfl, hf, hm, hname, hopen⟩

/-- `var MSG_UNNAMED_1 = goog.getMsg('a');` and, on the next line,
`x.MSG_UNNAMED_1 = goog.getMsg('b');`. The property has the name of the variable only. -/
def overwritten : Source where
  path := "a.js"
  text := "var MSG_UNNAMED_1 = goog.getMsg('a');\nx.MSG_UNNAMED_1 = goog.getMsg('b');".toList
  program :=
    let call (start : Nat) (text : String) : Node :=
      .call (.member (.name "goog" ⟨start, start + 4⟩) "getMsg" ⟨start, start + 11⟩)
        [.string (some text) ⟨start + 12, start + 15⟩] ⟨start, start + 16⟩
    let target : Node := .member (.name "x" ⟨38, 39⟩) "MSG_UNNAMED_1" ⟨38, 53⟩
    ⟨false, [.declarations .var
        [.declarator (.name "MSG_UNNAMED_1" ⟨4, 17⟩) (some (call 20 "a")) ⟨4, 36⟩] ⟨0, 37⟩,
      .expressionStatement (.assign "=" target (call 56 "b") ⟨38, 72⟩) ⟨38, 73⟩]⟩
  comments := []

theorem unnamedMessages_run_overwritten :
    ¬ ∀ t ∈ moments {} ⟨[], [overwritten], []⟩, ∀ binding m,
      t.after.registry.unnamed? binding = some m →
        ∃ u ∈ moments {} ⟨[], [overwritten], []⟩, ∃ f ∈ forwardedAt u.visit,
          f.message = m ∧ f.site.kind = .variable := by
  intro h
  have hheld : ((moments {} ⟨[], [overwritten], []⟩).getLast?.bind fun t =>
      (t.after.registry.unnamed? ⟨0⟩).map (·.parts)) = some [.text "b"] := by decide +kernel
  have hvariables : ((moments {} ⟨[], [overwritten], []⟩).flatMap fun u =>
      ((forwardedAt u.visit).filter (·.site.kind = .variable)).map (·.message.parts)) =
      [[.text "a"]] := by decide +kernel
  obtain ⟨t, hlast, hfound⟩ := Option.bind_eq_some_iff.1 hheld
  obtain ⟨m, hm, hparts⟩ := Option.map_eq_some_iff.1 hfound
  obtain ⟨u, hu, f, hf, rfl, hkind⟩ := h t (List.mem_of_getLast? hlast) _ m hm
  have hmem : f.message.parts ∈ [[Part.text "a"]] := by
    rw [← hvariables, List.mem_flatMap]
    exact ⟨u, hu, List.mem_map_of_mem (List.mem_filter.2 ⟨hf, by simp [hkind]⟩)⟩
  rw [hparts] at hmem
  exact absurd hmem (by decide)

end Definition

end MessageCatalog
