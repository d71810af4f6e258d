import MessageCatalog.Proofs.Bindings
import MessageCatalog.Proofs.Tour

/-! What a traversal does to the scopes: it leaves each scope that it enters, and the others are
then as they were. The bindings of a scope are new when it is entered, and out of reach once it is
left. -/

namespace MessageCatalog

namespace Scopes

theorem innermost_setInnermost (s : Scopes) (scope : Table String Binding) :
    (s.setInnermost scope).innermost = scope := by
  unfold setInnermost innermost
  split
  · next hinner =>
    rw [hinner]
    rfl
  · rfl

theorem innermost_declare {s : Scopes} {name : String} (hnew : ¬ s.innermost.contains name) :
    (s.declare name).innermost = s.innermost.insert name ⟨s.next⟩ := by
  rw [declare, if_neg hnew]
  exact innermost_setInnermost s _

theorem contains_declare (s : Scopes) (name name' : String) :
    (s.declare name).innermost.contains name' ↔ s.innermost.contains name' ∨ name' = name := by
  by_cases hknown : s.innermost.contains name
  · rw [declare_of_contains hknown]
    refine ⟨.inl, ?_⟩
    rintro (h | rfl)
    · exact h
    · exact hknown
  · rw [innermost_declare hknown, Table.contains, Table.find?_insert, Table.contains]
    split_ifs with hname
    · simp [hname]
    · simp [Ne.symm hname]

theorem contains_declareAll (s : Scopes) (names : List String) (name : String) :
    (s.declareAll names).innermost.contains name ↔
      s.innermost.contains name ∨ name ∈ names := by
  induction names generalizing s with
  | nil => simp [declareAll]
  | cons name' names ih =>
    show ((s.declare name').declareAll names).innermost.contains name ↔ _
    rw [ih, contains_declare, List.mem_cons, or_assoc]

structure Opened (names : List String) (s s' : Scopes) : Prop where
  inner : s'.inner = s'.innermost :: s.inner
  global : s'.global = s.global
  next : s.next ≤ s'.next
  declares : ∀ name, s'.innermost.contains name ↔ name ∈ names
  fresh : ∀ name binding, s'.innermost.find? name = some binding →
    s.next ≤ binding.index ∧ binding.index < s'.next
  distinct : ∀ name name' binding, s'.innermost.find? name = some binding →
    s'.innermost.find? name' = some binding → name = name'

variable {names : List String} {s s' : Scopes} {binding : Binding}

theorem Opened.enter (s : Scopes) : Opened [] s s.enter where
  inner := rfl
  global := rfl
  next := Nat.le_refl _
  declares name := by simp [Scopes.enter, innermost, Table.contains]
  fresh name binding h := by cases h
  distinct name name' binding h := by cases h

theorem inner_declare {scope : Table String Binding} {rest : List (Table String Binding)}
    (hinner : s.inner = scope :: rest) {name : String} (hnew : ¬ s.innermost.contains name) :
    (s.declare name).inner = (s.declare name).innermost :: rest ∧
      (s.declare name).global = s.global := by
  rw [declare, if_neg hnew, setInnermost, hinner]
  exact ⟨rfl, rfl⟩

theorem Opened.declare (h : Opened names s s') (name : String) :
    Opened (names ++ [name]) s (s'.declare name) := by
  have hdeclares : ∀ name',
      (s'.declare name).innermost.contains name' ↔ name' ∈ names ++ [name] := by
    intro name'
    rw [contains_declare, h.declares, List.mem_append, List.mem_singleton]
  by_cases hknown : s'.innermost.contains name
  · -- Declared again, the name keeps its binding.
    rw [declare_of_contains hknown] at hdeclares ⊢
    exact { h with declares := hdeclares }
  · -- The new binding is the next one, which no name has yet.
    obtain ⟨hinner, hglobal⟩ := inner_declare h.inner hknown
    have hfind : ∀ name', (s'.declare name).innermost.find? name' =
        if name = name' then some ⟨s'.next⟩ else s'.innermost.find? name' := by
      intro name'
      rw [innermost_declare hknown, Table.find?_insert]
    have hnext := next_declare hknown
    refine ⟨hinner, hglobal.trans h.global, ?_, hdeclares, ?_, ?_⟩
    · rw [hnext]
      exact Nat.le_succ_of_le h.next
    · intro name' binding hbinding
      rw [hfind] at hbinding
      rw [hnext]
      split_ifs at hbinding with hname
      · cases hbinding
        exact ⟨h.next, Nat.lt_succ_self _⟩
      · obtain ⟨hlower, hupper⟩ := h.fresh name' binding hbinding
        exact ⟨hlower, Nat.lt_succ_of_lt hupper⟩
    · intro name₁ name₂ binding h₁ h₂
      rw [hfind] at h₁ h₂
      split_ifs at h₁ h₂ with hname₁ hname₂ hname₂
      · exact hname₁.symm.trans hname₂
      · cases h₁
        exact absurd (h.fresh name₂ _ h₂).2 (Nat.lt_irrefl _)
      · cases h₂
        exact absurd (h.fresh name₁ _ h₁).2 (Nat.lt_irrefl _)
      · exact h.distinct name₁ name₂ binding h₁ h₂

theorem Opened.declareAll (h : Opened names s s') (names' : List String) :
    Opened (names ++ names') s (s'.declareAll names') := by
  induction names' generalizing names s' with
  | nil => rwa [List.append_nil]
  | cons name names' ih =>
    have hrest := ih (h.declare name)
    rwa [List.append_assoc] at hrest

theorem opened (s : Scopes) (names : List String) :
    Opened names s (s.enter.declareAll names) := (Opened.enter s).declareAll names

theorem Opened.openScopes (h : Opened names s s') :
    s'.openScopes = s'.innermost :: s.openScopes := by
  rw [Scopes.openScopes, h.inner, h.global]
  rfl

structure Restored (s s' : Scopes) : Prop where
  inner : s'.inner = s.inner
  global : s'.global = s.global
  next : s.next ≤ s'.next

theorem Restored.refl (s : Scopes) : s.Restored s := ⟨rfl, rfl, Nat.le_refl _⟩

theorem Restored.trans {s'' : Scopes} (h : s.Restored s') (h' : s'.Restored s'') :
    s.Restored s'' :=
  ⟨h'.inner.trans h.inner, h'.global.trans h.global, h.next.trans h'.next⟩

theorem Restored.openScopes (h : s.Restored s') : s'.openScopes = s.openScopes := by
  rw [Scopes.openScopes, h.inner, h.global]
  rfl

theorem Opened.exit {s'' : Scopes} (h : Opened names s s') (h' : s'.Restored s'') :
    s.Restored s''.exit := by
  refine ⟨?_, h'.global.trans h.global, h.next.trans h'.next⟩
  rw [Scopes.exit, h'.inner, h.inner]
  rfl

theorem Opened.past {log : List String} (hs : s.Named log) (h : Opened names s s') {s'' : Scopes}
    (hexit : s.Restored s'') (hnext : s'.next ≤ s''.next) {name : String}
    (hfind : s'.innermost.find? name = some binding) : Past binding s'' := by
  obtain ⟨hlower, hupper⟩ := h.fresh name binding hfind
  refine ⟨hupper.trans_le hnext, ?_⟩
  rintro ⟨scope, hscope, name', hfind'⟩
  rw [hexit.openScopes] at hscope
  have hlog := hs.bound scope hscope name' binding hfind'
  have hindex := (List.getElem?_eq_some_iff.1 hlog).1
  rw [← hs.next] at hindex
  exact absurd hlower (Nat.not_le_of_lt hindex)

end Scopes

theorem Registry.lookup?_addUnnamed {registry : Registry} {scopes : Scopes} {binding : Binding}
    {reference : String} (h : scopes.resolve reference ≠ some binding) (m : Message) :
    (registry.addUnnamed binding m).lookup? scopes reference =
      registry.lookup? scopes reference := by
  unfold lookup?
  cases fromMark? Name.messageMark reference.toList with
  | none => rfl
  | some key =>
    dsimp only
    split_ifs
    · cases hresolve : scopes.resolve reference with
      | none => rfl
      | some binding' =>
        have hother : binding ≠ binding' := by
          rintro rfl
          exact h hresolve
        show (registry.unnamed.insert binding m).find? binding' = registry.unnamed.find? binding'
        rw [Table.find?_insert, if_neg hother]
    · rfl

namespace Definition
open Script (Node Span Program)

inductive Nested : List Step → Prop where
  | nil : Nested []
  | site (s : Site) : Nested [.site s]
  | call (callee : Node) (arguments : List Node) (span : Span) :
    Nested [.call callee arguments span]
  | scope (names : List String) {steps : List Step} (inner : Nested steps) :
    Nested (.enter names :: (steps ++ [.exit]))
  | append {steps steps' : List Step} (first : Nested steps) (second : Nested steps') :
    Nested (steps ++ steps')

theorem Level.nested {R : List Node → List String → Prop} {acts : List Act}
    {vars : List String} (h : Level R acts vars) : Nested (acts.filterMap Act.step?) := by
  induction h with
  | nil => exact .nil
  | site s => exact .site s
  | call callee arguments span => exact .call callee arguments span
  | declaration kind docs neighbours declarators =>
    rw [step?_declarationActs]
    induction declarators using declaratorSites.induct with
    | case1 => exact .nil
    | case2 text nameSpan value span rest ih => exact .append (.site _) ih
    | case3 declarator rest hother ih =>
      rwa [declaratorSites.eq_3 docs neighbours declarator rest hother]
  | block names inner ih =>
    rw [step?_scope (.block names) rfl]
    exact .scope names ih
  | body before statements after inner names ih =>
    rw [step?_scope (.body before statements after) rfl]
    exact .scope _ ih
  | append first second ih ih' =>
    rw [List.filterMap_append]
    exact .append ih ih'

def scopesAfter (s : Scopes) : Step → Scopes
  | .enter names => s.enter.declareAll names
  | .exit => s.exit
  | _ => s

theorem scopes_visitAll (vs : List Visit) (state : State) :
    (visitAll vs state).scopes = (vs.map Prod.snd).foldl scopesAfter state.scopes := by
  induction vs generalizing state with
  | nil => rfl
  | cons v vs ih =>
    have hstep : (perform v.1 state v.2).scopes = scopesAfter state.scopes v.2 := by
      rw [scopes_perform]
      cases v.2 <;> rfl
    rw [visitAll_cons, ih, hstep]
    rfl

theorem restored_of_nested {steps : List Step} (h : Nested steps) (s : Scopes) :
    s.Restored (steps.foldl scopesAfter s) := by
  induction h generalizing s with
  | nil => exact .refl s
  | site => exact .refl s
  | call => exact .refl s
  | scope names inner ih =>
    have hopened := s.opened names
    rw [List.foldl_cons, List.foldl_append]
    exact hopened.exit (ih (s.enter.declareAll names))
  | append first second ih ih' =>
    rw [List.foldl_append]
    exact (ih s).trans (ih' _)

theorem append_eq_append_cons {α : Type} {as bs pre post : List α} {x : α}
    (h : as ++ bs = pre ++ x :: post) :
    (∃ mid, as = pre ++ x :: mid ∧ post = mid ++ bs) ∨
      ∃ mid, pre = as ++ mid ∧ bs = mid ++ x :: post := by
  rcases List.append_eq_append_iff.1 h with ⟨mid, rfl, hbs⟩ | ⟨mid, has, hpost⟩
  · exact .inr ⟨mid, rfl, hbs⟩
  · cases mid with
    | nil => exact .inr ⟨[], by simpa using has.symm, by simpa using hpost.symm⟩
    | cons y mid =>
      obtain ⟨rfl, rfl⟩ := List.cons.inj hpost
      exact .inl ⟨mid, has, rfl⟩

theorem append_singleton_eq_append_cons {α : Type} {as pre post : List α} {x y : α}
    (h : as ++ [y] = pre ++ x :: post) (hne : x ≠ y) :
    ∃ mid, as = pre ++ x :: mid ∧ post = mid ++ [y] := by
  rcases append_eq_append_cons h with hleft | ⟨mid, -, hmid⟩
  · exact hleft
  · have hmem : x ∈ [y] := hmid ▸ List.mem_append_right mid List.mem_cons_self
    exact absurd (List.mem_singleton.1 hmem) hne

theorem Nested.exists_exit {steps : List Step} (h : Nested steps) {pre post : List Step}
    {names : List String} (hsplit : steps = pre ++ .enter names :: post) :
    ∃ inner rest, post = inner ++ .exit :: rest ∧ Nested inner := by
  induction h generalizing pre post with
  | nil => simp at hsplit
  | site s => simp [List.singleton_eq_append_iff] at hsplit
  | call => simp [List.singleton_eq_append_iff] at hsplit
  | @scope names' steps inner ih =>
    cases pre with
    | nil =>
      obtain ⟨-, rfl⟩ := List.cons.inj hsplit
      exact ⟨steps, [], rfl, inner⟩
    | cons step pre =>
      obtain ⟨-, hrest⟩ := List.cons.inj hsplit
      obtain ⟨mid, hmid, rfl⟩ := append_singleton_eq_append_cons hrest (by simp)
      obtain ⟨inner', rest, rfl, hinner⟩ := ih hmid
      refine ⟨inner', rest ++ [.exit], ?_, hinner⟩
      rw [List.append_assoc, List.cons_append]
  | @append steps steps' first second ih ih' =>
    rcases append_eq_append_cons hsplit with ⟨mid, hmid, rfl⟩ | ⟨mid, -, hmid⟩
    · obtain ⟨inner, rest, rfl, hinner⟩ := ih hmid
      refine ⟨inner, rest ++ steps', ?_, hinner⟩
      rw [List.append_assoc, List.cons_append]
    · exact ih' hmid

theorem Nested.suffix {steps : List Step} (h : Nested steps) {pre post : List Step}
    (hsplit : steps = pre ++ post) (s : Scopes) :
    s.inner <:+ (pre.foldl scopesAfter s).inner := by
  induction h generalizing pre post s with
  | nil =>
    obtain ⟨rfl, -⟩ := List.append_eq_nil_iff.1 hsplit.symm
    exact List.suffix_refl _
  | site | call =>
    rcases List.append_eq_singleton_iff.1 hsplit.symm with ⟨rfl, -⟩ | ⟨rfl, -⟩
    · exact List.suffix_refl _
    · exact List.suffix_refl _
  | @scope names steps inner ih =>
    cases pre with
    | nil => exact List.suffix_refl _
    | cons step pre =>
      obtain ⟨rfl, hrest⟩ := List.cons.inj hsplit
      have hopened := s.opened names
      -- As long as the scope is open, the scopes from before stand behind it.
      have hinside : ∀ {pre post}, steps = pre ++ post →
          s.inner <:+ (pre.foldl scopesAfter (s.enter.declareAll names)).inner := by
        intro pre post hpre
        have hsuffix : s.inner <:+ (s.enter.declareAll names).inner := by
          rw [hopened.inner]
          exact List.suffix_cons _ _
        exact hsuffix.trans (ih hpre _)
      rcases List.append_eq_append_iff.1 hrest with ⟨mid, rfl, hmid⟩ | ⟨mid, hpre, -⟩
      · rcases List.append_eq_singleton_iff.1 hmid.symm with ⟨rfl, -⟩ | ⟨rfl, -⟩
        · rw [List.append_nil]
          exact hinside (List.append_nil steps).symm
        · have hrestored := restored_of_nested (.scope names inner) s
          rw [List.foldl_cons, List.foldl_append] at hrestored ⊢
          rw [hrestored.inner]
      · exact hinside hpre
  | append first second ih ih' =>
    rcases List.append_eq_append_iff.1 hsplit with ⟨mid, rfl, hmid⟩ | ⟨mid, hpre, -⟩
    · rw [List.foldl_append, ← (restored_of_nested first s).inner]
      exact ih' hmid _
    · exact ih hpre s

theorem keepsNames_true (n : Node) : KeepsNames (fun _ _ => True) n := by
  cases n <;> exact trivial

/-- A traversal makes the steps of the walk, and forgets nothing of the statement around it. -/
theorem tour_eq_emit (n : Node) (p : Progress) :
    ∃ acts, tour n p = p.emit acts ∧ acts.filterMap Act.step? = walk p.statement n ∧
      Nested (walk p.statement n) := by
  obtain ⟨acts, hacts, hsteps, hlevel⟩ := (traced fun m _ => keepsNames_true m).self (n := n) p
  refine ⟨acts, hacts, hsteps, ?_⟩
  have hnested := hlevel.nested
  rwa [hsteps] at hnested

theorem nested_stepsOf (p : Program) : Nested (stepsOf p) := by
  have hlevel := level_actsOf (p := p) (fun m _ => keepsNames_true m) fun _ => trivial
  rw [← step?_actsOf]
  exact hlevel.nested

theorem map_step_visitsFrom (settings : Settings) (file : Nat) (sources : List Source) :
    (visitsFrom settings file sources).map Prod.snd = sources.flatMap (stepsOf ·.program) := by
  induction sources generalizing file with
  | nil => rfl
  | cons s rest ih =>
    rw [visitsFrom, List.map_append, ih, List.map_map, List.flatMap_cons]
    exact congrArg (· ++ _) (List.map_id _)

theorem nested_visitsFrom (settings : Settings) (file : Nat) (sources : List Source) :
    Nested ((visitsFrom settings file sources).map Prod.snd) := by
  rw [map_step_visitsFrom]
  induction sources with
  | nil => exact .nil
  | cons s rest ih => exact .append (nested_stepsOf s.program) ih

theorem restored_visitsFrom (settings : Settings) (file : Nat) (sources : List Source)
    (state : State) :
    state.scopes.Restored (visitAll (visitsFrom settings file sources) state).scopes := by
  rw [scopes_visitAll]
  exact restored_of_nested (nested_visitsFrom settings file sources) state.scopes

variable {settings : Settings} {c : Compilation} {earlier later : List Moment} {t : Moment}
  {names : List String}

theorem map_step_momentsFrom (state : State) (vs : List Visit) :
    (momentsFrom state vs).map Moment.step = vs.map Prod.snd := by
  conv_rhs => rw [← map_visit_momentsFrom state vs, List.map_map]
  rfl

theorem exists_visits_later (h : moments settings c = earlier ++ t :: later) :
    ∃ us, later = momentsFrom t.after us := by
  obtain ⟨us, hus⟩ := later_of_momentsFrom h
  cases us with
  | nil => cases hus
  | cons v us =>
    obtain ⟨ht, hlater⟩ := List.cons.inj hus
    refine ⟨us, ?_⟩
    rw [hlater, ht]
    rfl

theorem global_scopesAfter (s : Scopes) (step : Step) :
    (scopesAfter s step).global = s.global := by
  cases step with
  | enter names => exact (s.opened names).global
  | _ => rfl

theorem scopesAfter_perform (env : Surroundings) (state : State) (step : Step) :
    (perform env state step).scopes = scopesAfter state.scopes step := by
  rw [scopes_perform]
  cases step <;> rfl

theorem opened_of_enter (hstep : t.step = .enter names) :
    Scopes.Opened names t.before.scopes t.after.scopes := by
  rw [Moment.after, scopesAfter_perform, hstep]
  exact t.before.scopes.opened names

theorem global_moments {t : Moment} (ht : t ∈ moments settings c) :
    t.before.scopes.global = (Scopes.empty.declareAll (globalNames c)).global := by
  refine scopes_momentsFrom (·.global = (Scopes.empty.declareAll (globalNames c)).global)
    ?_ rfl t ht
  intro env state step h
  rw [scopesAfter_perform, global_scopesAfter, h]

theorem next_le_later (h : moments settings c = earlier ++ t :: later) {t' : Moment}
    (ht' : t' ∈ later) : t.after.scopes.next ≤ t'.before.scopes.next := by
  obtain ⟨us, rfl⟩ := exists_visits_later h
  refine scopes_momentsFrom (t.after.scopes.next ≤ ·.next) ?_ (Nat.le_refl _) t' ht'
  intro env state step hle
  exact hle.trans (next_le_perform env state step)

def Apart (scope scope' : Table String Binding) : Prop :=
  ∀ name name' binding, scope.find? name = some binding → scope'.find? name' ≠ some binding

theorem apart_later (h : moments settings c = earlier ++ t :: later) (hstep : t.step = .enter names)
    {t' : Moment} (ht' : t' ∈ later) {names' : List String} (hstep' : t'.step = .enter names') :
    Apart t.after.scopes.innermost t'.after.scopes.innermost := by
  intro name name' binding hfind hfind'
  have hupper := ((opened_of_enter hstep).fresh name binding hfind).2
  have hlower := ((opened_of_enter hstep').fresh name' binding hfind').1
  have hnext := next_le_later h ht'
  exact absurd (hupper.trans_le hnext) (Nat.not_lt_of_le hlower)

theorem apart_global (ht : t ∈ moments settings c) (hstep : t.step = .enter names) :
    Apart t.after.scopes.innermost t.before.scopes.global := by
  intro name name' binding hfind hfind'
  obtain ⟨log, hlog⟩ := exists_names settings c
  obtain ⟨part, -, hnamed⟩ := hlog t ht
  have hlower := ((opened_of_enter hstep).fresh name binding hfind).1
  have hglobal : t.before.scopes.global ∈ t.before.scopes.openScopes :=
    List.mem_append_right _ (List.mem_singleton_self _)
  have hname := hnamed.bound _ hglobal name' binding hfind'
  have hupper := (List.getElem?_eq_some_iff.1 hname).1
  rw [← hnamed.next] at hupper
  exact absurd hupper (Nat.not_lt_of_le hlower)

structure Leaves (t : Moment) (inside : List Moment) (e : Moment) : Prop where
  exit : e.step = .exit
  inside : ∀ v ∈ inside, t.after.scopes.inner <:+ v.before.scopes.inner
  before : t.after.scopes.Restored e.before.scopes
  after : t.before.scopes.Restored e.after.scopes

theorem exists_leaves (h : moments settings c = earlier ++ t :: later)
    (hstep : t.step = .enter names) :
    ∃ inside e after, later = inside ++ e :: after ∧ Leaves t inside e := by
  have hnested : Nested ((moments settings c).map Moment.step) := by
    rw [moments, map_step_momentsFrom]
    exact nested_visitsFrom settings 0 c.sources
  have hsplit : (moments settings c).map Moment.step =
      earlier.map Moment.step ++ .enter names :: later.map Moment.step := by
    rw [h, List.map_append, List.map_cons, hstep]
  obtain ⟨inner, rest, hlater, hinner⟩ := hnested.exists_exit hsplit
  -- Where the steps are split, the moments are split.
  obtain ⟨inside, tail, rfl, rfl, htail⟩ := List.map_eq_append_iff.1 hlater
  obtain ⟨e, after, rfl, hexit, -⟩ := List.map_eq_cons_iff.1 htail
  obtain ⟨us, hus⟩ := exists_visits_later h
  obtain ⟨ws, rfl, hbefore⟩ := before_of_momentsFrom hus.symm
  rw [map_step_momentsFrom] at hinner
  have hrestored : t.after.scopes.Restored e.before.scopes := by
    rw [hbefore, scopes_visitAll]
    exact restored_of_nested hinner _
  refine ⟨_, e, after, rfl, hexit, ?_, hrestored, ?_⟩
  · intro v hv
    obtain ⟨inside₁, inside₂, hinside⟩ := List.append_of_mem hv
    obtain ⟨ws₁, rfl, hv⟩ := before_of_momentsFrom hinside
    have hsteps := congrArg (List.map Moment.step) hinside
    rw [map_step_momentsFrom, List.map_append, map_step_momentsFrom] at hsteps
    rw [hv, scopes_visitAll]
    exact hinner.suffix hsteps _
  · have hafter : e.after.scopes = e.before.scopes.exit := by
      rw [Moment.after, scopesAfter_perform, hexit]
      rfl
    rw [hafter]
    exact (opened_of_enter hstep).exit hrestored

theorem past_of_leaves {inside after : List Moment} {e : Moment}
    (h : moments settings c = earlier ++ t :: (inside ++ e :: after))
    (hstep : t.step = .enter names) (hleaves : Leaves t inside e) {name : String} {binding : Binding}
    (hfind : t.after.scopes.innermost.find? name = some binding) {u : Moment} (hu : u ∈ after) :
    Scopes.Past binding u.before.scopes := by
  have ht : t ∈ moments settings c := by
    rw [h]
    exact List.mem_append_right _ List.mem_cons_self
  obtain ⟨log, hlog⟩ := exists_names settings c
  obtain ⟨part, -, hnamed⟩ := hlog t ht
  have hnext : t.after.scopes.next ≤ e.after.scopes.next :=
    hleaves.before.next.trans (next_le_perform e.env e.before e.step)
  have hpast : Scopes.Past binding e.after.scopes :=
    (opened_of_enter hstep).past hnamed hleaves.after hnext hfind
  have hmoments : moments settings c = (earlier ++ t :: inside) ++ e :: after := by
    rw [h, List.append_assoc, List.cons_append]
  obtain ⟨us, rfl⟩ := exists_visits_later hmoments
  exact scopes_momentsFrom (Scopes.Past binding) (fun env state step h => past_perform h env step)
    hpast u hu

/-- Visiting a node changes neither the open scopes nor the statement that is being visited. Each
file begins with the global scope as it was built from the global names. Each scope gives new bindings to
its names, and when it has been left, no reference finds what is held under them. -/
theorem scopes_run (settings : Settings) (c : Compilation) :
    (∀ n p env (state : State), (tour n p).statement = p.statement ∧
      (tour n p).acts.filterMap Act.step? = p.acts.filterMap Act.step? ++ walk p.statement n ∧
      state.scopes.Restored (performAll env (walk p.statement n) state).scopes) ∧
    (∀ p : Program, (actsOf p).filterMap Act.step? = stepsOf p) ∧
    (∀ sources s rest, c.sources = sources ++ s :: rest →
      (Scopes.empty.declareAll (globalNames c)).Restored
        (visitAll (visitsFrom settings 0 sources) (startOf c)).scopes) ∧
    (∀ t ∈ moments settings c,
      t.before.scopes.global = (Scopes.empty.declareAll (globalNames c)).global) ∧
    ∀ earlier t later names, moments settings c = earlier ++ t :: later → t.step = .enter names →
      Scopes.Opened names t.before.scopes t.after.scopes ∧
      Apart t.after.scopes.innermost t.before.scopes.global ∧
      (∀ t' ∈ later, ∀ names', t'.step = .enter names' →
        Apart t.after.scopes.innermost t'.after.scopes.innermost) ∧
      ∃ inside e after, later = inside ++ e :: after ∧ Leaves t inside e ∧
        ∀ name binding, t.after.scopes.innermost.find? name = some binding →
          ∀ u ∈ after, ∀ reference, u.before.scopes.resolve reference ≠ some binding ∧
            ∀ m, (u.before.registry.addUnnamed binding m).lookup? u.before.scopes reference =
              u.before.registry.lookup? u.before.scopes reference := by
  refine ⟨?_, step?_actsOf, ?_, fun t => global_moments, ?_⟩
  · intro n p env state
    obtain ⟨acts, hacts, hsteps, hnested⟩ := tour_eq_emit n p
    rw [hacts]
    refine ⟨rfl, ?_, ?_⟩
    · rw [Progress.emit, List.filterMap_append, hsteps]
    · rw [← visitAll_map, scopes_visitAll, List.map_map]
      have hsnd : (walk p.statement n).map (Prod.snd ∘ (env, ·)) = walk p.statement n :=
        List.map_id _
      rw [hsnd]
      exact restored_of_nested hnested state.scopes
  · intro sources s rest _
    exact restored_visitsFrom settings 0 sources (startOf c)
  · intro earlier t later names hmoments hstep
    have ht : t ∈ moments settings c := by
      rw [hmoments]
      exact List.mem_append_right _ List.mem_cons_self
    refine ⟨opened_of_enter hstep, apart_global ht hstep, ?_, ?_⟩
    · intro t' ht' names' hstep'
      exact apart_later hmoments hstep ht' hstep'
    · obtain ⟨inside, e, after, rfl, hleaves⟩ := exists_leaves hmoments hstep
      refine ⟨inside, e, after, rfl, hleaves, ?_⟩
      intro name binding hfind u hu reference
      have hpast := past_of_leaves hmoments hstep hleaves hfind hu
      have hresolve : u.before.scopes.resolve reference ≠ some binding :=
        fun h => hpast.unbound (Scopes.binds_of_resolve h)
      exact ⟨hresolve, fun m => Registry.lookup?_addUnnamed hresolve m⟩

end Definition

end MessageCatalog
