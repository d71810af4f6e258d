import MessageCatalog.Proofs.ScopeDiscipline
import MessageCatalog.Proofs.Tidy

/-! The names that are declared for a function before it is visited are those of the `var`
declarations that the visit meets in it. -/

namespace MessageCatalog

namespace Script.Node

theorem hoistedNamesOfAll_eq (ns : List Node) :
    hoistedNamesOfAll ns = ns.flatMap hoistedNames := by
  induction ns with
  | nil => rfl
  | cons n ns ih => rw [hoistedNamesOfAll, ih, List.flatMap_cons]

theorem hoistedNamesOfOption_eq (value : Option Node) :
    hoistedNamesOfOption value = value.toList.flatMap hoistedNames := by
  cases value with
  | none => rfl
  | some n => exact (List.append_nil _).symm

def searchedParts : Node → List Node
  | .declarations .. => []
  | .function .. => []
  | .lambda .. => []
  | n => n.parts

theorem hoistedNames_eq (n : Node) :
    n.hoistedNames = n.searchedParts.flatMap hoistedNames ++ n.ownNames := by
  cases n with
  | declarations kind declarators span => cases kind <;> rfl
  | _ =>
    simp [hoistedNames, searchedParts, parts, ownNames, hoistedNamesOfAll_eq,
      hoistedNamesOfOption_eq]

theorem hoistedNames_eq_visitedNames {n : Node} (h : n.IsTidy) :
    n.hoistedNames = n.visitedNames := by
  induction n using parts_induction with
  | whole n ih =>
    obtain ⟨hparts, hself⟩ := isTidy_iff.1 h
    have hsearched : n.parts.flatMap hoistedNames = n.parts.flatMap visitedNames :=
      List.flatMap_congr fun m hm => ih m hm (hparts m hm)
    rw [hoistedNames_eq]
    cases n with
    | declarations kind declarators span =>
      -- Nothing is looked for in the declarators, and nothing is there.
      have hdeclarators : declarators.flatMap visitedNames = [] := hself
      rw [visitedNames_eq rfl, searchedParts, parts, hdeclarators]
      rfl
    | function | lambda => exact (visitedNames_of_isFunction rfl).symm
    | _ => rw [visitedNames_eq rfl, searchedParts, hsearched] <;> simp

theorem hoistedNamesOfAll_eq_visitedNames {ns : List Node} (h : ∀ n ∈ ns, n.IsTidy) :
    hoistedNamesOfAll ns = ns.flatMap visitedNames := by
  rw [hoistedNamesOfAll_eq]
  exact List.flatMap_congr fun n hn => hoistedNames_eq_visitedNames (h n hn)

end Script.Node

namespace Definition
open Script (Node Span Program VarKind)
open Script.Node (declaredNames hoistedNamesOfAll visitedNames hoistedNamesOfAll_eq_visitedNames
  isTidy_iff)

def Agrees (statements : List Node) (vars : List String) : Prop :=
  hoistedNamesOfAll statements = vars

theorem keepsNames_of_isTidy {n : Node} (h : n.IsTidy) : KeepsNames Agrees n := by
  obtain ⟨hparts, hself⟩ := isTidy_iff.1 h
  cases n with
  | function isArrow parameters body bodySpan span =>
    have hparameters : parameters.flatMap visitedNames = [] := hself
    have hbody : ∀ m ∈ body, m.IsTidy := fun m hm => hparts m (List.mem_append_right _ hm)
    show hoistedNamesOfAll body = parameters.flatMap visitedNames ++ body.flatMap visitedNames
    rw [hparameters, hoistedNamesOfAll_eq_visitedNames hbody, List.nil_append]
  | lambda parameters result span =>
    have hnothing : parameters.flatMap visitedNames ++ result.visitedNames = [] := hself
    exact hnothing.symm
  | _ => exact trivial

theorem traced_of_isTidy {n : Node} (h : n.IsTidy) : Traced Agrees n :=
  traced fun _ hm => keepsNames_of_isTidy fun l hl => h l (Node.mem_subnodes_trans hl hm)

def bodyOf? : Node → Option (List String × List Node × List String)
  | .function _ parameters body _ _ =>
    some (boundParameters parameters, body, Node.lexicalNames body)
  | .lambda parameters _ _ => some (boundParameters parameters, [], [])
  | _ => none

theorem level_body {n : Node} (h : n.IsTidy) {before after : List String}
    {statements : List Node} (hbody : bodyOf? n = some (before, statements, after)) (p : Progress) :
    ∃ inner vars, tour n p = p.emit (.body before statements after :: (inner ++ [.exit])) ∧
      Level Agrees inner vars ∧ Agrees statements vars := by
  have hparts : ∀ m ∈ n.parts, Traced Agrees m := fun m hm => (traced_of_isTidy h).part hm
  have hagrees := keepsNames_of_isTidy h
  let q := p.emit [.body before statements after]
  have hemit : ∀ inner : List Act, (q.emit inner).emit [.exit] =
      p.emit (.body before statements after :: (inner ++ [.exit])) := by
    intro inner
    rw [Progress.emit_emit, Progress.emit_emit]
    rfl
  cases n with
  | function isArrow parameters body bodySpan span =>
    cases hbody
    obtain ⟨hparameters, hstatements⟩ := List.forall_mem_append.1 hparts
    obtain ⟨inner, hinner, -, hlevel⟩ :=
      (traces_all hparameters).comp (traces_statements hstatements none) q
    refine ⟨inner, _, ?_, hlevel, hagrees⟩
    rw [← hemit, ← hinner]
    rfl
  | lambda parameters result span =>
    cases hbody
    obtain ⟨hparameters, hresult⟩ := List.forall_mem_append.1 hparts
    have hself := (hresult result (List.mem_singleton_self result)).self
    obtain ⟨inner, hinner, -, hlevel⟩ := (traces_all hparameters).comp hself q
    refine ⟨inner, _, ?_, hlevel, hagrees⟩
    rw [← hemit, ← hinner]
    rfl
  | _ => cases hbody

theorem level_of_isTidy {p : Program} (h : p.IsTidy) :
    Level Agrees (actsOf p) (if p.isModule then [] else hoistedNamesOfAll p.items) := by
  have hitems := hoistedNamesOfAll_eq_visitedNames h
  have hkeeps : ∀ m ∈ p.subnodes, KeepsNames Agrees m := by
    intro m hm
    obtain ⟨n, hn, hm⟩ := List.mem_flatMap.1 hm
    exact keepsNames_of_isTidy fun l hl => h n hn l (Node.mem_subnodes_trans hl hm)
  rw [hitems]
  exact level_actsOf hkeeps fun _ => hitems

/-- The names of the `var` declarations met up to the end of a scope that are not in a function
inside of it. The list tells for each scope entered since whether it is that of a function. -/
def namesUntilExit : List Bool → List Act → List String
  | _, [] => []
  | kinds, .exit :: acts =>
    match kinds with
    | [] => []
    | _ :: outer => namesUntilExit outer acts
  | kinds, .body .. :: acts => namesUntilExit (true :: kinds) acts
  | kinds, .block _ :: acts => namesUntilExit (false :: kinds) acts
  | kinds, .declares kind declarators :: acts =>
    (if kind = .var ∧ true ∉ kinds then declaredNames declarators else []) ++
      namesUntilExit kinds acts
  | kinds, .declared .. :: acts => namesUntilExit kinds acts
  | kinds, .site _ :: acts => namesUntilExit kinds acts
  | kinds, .call .. :: acts => namesUntilExit kinds acts

variable {R : List Node → List String → Prop} {acts : List Act} {vars : List String}

theorem namesUntilExit_declared {kind : VarKind} (steps : List Step) (kinds : List Bool)
    (rest : List Act) :
    namesUntilExit kinds (steps.filterMap (declaredAct? kind) ++ rest) =
      namesUntilExit kinds rest := by
  induction steps with
  | nil => rfl
  | cons step steps ih => cases step <;> exact ih

theorem Level.namesUntilExit_append (h : Level R acts vars) (kinds : List Bool) (rest : List Act) :
    namesUntilExit kinds (acts ++ rest) =
      (if true ∈ kinds then [] else vars) ++ namesUntilExit kinds rest := by
  -- The exit of each scope comes at the start of what follows its acts, so that `rest` must vary.
  induction h generalizing kinds rest with
  | nil => simp
  | site | call => simp [namesUntilExit]
  | declaration kind docs neighbours declarators =>
    show (if kind = .var ∧ true ∉ kinds then declaredNames declarators else []) ++
      namesUntilExit kinds (_ ++ rest) = _
    rw [namesUntilExit_declared]
    by_cases hkind : kind = .var <;> by_cases hkinds : true ∈ kinds <;> simp [hkind, hkinds]
  | @block names acts vars inner ih =>
    have hinner := ih (false :: kinds) (.exit :: rest)
    show namesUntilExit (false :: kinds) ((acts ++ [.exit]) ++ rest) = _
    rw [List.append_assoc]
    simpa [namesUntilExit] using hinner
  | @body before statements after acts vars inner names ih =>
    have hinner := ih (true :: kinds) (.exit :: rest)
    show namesUntilExit (true :: kinds) ((acts ++ [.exit]) ++ rest) = _
    rw [List.append_assoc]
    simpa [namesUntilExit] using hinner
  | append first second ih ih' =>
    rw [List.append_assoc, ih, ih']
    split_ifs <;> simp

theorem name_mem_of_mem_declaratorSites {docs : List Nat} {neighbours declarators : List Node}
    {s : Site} (h : .site s ∈ declaratorSites docs neighbours declarators) :
    s.name ∈ declaredNames declarators := by
  obtain ⟨name, nameSpan, value, span, hmem, hs⟩ := exists_of_mem_declaratorSites h
  cases hs
  exact List.mem_flatMap.2 ⟨_, hmem, List.mem_singleton_self name⟩

theorem mem_declarationActs {kind : VarKind} {docs : List Nat} {neighbours declarators : List Node}
    {act : Act} (h : act ∈ declarationActs kind docs neighbours declarators) :
    act = .declares kind declarators ∨
      ∃ s, act = .declared kind s ∧ s.name ∈ declaredNames declarators := by
  rcases List.mem_cons.1 h with rfl | h
  · exact .inl rfl
  · obtain ⟨step, hstep, hact⟩ := List.mem_filterMap.1 h
    cases step with
    | site s =>
      cases hact
      exact .inr ⟨s, rfl, name_mem_of_mem_declaratorSites hstep⟩
    | _ => cases hact

theorem exists_exit_concat {pre post : List Act} {before after : List String}
    {statements : List Node}
    (ih : ∀ {pre post}, acts = pre ++ .body before statements after :: post →
      ∃ inner rest vars, post = inner ++ .exit :: rest ∧ Level R inner vars ∧ R statements vars)
    (hsplit : acts ++ [.exit] = pre ++ .body before statements after :: post) :
    ∃ inner rest vars, post = inner ++ .exit :: rest ∧ Level R inner vars ∧ R statements vars := by
  obtain ⟨mid, hmid, rfl⟩ := append_singleton_eq_append_cons hsplit (by simp)
  obtain ⟨inner, rest, vars, rfl, hinner⟩ := ih hmid
  refine ⟨inner, rest ++ [.exit], vars, ?_, hinner⟩
  rw [List.append_assoc, List.cons_append]

theorem Level.exists_exit (h : Level R acts vars) {pre post : List Act} {before after : List String}
    {statements : List Node} (hsplit : acts = pre ++ .body before statements after :: post) :
    ∃ inner rest vars, post = inner ++ .exit :: rest ∧ Level R inner vars ∧ R statements vars := by
  induction h generalizing pre post with
  | nil => simp at hsplit
  | site | call => simp [List.singleton_eq_append_iff] at hsplit
  | declaration =>
    have hmem : Act.body before statements after ∈ pre ++ .body before statements after :: post :=
      List.mem_append_right pre List.mem_cons_self
    rw [← hsplit] at hmem
    rcases mem_declarationActs hmem with h | ⟨s, h, -⟩ <;> cases h
  | block names inner ih =>
    cases pre with
    | nil => simp at hsplit
    | cons act pre =>
      obtain ⟨-, hrest⟩ := List.cons.inj hsplit
      exact exists_exit_concat ih hrest
  | @body before' statements' after' acts vars inner names ih =>
    cases pre with
    | nil =>
      obtain ⟨hbody, rfl⟩ := List.cons.inj hsplit
      cases hbody
      exact ⟨acts, [], vars, rfl, inner, names⟩
    | cons act pre =>
      obtain ⟨-, hrest⟩ := List.cons.inj hsplit
      exact exists_exit_concat ih hrest
  | @append acts acts' vars vars' first second ih ih' =>
    rcases append_eq_append_cons hsplit with ⟨mid, hmid, rfl⟩ | ⟨mid, -, hmid⟩
    · obtain ⟨inner, rest, vars, rfl, hinner⟩ := ih hmid
      refine ⟨inner, rest ++ acts', vars, ?_, hinner⟩
      rw [List.append_assoc, List.cons_append]
    · exact ih' hmid

theorem Level.namesUntilExit_exit (h : Level R acts vars) (rest : List Act) :
    namesUntilExit [] (acts ++ .exit :: rest) = vars := by
  rw [h.namesUntilExit_append]
  simp [namesUntilExit]

theorem namesUntilExit_of_body (h : Level Agrees acts vars) {pre post : List Act}
    {before after : List String} {statements : List Node}
    (hsplit : acts = pre ++ .body before statements after :: post) :
    namesUntilExit [] post = hoistedNamesOfAll statements := by
  obtain ⟨inner, rest, vars, rfl, hinner, hagrees⟩ := h.exists_exit hsplit
  rw [hinner.namesUntilExit_exit, hagrees]

-- `{ var b; }` counts for the script, and `function f() { var hidden; }` does not.
example (s : Span) : namesUntilExit [] (actsOf ⟨false,
    [.block [.declarations .var [.declarator (.name "b" s) none s] s] s,
      .functionDeclaration "f" (.function false []
        [.declarations .var [.declarator (.name "hidden" s) none s] s] s s) s]⟩) = ["b"] := by
  rfl

def kindsAfter (kinds : List Bool) : Act → List Bool
  | .body .. => true :: kinds
  | .block _ => false :: kinds
  | .exit => kinds.tail
  | _ => kinds

def scopesAfterActs (s : Scopes) (acts : List Act) : Scopes :=
  (acts.filterMap Act.step?).foldl scopesAfter s

def Declares (kinds : List Bool) (s : Scopes) (names : List String) : Prop :=
  ∃ scope, s.openScopes[kinds.idxOf true]? = some scope ∧ ∀ name ∈ names, scope.contains name

theorem Declares.mono {kinds : List Bool} {s s' : Scopes} {names names' : List String}
    (h : Declares kinds s names) (hscopes : s'.openScopes = s.openScopes)
    (hnames : ∀ name ∈ names', name ∈ names) : Declares kinds s' names' := by
  obtain ⟨scope, hscope, hcontains⟩ := h
  exact ⟨scope, by rw [hscopes, hscope], fun name hname => hcontains name (hnames name hname)⟩

theorem scopesAfterActs_append (s : Scopes) (acts acts' : List Act) :
    scopesAfterActs s (acts ++ acts') = scopesAfterActs (scopesAfterActs s acts) acts' := by
  rw [scopesAfterActs, List.filterMap_append, List.foldl_append]
  rfl

theorem after_declarations {kind : VarKind} {docs : List Nat} {neighbours declarators : List Node}
    (h : ∀ act ∈ acts, act ∈ declarationActs kind docs neighbours declarators) (kinds : List Bool)
    (s : Scopes) : acts.foldl kindsAfter kinds = kinds ∧ scopesAfterActs s acts = s := by
  induction acts with
  | nil => exact ⟨rfl, rfl⟩
  | cons act acts ih =>
    obtain ⟨hact, hacts⟩ := List.forall_mem_cons.1 h
    rcases mem_declarationActs hact with rfl | ⟨s, rfl, -⟩
    · exact ih hacts
    · exact ih hacts

theorem Level.foldl_kindsAfter (h : Level R acts vars) (kinds : List Bool) :
    acts.foldl kindsAfter kinds = kinds := by
  induction h generalizing kinds with
  | nil | site | call => rfl
  | declaration => exact (after_declarations (fun act hact => hact) kinds .empty).1
  | block names inner ih =>
    rw [List.foldl_cons, List.foldl_append, ih]
    rfl
  | body before statements after inner names ih =>
    rw [List.foldl_cons, List.foldl_append, ih]
    rfl
  | append first second ih ih' => rw [List.foldl_append, ih, ih']

theorem Level.scopesAfterActs_restored (h : Level R acts vars) (s : Scopes) :
    s.Restored (scopesAfterActs s acts) := restored_of_nested h.nested s

theorem Level.declares (h : Level Agrees acts vars) {kinds : List Bool} {s : Scopes}
    (hdeclares : Declares kinds s vars) {pre post : List Act} {site : Site}
    (hsplit : acts = pre ++ .declared .var site :: post) :
    Declares (pre.foldl kindsAfter kinds) (scopesAfterActs s pre) [site.name] := by
  induction h generalizing kinds s pre post with
  | nil => simp at hsplit
  | site | call => simp [List.singleton_eq_append_iff] at hsplit
  | declaration kind docs neighbours declarators =>
    have hmem : ∀ act ∈ pre ++ .declared .var site :: post,
        act ∈ declarationActs kind docs neighbours declarators := by
      rw [hsplit]
      exact fun act hact => hact
    have hpre : ∀ act ∈ pre, act ∈ declarationActs kind docs neighbours declarators :=
      fun act hact => hmem act (List.mem_append_left _ hact)
    obtain ⟨hkinds, hscopes⟩ := after_declarations hpre kinds s
    rw [hkinds, hscopes]
    rcases mem_declarationActs (hmem _ (List.mem_append_right _ List.mem_cons_self)) with
      hact | ⟨s', hact, hname⟩
    · cases hact
    · -- The name is one of those that the level declares for a `var`.
      cases hact
      refine hdeclares.mono rfl fun name hmem => ?_
      rw [List.mem_singleton.1 hmem, if_pos rfl]
      exact hname
  | @block names acts vars inner ih =>
    cases pre with
    | nil => simp at hsplit
    | cons act pre =>
      obtain ⟨rfl, hrest⟩ := List.cons.inj hsplit
      obtain ⟨mid, hmid, rfl⟩ := append_singleton_eq_append_cons hrest (by simp)
      -- In a block the scope that counts is the one that did before, one further out.
      obtain ⟨scope, hscope, hcontains⟩ := hdeclares
      have hblock : Declares (false :: kinds) (s.enter.declareAll names) vars := by
        refine ⟨scope, ?_, hcontains⟩
        rw [(s.opened names).openScopes, List.idxOf_cons]
        exact hscope
      exact ih hblock hmid
  | @body before statements after acts vars inner names ih =>
    cases pre with
    | nil => simp at hsplit
    | cons act pre =>
      obtain ⟨rfl, hrest⟩ := List.cons.inj hsplit
      obtain ⟨mid, hmid, rfl⟩ := append_singleton_eq_append_cons hrest (by simp)
      have hopened := s.opened (before ++ hoistedNamesOfAll statements ++ after)
      -- In a function the scope that counts is its own, which was told the names of its statements.
      have hbody : Declares (true :: kinds)
          (s.enter.declareAll (before ++ hoistedNamesOfAll statements ++ after)) vars := by
        refine ⟨_, congrArg (·[0]?) hopened.openScopes, ?_⟩
        intro name hname
        rw [hopened.declares, names]
        exact List.mem_append_left _ (List.mem_append_right _ hname)
      exact ih hbody hmid
  | @append acts acts' vars vars' first second ih ih' =>
    rcases append_eq_append_cons hsplit with ⟨mid, hmid, rfl⟩ | ⟨mid, rfl, hmid⟩
    · exact ih (hdeclares.mono rfl fun name => List.mem_append_left vars') hmid
    · rw [List.foldl_append, first.foldl_kindsAfter, scopesAfterActs_append]
      have hrestored := first.scopesAfterActs_restored s
      exact ih' (hdeclares.mono hrestored.openScopes fun name => List.mem_append_right vars) hmid

end Definition

end MessageCatalog
