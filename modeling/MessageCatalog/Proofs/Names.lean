import MessageCatalog.Proofs.Hoisting

/-! The names that stand in a tree. Whatever a scope declares, a site defines or a call refers to
stands in the program. -/

namespace MessageCatalog

namespace Script.Node

def spelled : Node → List String
  | .name text _ => [text]
  | .member _ last _ => [last]
  | .functionDeclaration text _ _ => [text]
  | .classDeclaration text _ _ => [text]
  | .imports locals _ _ => locals
  | _ => []

def names (n : Node) : List String := n.subnodes.flatMap spelled

theorem names_eq (n : Node) : n.names = n.parts.flatMap names ++ n.spelled := by
  rw [names, subnodes_eq, List.flatMap_append, List.flatMap_assoc, List.flatMap_singleton]
  rfl

theorem names_subset {m n : Node} (h : m ∈ n.subnodes) : m.names ⊆ n.names := by
  intro x hx
  obtain ⟨l, hl, hx⟩ := List.mem_flatMap.1 hx
  exact List.mem_flatMap.2 ⟨l, mem_subnodes_trans hl h, hx⟩

theorem spelled_subset (n : Node) : n.spelled ⊆ n.names := by
  rw [names_eq]
  exact List.subset_append_right _ _

theorem names_subset_of_mem_parts {m n : Node} (h : m ∈ n.parts) : m.names ⊆ n.names :=
  names_subset (mem_subnodes_of_mem_parts h)

theorem flatMap_subset_names {f : Node → List String} {n : Node} {ms : List Node}
    (hms : ms ⊆ n.parts) (h : ∀ m ∈ ms, f m ⊆ m.names) : ms.flatMap f ⊆ n.names := by
  intro x hx
  obtain ⟨m, hm, hx⟩ := List.mem_flatMap.1 hx
  exact names_subset_of_mem_parts (hms hm) (h m hm hx)

theorem boundNamesOfAll_eq (ns : List Node) : boundNamesOfAll ns = ns.flatMap boundNames := by
  induction ns with
  | nil => rfl
  | cons n ns ih => rw [boundNamesOfAll, ih, List.flatMap_cons]

theorem boundNames_subset (n : Node) : n.boundNames ⊆ n.names := by
  induction n using parts_induction with
  | whole n ih =>
    cases n with
    | name text span => exact spelled_subset (.name text span)
    | objectPattern elements span | arrayPattern elements span =>
      rw [boundNames, boundNamesOfAll_eq]
      exact flatMap_subset_names (List.Subset.refl _) ih
    | patternProperty key target span | withDefault target value span | rest target span =>
      have htarget := ih target (by simp [parts])
      exact List.Subset.trans htarget (names_subset_of_mem_parts (by simp [parts]))
    | _ => exact List.nil_subset _

theorem declaratorNames_subset (n : Node) : n.declaratorNames ⊆ n.names := by
  cases n with
  | declarator target value span =>
    exact List.Subset.trans target.boundNames_subset (names_subset_of_mem_parts (by simp [parts]))
  | _ => exact List.nil_subset _

theorem ownNames_subset (n : Node) : n.ownNames ⊆ n.names := by
  unfold ownNames
  split
  · exact flatMap_subset_names (List.Subset.refl _) fun m _ => m.declaratorNames_subset
  · exact List.nil_subset _

theorem searchedParts_subset (n : Node) : n.searchedParts ⊆ n.parts := by
  cases n <;> simp [searchedParts]

theorem hoistedNames_subset (n : Node) : n.hoistedNames ⊆ n.names := by
  induction n using parts_induction with
  | whole n ih =>
    rw [hoistedNames_eq]
    exact List.append_subset.2 ⟨flatMap_subset_names n.searchedParts_subset fun m hm =>
      ih m (n.searchedParts_subset hm), n.ownNames_subset⟩

theorem blockNames_subset (n : Node) : n.blockNames ⊆ n.names := by
  unfold blockNames
  split
  · exact List.nil_subset _
  · exact flatMap_subset_names (List.Subset.refl _) fun m _ => m.declaratorNames_subset
  · next text body span => exact spelled_subset (.functionDeclaration text body span)
  · next text body span => exact spelled_subset (.classDeclaration text body span)
  · exact List.nil_subset _

theorem itemNames_subset (n : Node) : n.itemNames ⊆ n.names := by
  unfold itemNames
  split
  · next locals attributes span => exact spelled_subset (.imports locals attributes span)
  · next declaration span =>
    exact List.Subset.trans declaration.blockNames_subset
      (names_subset_of_mem_parts (by simp [parts]))
  · exact blockNames_subset _

end Script.Node

namespace Script.Program

def names (p : Program) : List String := p.subnodes.flatMap Node.spelled

theorem mem_subnodes_trans {p : Program} {m n : Node} (hm : m ∈ n.subnodes)
    (hn : n ∈ p.subnodes) : m ∈ p.subnodes := by
  obtain ⟨item, hitem, hn⟩ := List.mem_flatMap.1 hn
  exact List.mem_flatMap.2 ⟨item, hitem, Node.mem_subnodes_trans hm hn⟩

theorem names_subset {p : Program} {n : Node} (h : n ∈ p.subnodes) : n.names ⊆ p.names := by
  intro x hx
  obtain ⟨m, hm, hx⟩ := List.mem_flatMap.1 hx
  exact List.mem_flatMap.2 ⟨m, mem_subnodes_trans hm h, hx⟩

theorem mem_subnodes_of_mem_items {p : Program} {n : Node} (h : n ∈ p.items) : n ∈ p.subnodes :=
  List.mem_flatMap.2 ⟨n, h, n.self_mem_subnodes⟩

theorem flatMap_items_subset {f : Node → List String} {p : Program}
    (h : ∀ n, f n ⊆ n.names) : p.items.flatMap f ⊆ p.names := by
  intro x hx
  obtain ⟨n, hn, hx⟩ := List.mem_flatMap.1 hx
  exact names_subset (mem_subnodes_of_mem_items hn) (h n hx)

theorem moduleNames_subset (p : Program) : Node.moduleNames p.items ⊆ p.names := by
  rw [Node.moduleNames, Node.hoistedNamesOfAll_eq]
  exact List.append_subset.2
    ⟨flatMap_items_subset Node.itemNames_subset, flatMap_items_subset Node.hoistedNames_subset⟩

theorem topNames_subset (p : Program) : p.topNames ⊆ p.names := by
  unfold topNames
  split_ifs
  · exact p.moduleNames_subset
  · rw [Node.hoistedNamesOfAll_eq]
    exact List.append_subset.2
      ⟨flatMap_items_subset Node.hoistedNames_subset, flatMap_items_subset Node.blockNames_subset⟩

end Script.Program

namespace Definition
open Script (Node Span Program)
open Script.Node (parts_induction)

variable {names : List String} {statement : Option Nat} {ns : List Node}

def Opens (names : List String) (n : Node) : Prop := ∃ statement, .enter names ∈ walk statement n

theorem exists_opens_of_mem_walkStatements
    (h : .enter names ∈ walkStatements statement none ns) : ∃ n ∈ ns, Opens names n := by
  obtain ⟨earlier, n, later, rfl, hn⟩ := exists_of_mem_walkStatements [] h
  refine ⟨n, by simp, ?_⟩
  cases hn with
  | declarators mem => exact ⟨statement, mem_walk_declarations mem⟩
  | declaration mem =>
    obtain ⟨s, hs⟩ := eq_site_of_mem_declaratorSites mem
    cases hs
  | other _ mem => exact ⟨_, mem⟩

theorem subset_names_of_mem_ownBounds {n : Node} (h : .enter names ∈ ownBounds n) :
    names ⊆ n.names := by
  cases n with
  | function isArrow parameters body bodySpan span =>
    obtain rfl : names = boundParameters parameters ++ Node.hoistedNamesOfAll body ++
        Node.lexicalNames body := by simpa [ownBounds] using h
    refine List.append_subset.2 ⟨List.append_subset.2 ⟨?_, ?_⟩, ?_⟩
    · exact Node.flatMap_subset_names (List.subset_append_left _ _) fun m _ => m.boundNames_subset
    · rw [Node.hoistedNamesOfAll_eq]
      exact Node.flatMap_subset_names (List.subset_append_right _ _) fun m _ => m.hoistedNames_subset
    · exact Node.flatMap_subset_names (List.subset_append_right _ _) fun m _ => m.blockNames_subset
  | lambda parameters result span =>
    obtain rfl : names = _ := by simpa [ownBounds] using h
    exact Node.flatMap_subset_names (List.subset_append_left _ _) fun m _ => m.boundNames_subset
  | block statements span =>
    obtain rfl : names = _ := by simpa [ownBounds] using h
    exact Node.flatMap_subset_names (List.Subset.refl _) fun m _ => m.blockNames_subset
  | _ => simp [ownBounds] at h

theorem opens_cases {n : Node} (h : Opens names n) :
    (∃ m ∈ n.parts, Opens names m) ∨ names ⊆ n.names := by
  obtain ⟨statement, h⟩ := h
  rcases walk_step_cases h with ⟨m, hm, h⟩ | h | h | h
  · exact .inl ⟨m, Node.mem_parts_of_mem_operands hm, statement, h⟩
  · obtain ⟨m, hm, h⟩ := exists_opens_of_mem_walkStatements h
    exact .inl ⟨m, Node.mem_parts_of_mem_statements hm, h⟩
  · obtain ⟨s, hs⟩ := eq_site_of_mem_ownSites h
    cases hs
  · exact .inr (subset_names_of_mem_ownBounds h)

theorem Opens.subset {n : Node} (h : Opens names n) : names ⊆ n.names := by
  induction n using parts_induction with
  | whole n ih =>
    rcases opens_cases h with ⟨m, hm, h⟩ | h
    · exact List.Subset.trans (ih m hm h) (Node.names_subset_of_mem_parts hm)
    · exact h

variable {p : Program}

theorem names_of_enter (h : .enter names ∈ stepsOf p) : names ⊆ p.names := by
  rcases stepsOf_cases h with h | h
  · obtain ⟨n, hn, h⟩ := exists_opens_of_mem_walkStatements h
    exact List.Subset.trans h.subset (Program.names_subset (Program.mem_subnodes_of_mem_items hn))
  · obtain rfl : names = Node.moduleNames p.items := by simpa using h
    exact p.moduleNames_subset

theorem exists_marksAt_of_mem_stepsOf {step : Step} {m : Mark} (h : step ∈ stepsOf p)
    (hm : step.mark? = some m) : ∃ n ∈ p.subnodes, m ∈ marksAt n := by
  have hmarks : m ∈ marksOf p := by
    rw [← marks_stepsOf]
    exact List.mem_filterMap.2 ⟨step, h, hm⟩
  exact List.mem_flatMap.1 hmarks

theorem eq_call_of_mem_marksAt {n callee : Node} {arguments : List Node} {span : Span}
    (hm : .call callee arguments span ∈ marksAt n) : n = .call callee arguments span := by
  cases mem_marksAt.1 hm
  rfl

theorem mem_subnodes_of_call {callee : Node} {arguments : List Node} {span : Span}
    (h : .call callee arguments span ∈ stepsOf p) : .call callee arguments span ∈ p.subnodes := by
  obtain ⟨n, hn, hm⟩ := exists_marksAt_of_mem_stepsOf h rfl
  exact eq_call_of_mem_marksAt hm ▸ hn

theorem value_mem_subnodes {s : Site} (h : .site s ∈ stepsOf p) {value : Node}
    (hvalue : s.value = some value) : value ∈ p.subnodes := by
  obtain ⟨n, hn, hm⟩ := exists_marksAt_of_mem_stepsOf h rfl
  obtain ⟨part, hpart, hvalue⟩ := value_mem_parts hm hvalue
  exact Program.mem_subnodes_trans
    (Node.mem_subnodes_trans hvalue (Node.mem_subnodes_of_mem_parts hpart)) hn

theorem site_stands {s : Site} (h : .site s ∈ stepsOf p) :
    s.name ∈ p.names ∧ ∃ n ∈ p.subnodes, n.span = s.span := by
  obtain ⟨n, hn, hm⟩ := exists_marksAt_of_mem_stepsOf h rfl
  have hspelled : ∀ {m : Node}, m ∈ n.subnodes → m.spelled ⊆ p.names := fun hm =>
    List.Subset.trans (Node.spelled_subset _) (Program.names_subset (Program.mem_subnodes_trans hm hn))
  obtain ⟨kind, text, value, place, docs, neighbours⟩ := s
  cases mem_marksAt.1 hm with
  | @declarator declared declarators _ _ _ declaratorSpan around mem =>
    have hdeclarator : Node.declarator (.name text place) value declaratorSpan ∈
        Node.subnodes (.declarations declared declarators around) :=
      Node.mem_subnodes_of_mem_parts mem
    have htarget : Node.name text place ∈
        Node.subnodes (.declarator (.name text place) value declaratorSpan) :=
      Node.mem_subnodes_of_mem_parts (by simp [Node.parts])
    have htarget := Node.mem_subnodes_trans htarget hdeclarator
    exact ⟨hspelled htarget List.mem_cons_self, _, Program.mem_subnodes_trans htarget hn, rfl⟩
  | assignment base value _ targetSpan =>
    have htarget : .member base text targetSpan ∈ Node.subnodes (.assign "="
        (.member base text targetSpan) value place) :=
      Node.mem_subnodes_of_mem_parts (by simp [Node.parts])
    exact ⟨hspelled htarget List.mem_cons_self, _, hn, rfl⟩
  | property _ value _ span =>
    have hkey : .name text place ∈ Node.subnodes (.property (.name text place) value span) :=
      Node.mem_subnodes_of_mem_parts (by simp [Node.parts])
    exact ⟨hspelled hkey List.mem_cons_self, _, Program.mem_subnodes_trans hkey hn, rfl⟩

end Definition

end MessageCatalog
