import MessageCatalog.Proofs.AssignmentDocs

/-! What stands beside a variable: the statements before and after its declaration in the list in
which that stands. A declaration in no list, as one under `export`, has nothing beside it. -/

namespace MessageCatalog

namespace Script.Node

theorem subnodes_induction {P : Node → Prop}
    (whole : ∀ n, (∀ part ∈ n.parts, ∀ m ∈ part.subnodes, P m) → P n) (n : Node) : P n := by
  have hall : ∀ m ∈ n.subnodes, P m := by
    induction n using parts_induction with
    | whole n ih =>
      intro m hm
      rcases mem_subnodes.1 hm with rfl | ⟨part, hpart, hm⟩
      · exact whole m ih
      · exact ih part hpart m hm
  exact hall n n.self_mem_subnodes

end Script.Node

namespace Definition
open Script (Node Span Program)
open Script.Node (subnodes_induction)

variable {statement : Option Nat} {ns : List Node} {k m n : Node} {s : Site} {step : Step}

def DeclaresAt (n : Node) (s : Site) : Prop :=
  Shows n (.site .variable s.name s.value s.span)

inductive DeclaredIn (n : Node) (s : Site) : Prop
  | statement {k d : Node} {before after : List Node} (mem : k ∈ n.subnodes)
    (statements : k.statements = before ++ d :: after) (declares : DeclaresAt d s)
    (neighbours : s.neighbours = before.getLast?.toList ++ after.head?.toList) : DeclaredIn n s
  | part {k d : Node} (mem : k ∈ n.subnodes) (part : d ∈ k.parts) (unlisted : d ∉ k.statements)
    (declares : DeclaresAt d s) (neighbours : s.neighbours = []) : DeclaredIn n s

theorem DeclaredIn.mono (h : DeclaredIn m s) (hm : m ∈ n.subnodes) : DeclaredIn n s := by
  cases h with
  | statement mem statements declares neighbours =>
    exact .statement (Node.mem_subnodes_trans mem hm) statements declares neighbours
  | part mem part unlisted declares neighbours =>
    exact .part (Node.mem_subnodes_trans mem hm) part unlisted declares neighbours

def Comes (n : Node) (s : Site) : Prop := DeclaredIn n s ∨ (DeclaresAt n s ∧ s.neighbours = [])

theorem Comes.of_part (h : Comes m s) (hm : m ∈ n.parts) (hnot : m ∉ n.statements) :
    DeclaredIn n s := by
  rcases h with h | ⟨hdeclares, hneighbours⟩
  · exact h.mono (Node.mem_subnodes_of_mem_parts hm)
  · exact .part n.self_mem_subnodes hm hnot hdeclares hneighbours

theorem declaresAt_of_mem {docs : List Nat} {neighbours declarators : List Node}
    (h : .site s ∈ declaratorSites docs neighbours declarators) (kind : Script.VarKind)
    (span : Span) :
    DeclaresAt (.declarations kind declarators span) s ∧ s.neighbours = neighbours := by
  obtain ⟨name, nameSpan, value, _, hmem, hs⟩ := exists_of_mem_declaratorSites h
  cases hs
  exact ⟨.declarator hmem, rfl⟩

theorem not_declaresAt (h : ∀ kind declarators span, n ≠ .declarations kind declarators span) :
    ¬ DeclaresAt n s := by
  rintro ⟨⟩
  exact h _ _ _ rfl

theorem declaredIn_of_walkStatements (ih : ∀ part ∈ n.parts, ∀ m ∈ part.subnodes, ∀ statement,
      .site s ∈ walk statement m → Comes m s)
    (h : .site s ∈ walkStatements statement none n.statements) : DeclaredIn n s := by
  obtain ⟨earlier, m, later, hn, hm⟩ := exists_of_mem_walkStatements [] h
  have hpart : m ∈ n.parts := Node.mem_parts_of_mem_statements (by simp [hn])
  have hsub := Node.mem_subnodes_of_mem_parts hpart
  cases hm with
  | @declarators kind declarators span mem =>
    obtain ⟨declarator, hdeclarator, h⟩ := exists_of_mem_walkAll mem
    have hcomes := ih _ hpart declarator
      (Node.mem_subnodes_of_mem_parts hdeclarator) statement h
    have hin : DeclaredIn (.declarations kind declarators span) s :=
      hcomes.of_part hdeclarator (by simp [Node.statements])
    exact hin.mono hsub
  | @declaration kind declarators span mem =>
    obtain ⟨hdeclares, hneighbours⟩ := declaresAt_of_mem mem kind span
    exact .statement n.self_mem_subnodes hn hdeclares hneighbours
  | other hother mem =>
    rcases ih m hpart m m.self_mem_subnodes _ mem with h | ⟨hdeclares, -⟩
    · exact h.mono hsub
    · exact absurd hdeclares (not_declaresAt hother)

theorem comes_of_walk (hn : n.IsLaidOut) (hs : s.kind = .variable)
    (h : .site s ∈ walk statement n) : Comes n s := by
  induction n using subnodes_induction generalizing statement with
  | whole n ih =>
    have hin : ∀ part ∈ n.parts, ∀ m ∈ part.subnodes, ∀ statement,
        .site s ∈ walk statement m → Comes m s := by
      intro part hpart m hm statement h
      have hmem := Node.mem_subnodes_trans hm (Node.mem_subnodes_of_mem_parts hpart)
      exact ih part hpart m hm (fun k hk => hn k (Node.mem_subnodes_trans hk hmem)) h
    rcases walk_site_cases hn h with ⟨m, hm, hnot, h⟩ | h | h
    · exact .inl ((hin m hm m m.self_mem_subnodes statement h).of_part hm hnot)
    · exact .inl (declaredIn_of_walkStatements hin h)
    · unfold ownSites at h
      split at h
      · rw [kind_of_mem_assignmentSites h] at hs
        cases hs
      · rw [kind_of_mem_propertySites h] at hs
        cases hs
      · exact .inr (declaresAt_of_mem h _ _)
      · next kind declarators inner _ _ =>
        have hcomes : Comes (.declarations kind declarators inner) s :=
          .inr (declaresAt_of_mem h kind inner)
        exact .inl (hcomes.of_part List.mem_cons_self (by simp [Node.statements]))
      · cases h

def HasList (p : Program) (l : List Node) : Prop := l = p.items ∨ ∃ k ∈ p.subnodes, l = k.statements

/-- What stands beside a declaration: the statements before and after it in its list, or nothing if
it stands in no list. -/
inductive Beside (p : Program) (d : Node) : List Node → Prop
  | statement {before after : List Node} (list : HasList p (before ++ d :: after)) :
    Beside p d (before.getLast?.toList ++ after.head?.toList)
  | part (unlisted : ∀ l, HasList p l → d ∉ l) : Beside p d []

section Programs
variable {p : Program} {start stop : Nat} {d : Node}

theorem hasList_iff (span : Span) {l : List Node} :
    HasList p l ↔ ∃ k ∈ (p.whole span).subnodes, l = k.statements := by
  rw [HasList, Program.subnodes_whole]
  simp only [List.mem_append, List.mem_singleton, or_and_right, exists_or, exists_eq_left]
  exact or_comm

theorem not_mem_of_statements (hk : k.IsLaidOut) (hblank : d.isBlank = false)
    {before after : List Node} (h : k.statements = before ++ d :: after) :
    d ∉ before ∧ d ∉ after := by
  have hsublist : List.Sublist k.statements k.parts := by
    rw [Node.parts_eq_append]
    exact List.sublist_append_right _ _
  have hself : ¬ Node.Apart d d := fun hapart =>
    hapart d hblank d.self_mem_subnodes d.self_mem_subnodes
  have hapart := hk.apart.sublist hsublist
  rw [h, List.pairwise_append, List.pairwise_cons] at hapart
  exact ⟨fun hmem => hself (hapart.2.2 d hmem d List.mem_cons_self),
    fun hmem => hself (hapart.2.1.1 d hmem)⟩

theorem Beside.unique (hp : Node.Stand start stop p.items) (hblank : d.isBlank = false)
    {ns ns' : List Node} (h : Beside p d ns) (h' : Beside p d ns') : ns = ns' := by
  cases h with
  | @statement before after list =>
    cases h' with
    | @statement before' after' list' =>
      obtain ⟨k, hk, hstatements⟩ := (hasList_iff ⟨start, stop⟩).1 list
      obtain ⟨k', hk', hstatements'⟩ := (hasList_iff ⟨start, stop⟩).1 list'
      have hwhole := Program.isLaidOut_whole hp
      obtain rfl : k = k' := hwhole.parent_unique hk hk'
        (Node.mem_parts_of_mem_statements (by simp [← hstatements]))
        (Node.mem_parts_of_mem_statements (by simp [← hstatements'])) hblank
      have hlaid : k.IsLaidOut := fun m hm => hwhole m (Node.mem_subnodes_trans hm hk)
      obtain ⟨hbefore, hafter⟩ := not_mem_of_statements hlaid hblank hstatements.symm
      have hsame : before ++ d :: after = before' ++ d :: after' :=
        hstatements.trans hstatements'.symm
      obtain ⟨rfl, -, rfl⟩ := (List.append_cons_inj_of_notMem hbefore hafter).1 hsame
      rfl
    | part unlisted => exact absurd (by simp) (unlisted _ list)
  | part unlisted =>
    cases h' with
    | statement list => exact absurd (by simp) (unlisted _ list)
    | part => rfl

theorem beside_of_declaredIn {s : Site} (hp : Node.Stand start stop p.items)
    (h : DeclaredIn (p.whole ⟨start, stop⟩) s) :
    ∃ d ∈ p.subnodes, DeclaresAt d s ∧ Beside p d s.neighbours := by
  have hmem : ∀ {k d : Node}, k ∈ (p.whole ⟨start, stop⟩).subnodes → d ∈ k.parts →
      DeclaresAt d s → d ∈ p.subnodes := by
    intro k d hk hd hdeclares
    have hsub := Node.mem_subnodes_trans (Node.mem_subnodes_of_mem_parts hd) hk
    rw [Program.subnodes_whole, List.mem_append, List.mem_singleton] at hsub
    rcases hsub with hsub | rfl
    · exact hsub
    · cases hdeclares
  cases h with
  | @statement k d before after mem statements declares neighbours =>
    have hpart : d ∈ k.parts := Node.mem_parts_of_mem_statements (by simp [statements])
    refine ⟨d, hmem mem hpart declares, declares, ?_⟩
    rw [neighbours]
    exact .statement ((hasList_iff ⟨start, stop⟩).2 ⟨k, mem, statements.symm⟩)
  | @part k d mem part unlisted declares neighbours =>
    refine ⟨d, hmem mem part declares, declares, ?_⟩
    rw [neighbours]
    refine .part fun l hl hd => unlisted ?_
    obtain ⟨k', hk', rfl⟩ := (hasList_iff ⟨start, stop⟩).1 hl
    have hsame := (Program.isLaidOut_whole hp).parent_unique mem hk' part
      (Node.mem_parts_of_mem_statements hd) (Shows.isBlank declares)
    rwa [hsame]

theorem beside_of_mem_stepsOf {s : Site} (hp : p.IsLaidOut) (hs : s.kind = .variable)
    (h : .site s ∈ stepsOf p) :
    ∃ d ∈ p.subnodes, DeclaresAt d s ∧ ∀ ns, Beside p d ns ↔ ns = s.neighbours := by
  obtain ⟨start, stop, hstand⟩ := hp
  have hwalk := site_mem_walkStatements h
  have hcomes : Comes (p.whole ⟨start, stop⟩) s :=
    comes_of_walk (Program.isLaidOut_whole hstand) hs hwalk
  rcases hcomes with hin | ⟨hdeclares, -⟩
  · obtain ⟨d, hd, hdeclares, hbeside⟩ := beside_of_declaredIn hstand hin
    refine ⟨d, hd, hdeclares, fun ns => ⟨fun h => ?_, fun h => h ▸ hbeside⟩⟩
    exact h.unique hstand hdeclares.isBlank hbeside
  · cases hdeclares

end Programs

end Definition

end MessageCatalog
