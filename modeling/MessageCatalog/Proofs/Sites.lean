import MessageCatalog.Proofs.Inputs
import MessageCatalog.Proofs.VisibleDefinitions

/-! What a run sees of a file: each site and each call once, wherever it stands, and what is in a
construct before the construct itself. -/

namespace MessageCatalog

theorem Compilation.MadeFrom.isLaidOut {c : Compilation} {es ss : List Loaded}
    (h : c.MadeFrom es ss) {s : Source} (hs : s ∈ c.sources) : s.program.IsLaidOut := by
  obtain ⟨path, code, hparse⟩ := h.exists_parse hs
  exact Source.isLaidOut_of_parse hparse

namespace Definition
open Script (Node Span Program VarKind)
open Script.Node (Stand)

theorem Shows.isBlank {n : Node} {m : Mark} (h : Shows n m) : n.isBlank = false := by
  cases h <;> rfl

section Unique
variable {p : Program} {start stop : Nat} {n n' : Node} {m : Mark}

theorem precedes_or_of_ne {α : Type} {xs : List α} {x y : α} (hx : x ∈ xs) (hy : y ∈ xs)
    (hne : x ≠ y) : Precedes xs x y ∨ Precedes xs y x := by
  obtain ⟨before, after, rfl⟩ := List.append_of_mem hx
  rcases List.mem_append.1 hy with hy | hy
  · exact .inr (precedes_append_iff.2 (.inr (.inl ⟨hy, List.mem_cons_self⟩)))
  · have hafter := (List.mem_cons.1 hy).resolve_left hne.symm
    have hpair : Precedes (x :: after) x y :=
      List.cons_sublist_cons.2 (List.singleton_sublist.2 hafter)
    exact .inl (precedes_append_iff.2 (.inr (.inr hpair)))

theorem span_lt_of_mem_assign {operator : String} {target value : Node} {span : Span}
    (h : (Node.assign operator target value span).IsLaidOut)
    (hn : n ∈ (Node.assign operator target value span).subnodes) (hblank : n.isBlank = false)
    (hne : n ≠ .assign operator target value span) :
    span.start < n.span.start ∨ n.span.stop < span.stop := by
  rcases Node.mem_subnodes.1 hn with hself | ⟨part, hpart, hn⟩
  · exact absurd hself hne
  · obtain ⟨hstart, -, hstop⟩ := h.within_part hpart hn hblank
    cases (Node.isLaidOut_iff.1 h).2 with
    | row hrow =>
      obtain ⟨htarget, hlt, -, hvalue, hlt', hle, -⟩ := hrow
      have htarget : span.start ≤ target.span.start := htarget
      have hle : value.span.stop ≤ span.stop := hle
      simp only [Node.parts, List.mem_cons, List.not_mem_nil, or_false] at hpart
      rcases hpart with rfl | rfl <;> omega

theorem eq_of_assign_span (h : Stand start stop p.items) {operator operator' : String}
    {target target' value value' : Node} {span : Span}
    (hn : .assign operator target value span ∈ p.subnodes)
    (hn' : .assign operator' target' value' span ∈ p.subnodes) :
    Node.assign operator target value span = .assign operator' target' value' span := by
  have hlt : span.start < span.stop := Program.lt_of_mem h hn rfl
  -- The one that is visited first would be in the other one.
  have hno : ∀ {n n' : Node}, n.span = span → n'.span = span → n.isBlank = false →
      (∃ operator target value, n' = .assign operator target value span) → n ≠ n' →
      ¬ Precedes p.subnodes n n' := by
    rintro n n' hspan hspan' hblank ⟨operator, target, value, rfl⟩ hne hbefore
    rcases Program.order_of_precedes h hbefore (Node.self_mem_subnodes _) hblank rfl rfl with
      hstop | hin | ⟨k, hk, hover⟩
    · rw [hspan, hspan'] at hstop
      omega
    · have hinside :=
        span_lt_of_mem_assign (Program.isLaidOut_of_mem h hbefore.mem.2) hin hblank hne
      rw [hspan] at hinside
      omega
    · have hstart := hover.before (Program.isLaidOut_of_mem h hk) hblank rfl
      rw [hspan, hspan'] at hstart
      omega
  by_contra hne
  rcases precedes_or_of_ne hn hn' hne with hbefore | hbefore
  · exact hno rfl rfl rfl ⟨_, _, _, rfl⟩ hne hbefore
  · exact hno rfl rfl rfl ⟨_, _, _, rfl⟩ (Ne.symm hne) hbefore

theorem Shows.unique (h : Stand start stop p.items) (hn : n ∈ p.subnodes) (hn' : n' ∈ p.subnodes)
    (hm : Shows n m) (hm' : Shows n' m) : n = n' := by
  cases hm with
  | call =>
    cases hm'
    rfl
  | assignment =>
    cases hm'
    exact eq_of_assign_span h hn hn'
  | property =>
    cases hm'
    exact Program.parent_unique h hn hn' List.mem_cons_self List.mem_cons_self rfl
  | declarator mem =>
    cases hm' with
    | declarator mem' =>
      have hname := Program.parent_unique h
        (Program.mem_subnodes_trans (Node.mem_subnodes_of_mem_parts mem) hn)
        (Program.mem_subnodes_trans (Node.mem_subnodes_of_mem_parts mem') hn')
        List.mem_cons_self List.mem_cons_self rfl
      rw [← hname] at mem'
      exact Program.parent_unique h hn hn' mem mem' rfl

theorem nodup_marksAt (h : n.IsLaidOut) : (marksAt n).Nodup := by
  unfold marksAt
  split
  · exact List.nodup_singleton _
  · split_ifs
    · exact List.nodup_singleton _
    · exact .nil
  · exact List.nodup_singleton _
  · next declarators _ =>
    rw [List.nodup_flatMap]
    constructor
    · intro declarator _
      unfold declaratorMarks
      split
      · exact List.nodup_singleton _
      · exact .nil
    · refine h.apart.imp fun hapart m hm hm' => ?_
      obtain ⟨name, nameSpan, value, span, rfl, rfl⟩ := mem_declaratorMarks.1 hm
      obtain ⟨_, _, value', span', rfl, hsame⟩ := mem_declaratorMarks.1 hm'
      cases hsame
      exact hapart (.name name nameSpan) rfl (Node.mem_subnodes_of_mem_parts List.mem_cons_self)
        (Node.mem_subnodes_of_mem_parts List.mem_cons_self)
  · exact .nil

theorem nodup_marksOf (h : Stand start stop p.items) : (marksOf p).Nodup := by
  have hblank : ∀ ns : List Node,
      ns.flatMap marksAt = (ns.filter (!·.isBlank)).flatMap marksAt := by
    intro ns
    induction ns with
    | nil => rfl
    | cons n ns ih =>
      rw [List.flatMap_cons, ih, List.filter_cons]
      cases hn : n.isBlank with
      | false => rfl
      | true =>
        have hnone : marksAt n = [] := List.eq_nil_iff_forall_not_mem.2 fun m hm => by
          rw [(mem_marksAt.1 hm).isBlank] at hn
          cases hn
        rw [hnone]
        rfl
  rw [marksOf, hblank, List.nodup_flatMap]
  constructor
  · intro n hn
    exact nodup_marksAt (Program.isLaidOut_of_mem h (List.mem_of_mem_filter hn))
  · refine (Program.distinct h).imp_of_mem fun hn hn' hne m hm hm' => hne ?_
    exact Shows.unique h (List.mem_of_mem_filter hn) (List.mem_of_mem_filter hn')
      (mem_marksAt.1 hm) (mem_marksAt.1 hm')

end Unique

theorem precedes_flatMap_of_mem {α β : Type} {f : β → List α} {bs : List β} {b b' : β} {x y : α}
    (h : Precedes bs b b') (hx : x ∈ f b) (hy : y ∈ f b') : Precedes (bs.flatMap f) x y := by
  obtain ⟨before, between, after, rfl⟩ := precedes_iff.1 h
  have hlater : y ∈ (between ++ b' :: after).flatMap f :=
    List.mem_flatMap.2 ⟨b', by simp, hy⟩
  rw [List.flatMap_append, List.flatMap_cons]
  exact precedes_append_iff.2 (.inr (.inr (precedes_append_iff.2 (.inr (.inl ⟨hx, hlater⟩)))))

theorem precedes_of_shows {p : Program} {n inner : Node} {m m' : Mark} (hn : n ∈ p.subnodes)
    (hinner : inner ∈ n.subnodes) (hne : inner ≠ n) (hm : Shows inner m) (hm' : Shows n m') :
    Precedes (marksOf p) m m' :=
  precedes_flatMap_of_mem (Program.precedes_of_mem hn (Node.precedes_around hinner hne))
    (mem_marksAt.2 hm) (mem_marksAt.2 hm')

def seenIn (settings : Settings) (c : Compilation) (file : Nat) : List Mark :=
  ((moments settings c).filter (·.env.file = file)).filterMap (·.step.mark?)

theorem seenIn_eq (settings : Settings) {c : Compilation} {sources rest : List Source} {s : Source}
    (hc : c.sources = sources ++ s :: rest) :
    seenIn settings c sources.length = marksOf s.program := by
  have hvisits : seenIn settings c sources.length =
      ((visits settings c).filter (·.1.file = sources.length)).filterMap (·.2.mark?) := by
    rw [← map_visit_moments, List.filter_map, List.filterMap_map]
    rfl
  rw [hvisits, filter_visits hc, List.filterMap_map, ← marks_stepsOf]
  rfl

/-- All that is to be seen in a program is seen once, and what is in a construct before that. -/
structure SeesOnce (p : Program) (seen : List Mark) : Prop where
  once : seen.Nodup
  all : ∀ m, m ∈ seen ↔ ∃ n ∈ p.subnodes, Shows n m
  inner_first : ∀ n ∈ p.subnodes, ∀ inner ∈ n.subnodes, inner ≠ n →
    ∀ m m', Shows inner m → Shows n m' → Precedes seen m m'

theorem seesOnce_marksOf {p : Program} (h : p.IsLaidOut) : SeesOnce p (marksOf p) where
  once := by
    obtain ⟨start, stop, hstand⟩ := h
    exact nodup_marksOf hstand
  all m := by
    rw [marksOf, List.mem_flatMap]
    exact exists_congr fun n => and_congr_right fun _ => mem_marksAt
  inner_first n hn inner hinner hne m m' hm hm' := precedes_of_shows hn hinner hne hm hm'

/-- In every file of a run whose program is laid out, as all are that are read from texts, each
declarator of a name, each plain assignment to a property, each property under a name and each call
is gone through once, wherever it stands; nothing else is. -/
theorem sites_run (settings : Settings) {c : Compilation} {sources rest : List Source} {s : Source}
    (hc : c.sources = sources ++ s :: rest) :
    (∀ es ss, c.MadeFrom es ss → s.program.IsLaidOut) ∧
    (s.program.IsLaidOut → SeesOnce s.program (seenIn settings c sources.length)) := by
  refine ⟨fun es ss h => h.isLaidOut (by simp [hc]), fun hlaid => ?_⟩
  rw [seenIn_eq settings hc]
  exact seesOnce_marksOf hlaid

theorem sites_run_nested :
    let c := Compilation.ofFiles [] [("a.js", "x.MSG_A=f(g());")]
    ∃ s, c.sources = [s] ∧ SeesOnce s.program (seenIn {} c 0) ∧ (seenIn {} c 0).length = 3 := by
  intro c
  have hone : c.sources.length = 1 := by decide +kernel
  obtain ⟨s, hs⟩ := List.length_eq_one_iff.1 hone
  have hsources : c.sources = [] ++ s :: [] := hs
  obtain ⟨hlaid, hsees⟩ := sites_run {} hsources
  exact ⟨s, hs, hsees (hlaid _ _ (.ofFiles [] _)), by decide +kernel⟩

end Definition

end MessageCatalog
