import Mathlib.Data.List.Nodup
import Mathlib.Data.List.Pairwise
import MessageCatalog.Proofs.Fallbacks
import MessageCatalog.Proofs.Layout
import MessageCatalog.Proofs.Names

/-! The order of a visit and the order of the text. What is visited after a node stands behind it,
or around it, or is overtaken by it; and but for empty statements, no node is visited twice. -/

namespace MessageCatalog

section
variable {α β : Type} {xs ys : List α} {x y z : α}

def Precedes (xs : List α) (x y : α) : Prop := [x, y].Sublist xs

theorem precedes_iff : Precedes xs x y ↔
    ∃ before between after, xs = before ++ x :: (between ++ y :: after) := by
  constructor
  · intro h
    obtain ⟨_, _, rfl, hx, hy⟩ := List.cons_sublist_iff.1 h
    obtain ⟨before, between, rfl⟩ := List.append_of_mem hx
    obtain ⟨between', after, rfl⟩ := List.append_of_mem (List.singleton_sublist.1 hy)
    exact ⟨before, between ++ between', after, by simp⟩
  · rintro ⟨before, between, after, rfl⟩
    have hafter : [y].Sublist (between ++ y :: after) := List.singleton_sublist.2 (by simp)
    exact (List.cons_sublist_cons.2 hafter).trans (List.sublist_append_right before _)

theorem precedes_append_iff : Precedes (xs ++ ys) x y ↔
    Precedes xs x y ∨ (x ∈ xs ∧ y ∈ ys) ∨ Precedes ys x y := by
  constructor
  · intro h
    obtain ⟨first, second, hpair, hfirst, hsecond⟩ := List.sublist_append_iff.1 h
    match first, hpair with
    | [], hpair =>
      obtain rfl : [x, y] = second := hpair
      exact .inr (.inr hsecond)
    | [_], hpair =>
      cases hpair
      exact .inr (.inl ⟨List.singleton_sublist.1 hfirst, List.singleton_sublist.1 hsecond⟩)
    | [_, _], hpair =>
      cases hpair
      exact .inl hfirst
  · rintro (h | ⟨hx, hy⟩ | h)
    · exact h.trans (List.sublist_append_left _ _)
    · exact (List.singleton_sublist.2 hx).append (List.singleton_sublist.2 hy)
    · exact h.trans (List.sublist_append_right _ _)

theorem not_precedes_singleton : ¬ Precedes [z] x y := by
  intro h
  have hlength := h.length_le
  simp at hlength

theorem precedes_flatMap {f : β → List α} {bs : List β} (h : Precedes (bs.flatMap f) x y) :
    (∃ b ∈ bs, Precedes (f b) x y) ∨ ∃ b b', Precedes bs b b' ∧ x ∈ f b ∧ y ∈ f b' := by
  induction bs with
  | nil => cases h
  | cons b bs ih =>
    rw [List.flatMap_cons, precedes_append_iff, List.mem_flatMap] at h
    rcases h with h | ⟨hx, b', hb', hy⟩ | h
    · exact .inl ⟨b, List.mem_cons_self, h⟩
    · exact .inr ⟨b, b', List.cons_sublist_cons.2 (List.singleton_sublist.2 hb'), hx, hy⟩
    · rcases ih h with ⟨b', hb', h⟩ | ⟨b', b'', h, hmem⟩
      · exact .inl ⟨b', List.mem_cons_of_mem b hb', h⟩
      · exact .inr ⟨b', b'', List.Sublist.cons b h, hmem⟩

namespace Precedes

theorem mem (h : Precedes xs x y) : x ∈ xs ∧ y ∈ xs :=
  ⟨h.subset List.mem_cons_self, h.subset (List.mem_cons_of_mem _ List.mem_cons_self)⟩

theorem filter {p : α → Bool} (h : Precedes xs x y) (hx : p x) (hy : p y) :
    Precedes (xs.filter p) x y := by
  have hfilter : ([x, y].filter p).Sublist (xs.filter p) := List.Sublist.filter p h
  rwa [List.filter_eq_self.2 (by simp [hx, hy])] at hfilter

theorem not_symm (h : Precedes xs x y) (hxs : xs.Nodup) : ¬ Precedes xs y x := by
  unfold Precedes at *
  induction xs with
  | nil => cases h
  | cons first rest ih => grind

theorem trans (h : Precedes xs x y) (h' : Precedes xs y z) (hxs : xs.Nodup) :
    Precedes xs x z := by
  unfold Precedes at *
  induction xs with
  | nil => cases h
  | cons first rest ih => grind

end Precedes

end

namespace Script

namespace Node

variable {k l m n around : Node} {ns : List Node}

theorem Overtakes.precedes (h : Overtakes m l n) : Precedes n.subnodes m l := by
  rw [subnodes_eq]
  refine precedes_append_iff.2 (.inl ?_)
  cases h with
  | doLoop htest hbody _ =>
    refine precedes_append_iff.2 (.inr (.inl ⟨htest, ?_⟩))
    simpa using hbody
  | heritage hmember hm hsuperclass _ =>
    rw [parts, List.flatMap_append]
    refine precedes_append_iff.2 (.inr (.inl ⟨List.mem_flatMap.2 ⟨_, hmember, hm⟩, ?_⟩))
    simpa using hsuperclass

theorem sizeOf_le_of_mem_subnodes (h : m ∈ n.subnodes) : sizeOf m ≤ sizeOf n := by
  induction n using parts_induction with
  | whole n ih =>
    rcases mem_subnodes.1 h with rfl | ⟨part, hpart, h⟩
    · exact Nat.le_refl _
    · have hlt := sizeOf_lt_of_mem_parts hpart
      have hle := ih part hpart h
      omega

theorem not_mem_subnodes_of_mem_parts (h : m ∈ n.parts) : n ∉ m.subnodes := by
  intro hn
  have hlt := sizeOf_lt_of_mem_parts h
  have hle := sizeOf_le_of_mem_subnodes hn
  omega

theorem precedes_of_mem_subnodes (hn : n ∈ around.subnodes) (h : Precedes n.subnodes m l) :
    Precedes around.subnodes m l := by
  induction around using parts_induction with
  | whole around ih =>
    rcases mem_subnodes.1 hn with rfl | ⟨part, hpart, hn⟩
    · exact h
    · obtain ⟨before, after, hparts⟩ := List.append_of_mem hpart
      rw [subnodes_eq, hparts, List.flatMap_append, List.flatMap_cons, precedes_append_iff,
        precedes_append_iff, precedes_append_iff]
      exact .inl (.inr (.inr (.inl (ih part hpart hn))))

theorem precedes_around (hm : m ∈ around.subnodes) (hne : m ≠ around) :
    Precedes around.subnodes m around := by
  rcases mem_subnodes.1 hm with rfl | ⟨part, hpart, hm⟩
  · exact absurd rfl hne
  · rw [subnodes_eq]
    have hparts := List.mem_flatMap.2 ⟨part, hpart, hm⟩
    exact precedes_append_iff.2 (.inr (.inl ⟨hparts, List.mem_singleton_self _⟩))

def Apart (m l : Node) : Prop := ∀ k, k.isBlank = false → k ∈ m.subnodes → k ∉ l.subnodes

instance : Std.Symm Apart := ⟨fun _ _ h k hk hl hm => h k hk hm hl⟩

namespace IsLaidOut

theorem apart (h : n.IsLaidOut) : n.parts.Pairwise Apart := by
  rw [List.pairwise_iff_forall_sublist]
  intro part later (hpair : Precedes n.parts part later) k hblank hk hk'
  obtain ⟨before, between, after, hparts⟩ := precedes_iff.1 hpair
  have hlt := h.within_part (hpair.mem.1) hk hblank
  rcases h.order hparts hk hk' hblank hblank with hstop | hover | ⟨-, hstop⟩
  · omega
  · have hbefore := hover.before h hblank hblank
    omega
  · omega

theorem distinct (h : n.IsLaidOut) : (n.subnodes.filter (!·.isBlank)).Nodup := by
  induction n using parts_induction with
  | whole n ih =>
    have hparts := (isLaidOut_iff.1 h).1
    have hlist : ((n.parts.flatMap subnodes).filter (!·.isBlank)).Nodup := by
      rw [List.filter_flatMap, List.nodup_flatMap]
      refine ⟨fun m hm => ih m hm (hparts m hm), h.apart.imp fun hapart k hk hk' => ?_⟩
      obtain ⟨hk, hblank⟩ := List.mem_filter.1 hk
      exact hapart k (by simpa using hblank) hk (List.mem_filter.1 hk').1
    rw [subnodes_eq, List.filter_append, List.nodup_append]
    refine ⟨hlist, (List.nodup_singleton n).filter _, ?_⟩
    rintro k hk l hl rfl
    obtain ⟨part, hpart, hin⟩ := List.mem_flatMap.1 (List.mem_filter.1 hk).1
    obtain rfl := List.mem_singleton.1 (List.mem_filter.1 hl).1
    exact not_mem_subnodes_of_mem_parts hpart hin

theorem parent_unique (h : n.IsLaidOut) (hm : m ∈ n.subnodes) (hl : l ∈ n.subnodes)
    (hk : k ∈ m.parts) (hk' : k ∈ l.parts) (hblank : k.isBlank = false) : m = l := by
  induction n using parts_induction with
  | whole n ih =>
    -- A part of the node itself is in no other part.
    have hself : k ∈ n.parts → ∀ part ∈ n.parts, ∀ l ∈ part.subnodes, k ∉ l.parts := by
      intro hkn part hpart l hl hkl
      have hkpart := mem_subnodes_trans (mem_subnodes_of_mem_parts hkl) hl
      by_cases hsame : k = part
      · rw [← hsame] at hl
        exact not_mem_subnodes_of_mem_parts hkl hl
      · exact h.apart.forall hkn hpart hsame k hblank k.self_mem_subnodes hkpart
    rcases mem_subnodes.1 hm with rfl | ⟨part, hpart, hin⟩ <;>
      rcases mem_subnodes.1 hl with rfl | ⟨part', hpart', hin'⟩
    · rfl
    · exact absurd hk' (hself hk part' hpart' l hin')
    · exact absurd hk (hself hk' part hpart m hin)
    · by_cases hsame : part = part'
      · subst hsame
        exact ih part hpart ((isLaidOut_iff.1 h).1 part hpart) hin hin'
      · have hkm := mem_subnodes_trans (mem_subnodes_of_mem_parts hk) hin
        have hkl := mem_subnodes_trans (mem_subnodes_of_mem_parts hk') hin'
        exact absurd hkl (h.apart.forall hpart hpart' hsame k hblank hkm)

/-- What is in a node visited later stands behind the node, or the node is in that one too, or it
overtakes. -/
theorem order_of_precedes (h : n.IsLaidOut) (hbefore : Precedes n.subnodes m around)
    (hl : l ∈ around.subnodes) (hblank : m.isBlank = false) (hblank' : l.isBlank = false)
    (hfunction : l.isFunction = false) :
    m.span.stop ≤ l.span.start ∨ m ∈ around.subnodes ∨ ∃ k ∈ n.subnodes, Overtakes m l k := by
  induction n using parts_induction with
  | whole n ih =>
    rw [subnodes_eq, precedes_append_iff] at hbefore
    rcases hbefore with hbefore | ⟨hm, haround⟩ | hbefore
    · rcases precedes_flatMap hbefore with ⟨part, hpart, hbefore⟩ | ⟨part, later, hpair, hm, hin⟩
      · rcases ih part hpart ((isLaidOut_iff.1 h).1 part hpart) hbefore with
          hstop | hin | ⟨k, hk, hover⟩
        · exact .inl hstop
        · exact .inr (.inl hin)
        · exact .inr (.inr ⟨k, mem_subnodes.2 (.inr ⟨part, hpart, hk⟩), hover⟩)
      · obtain ⟨before, between, after, hparts⟩ := precedes_iff.1 hpair
        rcases h.order hparts hm (mem_subnodes_trans hl hin) hblank hblank' with
          hstop | hover | ⟨htrue, -⟩
        · exact .inl hstop
        · exact .inr (.inr ⟨n, self_mem_subnodes n, hover⟩)
        · rw [hfunction] at htrue
          cases htrue
    · obtain rfl := List.mem_singleton.1 haround
      obtain ⟨part, hpart, hm⟩ := List.mem_flatMap.1 hm
      exact .inr (.inl (mem_subnodes.2 (.inr ⟨part, hpart, hm⟩)))
    · exact absurd hbefore not_precedes_singleton

end IsLaidOut

end Node

namespace Program

open Node (Stand)

variable {p : Program} {start stop : Nat} {k l m around : Node}

def whole (p : Program) (span : Span) : Node := .sequence p.items span

theorem subnodes_whole (p : Program) (span : Span) :
    (p.whole span).subnodes = p.subnodes ++ [p.whole span] := Node.subnodes_eq _

theorem mem_subnodes_whole {span : Span} (h : m ∈ p.subnodes) : m ∈ (p.whole span).subnodes := by
  rw [subnodes_whole]
  exact List.mem_append_left _ h

theorem isLaidOut_whole (h : Stand start stop p.items) : (p.whole ⟨start, stop⟩).IsLaidOut :=
  Node.isLaidOut_of_stand h

theorem distinct (h : Stand start stop p.items) : (p.subnodes.filter (!·.isBlank)).Nodup := by
  have hwhole := (isLaidOut_whole h).distinct
  rw [subnodes_whole, List.filter_append] at hwhole
  exact hwhole.of_append_left

theorem isLaidOut_of_mem (h : Stand start stop p.items) (hm : m ∈ p.subnodes) : m.IsLaidOut :=
  fun _ hk => isLaidOut_whole h _ (Node.mem_subnodes_trans hk (mem_subnodes_whole hm))

theorem lt_of_mem (h : Stand start stop p.items) (hm : m ∈ p.subnodes) (hblank : m.isBlank = false) :
    m.span.start < m.span.stop := by
  obtain ⟨item, hitem, hm⟩ := List.mem_flatMap.1 hm
  obtain ⟨-, hlt, -⟩ := h.row.mem hitem
  exact (((h.each item hitem).within hlt hm).2.2 hblank).2

theorem order_of_precedes (h : Stand start stop p.items) (hbefore : Precedes p.subnodes m around)
    (hl : l ∈ around.subnodes) (hblank : m.isBlank = false) (hblank' : l.isBlank = false)
    (hfunction : l.isFunction = false) :
    m.span.stop ≤ l.span.start ∨ m ∈ around.subnodes ∨
      ∃ k ∈ p.subnodes, Node.Overtakes m l k := by
  have hwhole : Precedes (p.whole ⟨start, stop⟩).subnodes m around := by
    rw [subnodes_whole]
    exact precedes_append_iff.2 (.inl hbefore)
  rcases (isLaidOut_whole h).order_of_precedes hwhole hl hblank hblank' hfunction with
    hstop | hin | ⟨k, hk, hover⟩
  · exact .inl hstop
  · exact .inr (.inl hin)
  · rw [subnodes_whole, List.mem_append, List.mem_singleton] at hk
    rcases hk with hk | rfl
    · exact .inr (.inr ⟨k, hk, hover⟩)
    · cases hover

theorem parent_unique (h : Stand start stop p.items) (hm : m ∈ p.subnodes) (hl : l ∈ p.subnodes)
    (hk : k ∈ m.parts) (hk' : k ∈ l.parts) (hblank : k.isBlank = false) : m = l :=
  (isLaidOut_whole h).parent_unique (mem_subnodes_whole hm) (mem_subnodes_whole hl) hk hk' hblank

theorem precedes_of_mem (hm : m ∈ p.subnodes) (h : Precedes m.subnodes k l) :
    Precedes p.subnodes k l := by
  obtain ⟨item, hitem, hm⟩ := List.mem_flatMap.1 hm
  obtain ⟨before, after, hitems⟩ := List.append_of_mem hitem
  rw [subnodes, hitems, List.flatMap_append, List.flatMap_cons, precedes_append_iff,
    precedes_append_iff]
  exact .inr (.inr (.inl (Node.precedes_of_mem_subnodes hm h)))

end Program

end Script

namespace Definition
open Script (Node Span Program)

variable {p : Program}

theorem precedes_marksOf {step later : Step} {m m' : Mark} (h : Precedes (stepsOf p) step later)
    (hm : step.mark? = some m) (hm' : later.mark? = some m') : Precedes (marksOf p) m m' := by
  rw [← marks_stepsOf]
  have hmarks := List.Sublist.filterMap Step.mark? h
  rwa [List.filterMap_cons_some hm, List.filterMap_cons_some hm'] at hmarks

end Definition

end MessageCatalog
