import MessageCatalog.Proofs.Alike
import Mathlib.Algebra.GroupWithZero.Nat
import Mathlib.Data.List.Basic

/-! The comments of all files in one map, by position. Where files lie at positions of their own, a
run with that map is the run in which each file has its own comments. -/

namespace MessageCatalog

def Source.size (s : Source) : Nat := (s.text.map Char.utf8Size).sum

namespace Definition
open Script (Node Span)

variable {settings : Settings}

structure SameDocs (s s' : Source) : Prop where
  path : s.path = s'.path
  text : s.text = s'.text
  program : s.program = s'.program
  comments : ∀ site, .site site ∈ stepsOf s.program → ∀ offset ∈ site.docs,
    s.commentsAt offset = s'.commentsAt offset

theorem SameDocs.sameDoc {s s' : Source} (h : SameDocs s s') {site : Site}
    (hsite : .site site ∈ stepsOf s.program) (file : Nat) :
    Surroundings.SameDoc ⟨settings, file, s⟩ ⟨settings, file, s'⟩ site := by
  have hcomments := h.comments site hsite
  unfold Surroundings.SameDoc Surroundings.docCommentAt
  dsimp only
  generalize site.docs = docs at hcomments
  induction docs with
  | nil => rfl
  | cons offset docs ih =>
    rw [List.forall_mem_cons] at hcomments
    rw [List.findSome?_cons, List.findSome?_cons, hcomments.1, ih hcomments.2]

theorem SameDocs.performAll_eq {s s' : Source} (h : SameDocs s s') (file : Nat) (state : State) :
    performAll ⟨settings, file, s⟩ (stepsOf s.program) state =
      performAll ⟨settings, file, s'⟩ (stepsOf s'.program) state := by
  have halike : Surroundings.Alike ⟨settings, file, s⟩ ⟨settings, file, s'⟩ :=
    ⟨h.path, h.text, rfl, rfl, rfl⟩
  rw [performAll, performAll, ← h.program]
  apply List.foldl_ext
  intro state step hstep
  apply halike.perform_eq rfl rfl state
  rintro site rfl
  exact h.sameDoc hstep file

section
variable {α : Type} {l : List α} {f g : α → Source} (h : ∀ x ∈ l, SameDocs (f x) (g x))
include h

theorem visitSources_map (file : Nat) (state : State) :
    visitSources settings file state (l.map f) = visitSources settings file state (l.map g) := by
  induction l generalizing file state with
  | nil => rfl
  | cons x rest ih =>
    rw [List.forall_mem_cons] at h
    simp only [List.map_cons, visitSources]
    rw [h.1.performAll_eq, ih h.2]

theorem globalNames_map (externs : List Source) (unreadable : List Unreadable) :
    globalNames ⟨externs, l.map f, unreadable⟩ = globalNames ⟨externs, l.map g, unreadable⟩ := by
  have hprograms : (l.map f).map Source.program = (l.map g).map Source.program := by
    rw [List.map_map, List.map_map]
    exact List.map_congr_left fun x hx => (h x hx).program
  have hnames : ∀ sources : List Source,
      (sources.filter (!·.program.isModule)).flatMap (·.program.topNames) =
        ((sources.map Source.program).filter (!·.isModule)).flatMap (·.topNames) := by
    intro sources
    rw [List.filter_map, List.flatMap_map]
    rfl
  unfold globalNames
  rw [hnames, hnames, hprograms]

theorem orphanEvents_map (call : CallSite) :
    orphanEvents settings (l.map f) call = orphanEvents settings (l.map g) call := by
  unfold orphanEvents
  rw [List.getElem?_map, List.getElem?_map]
  cases hx : l[call.file]? with
  | none => rfl
  | some x =>
    have hsame := h x (List.mem_of_getElem? hx)
    have halike : Surroundings.Alike ⟨settings, call.file, f x⟩ ⟨settings, call.file, g x⟩ :=
      ⟨hsame.path, hsame.text, rfl, rfl, rfl⟩
    simp only [Option.map_some, halike.contextAt]

theorem run_map (settings : Settings) (externs : List Source) (unreadable : List Unreadable) :
    run settings ⟨externs, l.map f, unreadable⟩ = run settings ⟨externs, l.map g, unreadable⟩ := by
  have hreports : orphanEvents settings (l.map f) = orphanEvents settings (l.map g) := by
    funext call
    exact orphanEvents_map h call
  unfold run
  dsimp only
  rw [globalNames_map h, visitSources_map h, hreports]

end

abbrev Layout := List (Nat × Source)

namespace Layout

def sources (l : Layout) : List Source := l.map Prod.snd

def comments (l : Layout) : List (Nat × String) :=
  l.flatMap fun (base, s) => s.comments.map fun (offset, text) => (base + offset, text)

/-- The source as one sees it that begins at `base`, with the comments of all files. -/
def view (l : Layout) (base : Nat) (s : Source) : Source :=
  { s with
    comments := l.comments.filterMap fun (position, text) =>
      if base ≤ position then some (position - base, text) else none }

def views (l : Layout) : List Source := l.map fun (base, s) => l.view base s

structure Disjoint (l : Layout) : Prop where
  apart : l.Pairwise fun a b => a.1 + a.2.size < b.1
  comments : ∀ base s, (base, s) ∈ l → ∀ comment ∈ s.comments, comment.1 ≤ s.size
  docs : ∀ base s, (base, s) ∈ l → ∀ site, .site site ∈ stepsOf s.program →
    ∀ offset ∈ site.docs, offset ≤ s.size

def textsAt (position : Nat) (placed : Nat × Source) : List String :=
  (placed.2.comments.filter (placed.1 + ·.1 = position)).map (·.2)

theorem textsAt_self (base : Nat) (s : Source) (offset : Nat) :
    textsAt (base + offset) (base, s) = s.commentsAt offset := by
  simp only [textsAt, Source.commentsAt, Nat.add_left_cancel_iff]

theorem textsAt_eq (base offset : Nat) (placed : Nat × Source) :
    textsAt (base + offset) placed =
      (((placed.2.comments.map fun (offset', text) => (placed.1 + offset', text)).filterMap
        fun (position, text) =>
          if base ≤ position then some (position - base, text) else none).filter
            (·.1 = offset)).map (·.2) := by
  rw [textsAt, List.filterMap_map, List.filter_filterMap, List.map_filterMap,
    ← List.filterMap_eq_filter, List.map_filterMap]
  apply List.filterMap_congr
  rintro ⟨offset', text⟩ -
  by_cases hbase : base ≤ placed.1 + offset'
  · have hposition : placed.1 + offset' - base = offset ↔ placed.1 + offset' = base + offset := by
      omega
    simp [hbase, Option.filter, Option.guard, hposition, apply_ite (Option.map _)]
  · have hposition : placed.1 + offset' ≠ base + offset := by omega
    simp [hbase, Option.filter, Option.guard, hposition]

theorem commentsAt_view (l : Layout) (base : Nat) (s : Source) (offset : Nat) :
    (l.view base s).commentsAt offset = l.flatMap (textsAt (base + offset)) := by
  unfold Source.commentsAt view comments
  dsimp only
  rw [List.filterMap_flatMap, List.filter_flatMap, List.map_flatMap]
  exact List.flatMap_congr fun placed _ => (textsAt_eq base offset placed).symm

variable {l : Layout}

theorem textsAt_of_apart {base position : Nat} {s : Source}
    (hinside : ∀ comment ∈ s.comments, comment.1 ≤ s.size)
    (hapart : base + s.size < position ∨ position < base) : textsAt position (base, s) = [] := by
  rw [textsAt, List.map_eq_nil_iff, List.filter_eq_nil_iff]
  intro comment hcomment hposition
  have hend := hinside comment hcomment
  rw [decide_eq_true_iff] at hposition
  omega

theorem commentsAt_of_disjoint (h : l.Disjoint) {base : Nat} {s : Source} (hmem : (base, s) ∈ l)
    {offset : Nat} (hoffset : offset ≤ s.size) :
    (l.view base s).commentsAt offset = s.commentsAt offset := by
  obtain ⟨before, after, rfl⟩ := List.append_of_mem hmem
  have hpairs := h.apart
  rw [List.pairwise_append, List.pairwise_cons] at hpairs
  obtain ⟨-, ⟨hlater, -⟩, hearlier⟩ := hpairs
  -- No other file has anything at a position of this one.
  have hbefore : before.flatMap (textsAt (base + offset)) = [] := by
    rw [List.flatMap_eq_nil_iff]
    rintro ⟨base', s'⟩ hmem'
    have hapart : base' + s'.size < base := hearlier _ hmem' _ (List.mem_cons_self ..)
    apply textsAt_of_apart (h.comments base' s' (List.mem_append_left _ hmem'))
    omega
  have hafter : after.flatMap (textsAt (base + offset)) = [] := by
    rw [List.flatMap_eq_nil_iff]
    rintro ⟨base', s'⟩ hmem'
    have hapart : base + s.size < base' := hlater _ hmem'
    have hmem'' : (base', s') ∈ before ++ (base, s) :: after :=
      List.mem_append_right _ (List.mem_cons_of_mem _ hmem')
    apply textsAt_of_apart (h.comments base' s' hmem'')
    omega
  rw [commentsAt_view, List.flatMap_append, List.flatMap_cons, hbefore, hafter, List.append_nil,
    List.nil_append, textsAt_self]

theorem run_views (h : l.Disjoint) (settings : Settings) (externs : List Source)
    (unreadable : List Unreadable) :
    run settings ⟨externs, l.views, unreadable⟩ =
      run settings ⟨externs, l.sources, unreadable⟩ := by
  apply run_map
  rintro ⟨base, s⟩ hmem
  refine ⟨rfl, rfl, rfl, ?_⟩
  intro site hsite offset hoffset
  exact commentsAt_of_disjoint h hmem (h.docs base s hmem site hsite offset hoffset)

end Layout

end Definition

end MessageCatalog
