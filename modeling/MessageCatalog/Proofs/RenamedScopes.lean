import MessageCatalog.Scope
import Mathlib.Data.List.Basic
import Mathlib.Tactic.SplitIfs

/-! Scopes under other names: as long as each name keeps to its own new name, the bindings stay the
same. -/

namespace MessageCatalog

namespace Table
variable {α : Type}

def rename (ρ : String → String) (t : Table String α) : Table String α :=
  ⟨t.entries.map fun (key, value) => (ρ key, value)⟩

def KeysIn (names : List String) (t : Table String α) : Prop := ∀ e ∈ t.entries, e.1 ∈ names

theorem find?_rename {ρ : String → String} {names : List String}
    (hinj : ∀ x ∈ names, ∀ y ∈ names, ρ x = ρ y → x = y) {t : Table String α}
    (ht : t.KeysIn names) {x : String} (hx : x ∈ names) :
    (t.rename ρ).find? (ρ x) = t.find? x := by
  obtain ⟨entries⟩ := t
  unfold find? rename
  dsimp only
  induction entries with
  | nil => rfl
  | cons e es ih =>
    obtain ⟨hkey, hkeys⟩ := List.forall_mem_cons.1 ht
    rw [List.map_cons, get, get]
    have hiff : ρ e.1 = ρ x ↔ e.1 = x := ⟨hinj _ hkey _ hx, congrArg ρ⟩
    rw [ih hkeys]
    simp only [hiff]

theorem find?_eq_none_of_not_mem {names : List String} {t : Table String α} (ht : t.KeysIn names)
    {x : String} (hx : x ∉ names) : t.find? x = none := by
  obtain ⟨entries⟩ := t
  unfold find?
  dsimp only
  induction entries with
  | nil => rfl
  | cons e es ih =>
    obtain ⟨hkey, hkeys⟩ := List.forall_mem_cons.1 ht
    have hne : e.1 ≠ x := fun heq => hx (heq ▸ hkey)
    rw [get, if_neg hne, ih hkeys]

theorem insert_rename {ρ : String → String} {names : List String}
    (hinj : ∀ x ∈ names, ∀ y ∈ names, ρ x = ρ y → x = y) {t : Table String α}
    (ht : t.KeysIn names) {x : String} (hx : x ∈ names) (value : α) :
    (t.rename ρ).insert (ρ x) value = (t.insert x value).rename ρ := by
  obtain ⟨entries⟩ := t
  unfold insert rename
  dsimp only
  congr 1
  induction entries with
  | nil => rfl
  | cons e es ih =>
    obtain ⟨hkey, hkeys⟩ := List.forall_mem_cons.1 ht
    have hiff : ρ e.1 = ρ x ↔ e.1 = x := ⟨hinj _ hkey _ hx, congrArg ρ⟩
    rw [List.map_cons, put, put, ih hkeys]
    simp only [hiff]
    split_ifs <;> rfl

theorem KeysIn.insert {names : List String} {t : Table String α} (ht : t.KeysIn names) {x : String}
    (hx : x ∈ names) (value : α) : (t.insert x value).KeysIn names := by
  obtain ⟨entries⟩ := t
  unfold Table.insert KeysIn
  dsimp only
  induction entries with
  | nil => simpa [put] using hx
  | cons e es ih =>
    obtain ⟨hkey, hkeys⟩ := List.forall_mem_cons.1 ht
    rw [put]
    split_ifs
    · exact List.forall_mem_cons.2 ⟨hkey, hkeys⟩
    · exact List.forall_mem_cons.2 ⟨hkey, ih hkeys⟩

end Table

namespace Scopes

def rename (ρ : String → String) (s : Scopes) : Scopes where
  inner := s.inner.map (Table.rename ρ)
  global := s.global.rename ρ
  next := s.next

structure NamesIn (names : List String) (s : Scopes) : Prop where
  inner : ∀ scope ∈ s.inner, scope.KeysIn names
  global : s.global.KeysIn names

variable {ρ : String → String} {names : List String} {s : Scopes}

theorem NamesIn.enter (h : s.NamesIn names) : s.enter.NamesIn names where
  inner := List.forall_mem_cons.2 ⟨by simp [Table.KeysIn, Table.empty], h.inner⟩
  global := h.global

theorem NamesIn.exit (h : s.NamesIn names) : s.exit.NamesIn names where
  inner scope hscope := h.inner scope (List.mem_of_mem_tail hscope)
  global := h.global

theorem enter_rename (s : Scopes) : (s.rename ρ).enter = s.enter.rename ρ := rfl

theorem exit_rename (s : Scopes) : (s.rename ρ).exit = s.exit.rename ρ := by
  simp [exit, rename, List.map_tail]

theorem NamesIn.declare (h : s.NamesIn names) {x : String} (hx : x ∈ names) :
    (s.declare x).NamesIn names := by
  unfold Scopes.declare
  split_ifs
  · exact h
  · obtain ⟨inner, global, next⟩ := s
    cases inner with
    | nil => exact ⟨h.inner, h.global.insert hx _⟩
    | cons scope rest =>
      obtain ⟨hscope, hrest⟩ := List.forall_mem_cons.1 h.inner
      exact ⟨List.forall_mem_cons.2 ⟨hscope.insert hx _, hrest⟩, h.global⟩

theorem NamesIn.declareAll (h : s.NamesIn names) {xs : List String} (hxs : xs ⊆ names) :
    (s.declareAll xs).NamesIn names := by
  induction xs generalizing s with
  | nil => exact h
  | cons x xs ih =>
    obtain ⟨hx, hxs⟩ := List.cons_subset.1 hxs
    exact ih (h.declare hx) hxs

variable (hinj : ∀ x ∈ names, ∀ y ∈ names, ρ x = ρ y → x = y)
include hinj

theorem declare_rename (h : s.NamesIn names) {x : String} (hx : x ∈ names) :
    (s.rename ρ).declare (ρ x) = (s.declare x).rename ρ := by
  obtain ⟨inner, global, next⟩ := s
  cases inner with
  | nil =>
    have hfind := Table.find?_rename hinj h.global hx
    have hinsert := Table.insert_rename hinj h.global hx (⟨next⟩ : Binding)
    cases hcontains : (global.find? x).isSome <;>
      simp [declare, rename, innermost, setInnermost, Table.contains, hfind, hinsert, hcontains]
  | cons scope rest =>
    have hscope := h.inner scope List.mem_cons_self
    have hfind := Table.find?_rename hinj hscope hx
    have hinsert := Table.insert_rename hinj hscope hx (⟨next⟩ : Binding)
    cases hcontains : (scope.find? x).isSome <;>
      simp [declare, rename, innermost, setInnermost, Table.contains, hfind, hinsert, hcontains]

theorem declareAll_rename (h : s.NamesIn names) {xs : List String} (hxs : xs ⊆ names) :
    (s.rename ρ).declareAll (xs.map ρ) = (s.declareAll xs).rename ρ := by
  induction xs generalizing s with
  | nil => rfl
  | cons x xs ih =>
    obtain ⟨hx, hxs⟩ := List.cons_subset.1 hxs
    have hdeclare := declare_rename hinj h hx
    have hrest := ih (h.declare hx) hxs
    rw [← hdeclare] at hrest
    exact hrest

theorem resolve_rename (h : s.NamesIn names) {x : String} (hx : x ∈ names) :
    (s.rename ρ).resolve (ρ x) = s.resolve x := by
  have hglobal := Table.find?_rename hinj h.global hx
  have hinner : ∀ scopes : List (Table String Binding), (∀ scope ∈ scopes, scope.KeysIn names) →
      (scopes.map (Table.rename ρ)).findSome? (·.find? (ρ x)) = scopes.findSome? (·.find? x) := by
    intro scopes hscopes
    induction scopes with
    | nil => rfl
    | cons scope rest ih =>
      obtain ⟨hscope, hrest⟩ := List.forall_mem_cons.1 hscopes
      simp only [List.map_cons, List.findSome?_cons, Table.find?_rename hinj hscope hx, ih hrest]
  simp only [resolve, rename, List.findSome?_append, hinner s.inner h.inner]
  simp [hglobal]

omit hinj in
theorem resolve_eq_none (h : s.NamesIn names) {x : String} (hx : x ∉ names) :
    s.resolve x = none := by
  rw [resolve, List.findSome?_eq_none_iff]
  intro scope hscope
  rcases List.mem_append.1 hscope with hscope | hscope
  · exact Table.find?_eq_none_of_not_mem (h.inner scope hscope) hx
  · rw [List.mem_singleton.1 hscope]
    exact Table.find?_eq_none_of_not_mem h.global hx

omit hinj in
theorem NamesIn.rename (h : s.NamesIn names) : (s.rename ρ).NamesIn (names.map ρ) := by
  have hkeys : ∀ {scope : Table String Binding}, scope.KeysIn names →
      (scope.rename ρ).KeysIn (names.map ρ) := by
    intro scope hscope e he
    obtain ⟨entry, hentry, rfl⟩ := List.mem_map.1 he
    exact List.mem_map_of_mem (hscope entry hentry)
  refine ⟨fun scope hscope => ?_, hkeys h.global⟩
  obtain ⟨inner, hinner, rfl⟩ := List.mem_map.1 hscope
  exact hkeys (h.inner inner hinner)

end Scopes

end MessageCatalog
