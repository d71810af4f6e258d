import MessageCatalog.Compilation
import Mathlib.Data.List.Sort
import Mathlib.Order.Compare

/-! The orders by which files and issues are sorted. The sort of issues is stable, and issues of files
that take no part in a run stand between the others without a tie. -/

namespace MessageCatalog

namespace Text

theorem compareBytes_eq (as bs : List Char) :
    compareBytes as bs = compare (as.map Char.toNat) (bs.map Char.toNat) := by
  induction as generalizing bs with
  | nil => cases bs <;> rfl
  | cons a as ih =>
    cases bs with
    | nil => rfl
    | cons b bs =>
      rw [compareBytes, ih]
      exact List.compareLex_cons_cons.symm

theorem eq_of_compareBytes {as bs : List Char} (h : compareBytes as bs = .eq) : as = bs := by
  rw [compareBytes_eq] at h
  have hinj : Function.Injective Char.toNat := fun a b hab => Char.toNat_inj.1 hab
  exact hinj.list_map (Std.LawfulEqCmp.eq_of_compare h)

end Text

section
variable {α : Type}

theorem isLE_total {cmp : α → α → Ordering} [Std.OrientedCmp cmp] (a b : α) :
    (cmp a b).isLE || (cmp b a).isLE := by
  have hswap : cmp a b = (cmp b a).swap := Std.OrientedCmp.eq_swap
  rw [hswap]
  cases cmp b a <;> rfl

theorem isLE_trans {cmp : α → α → Ordering} [Std.TransCmp cmp] (a b c : α)
    (hab : (cmp a b).isLE) (hbc : (cmp b c).isLE) : (cmp a c).isLE :=
  Std.TransCmp.isLE_trans hab hbc

theorem eq_of_append_eq {q : α → Bool} {xs ys xs' ys' : List α} (h : xs ++ ys = xs' ++ ys')
    (hxs : ∀ b ∈ xs, q b) (hys : ∀ b ∈ ys, ¬ q b) (hxs' : ∀ b ∈ xs', q b)
    (hys' : ∀ b ∈ ys', ¬ q b) : xs = xs' ∧ ys = ys' := by
  have hfilter := congrArg (List.filter q) h
  rw [List.filter_append, List.filter_append, List.filter_eq_self.2 hxs,
    List.filter_eq_nil_iff.2 hys, List.filter_eq_self.2 hxs', List.filter_eq_nil_iff.2 hys',
    List.append_nil, List.append_nil] at hfilter
  subst hfilter
  exact ⟨rfl, List.append_cancel_left h⟩

/-- The place of an element in the sorted list: behind those that go before it, and in front of all
others. -/
theorem exists_mergeSort_cons {le : α → α → Bool} (trans : ∀ a b c, le a b → le b c → le a c)
    (total : ∀ a b, le a b || le b a) (a : α) (l : List α) :
    ∃ before after, (a :: l).mergeSort le = before ++ a :: after ∧
      l.mergeSort le = before ++ after ∧ (∀ b ∈ before, !le a b) ∧ ∀ b ∈ after, le a b := by
  obtain ⟨before, after, hsort, hrest, hless⟩ := List.mergeSort_cons trans total a l
  have hsorted := List.pairwise_mergeSort trans total (a :: l)
  rw [hsort, List.pairwise_append, List.pairwise_cons] at hsorted
  exact ⟨before, after, hsort, hrest, hless, hsorted.2.1.1⟩

theorem filter_mergeSort {le : α → α → Bool} (trans : ∀ a b c, le a b → le b c → le a c)
    (total : ∀ a b, le a b || le b a) (p : α → Bool) (l : List α) :
    (l.mergeSort le).filter p = (l.filter p).mergeSort le := by
  induction l with
  | nil => simp
  | cons a l ih =>
    obtain ⟨before, after, hsort, hrest, hless, hle⟩ := exists_mergeSort_cons trans total a l
    by_cases ha : p a
    · obtain ⟨before', after', hsort', hrest', hless', hle'⟩ :=
        exists_mergeSort_cons trans total a (l.filter p)
      have hsame : before.filter p ++ after.filter p = before' ++ after' := by
        rw [← List.filter_append, ← hrest, ih, hrest']
      obtain ⟨hbefore, hafter⟩ := eq_of_append_eq (q := fun b => !le a b) hsame
        (fun b hb => hless b (List.mem_of_mem_filter hb))
        (fun b hb => by simp [hle b (List.mem_of_mem_filter hb)]) hless'
        (fun b hb => by simp [hle' b hb])
      rw [List.filter_cons_of_pos ha, hsort, hsort', List.filter_append,
        List.filter_cons_of_pos ha, hbefore, hafter]
    · rw [List.filter_cons_of_neg ha, hsort, ← ih, hrest, List.filter_append,
        List.filter_append, List.filter_cons_of_neg ha]

theorem eq_of_filter_eq {le : α → α → Bool} {p : α → Bool} {l l' : List α}
    (hl : l.Pairwise fun a b => le a b) (hl' : l'.Pairwise fun a b => le a b)
    (hapart : ∀ a b, le a b → le b a → p a = p b) (hyes : l.filter p = l'.filter p)
    (hno : (l.filter fun a => !p a) = l'.filter fun a => !p a) : l = l' := by
  have hperm : l.Perm l' := by
    refine (List.filter_append_perm p l).symm.trans ?_
    rw [hyes, hno]
    exact List.filter_append_perm p l'
  induction l generalizing l' with
  | nil => exact (List.nil_perm.1 hperm).symm
  | cons a l ih =>
    cases l' with
    | nil => cases hperm.length_eq
    | cons b l' =>
      obtain ⟨hfirst, hrest⟩ := List.pairwise_cons.1 hl
      obtain ⟨hfirst', hrest'⟩ := List.pairwise_cons.1 hl'
      by_cases hab : a = b
      · subst hab
        have hsame : l = l' := by
          apply ih hrest hrest' _ _ hperm.cons_inv
          · cases ha : p a <;> simpa [ha] using hyes
          · cases ha : p a <;> simpa [ha] using hno
        rw [hsame]
      · -- Each of the two heads stands behind the other, so that they are of one kind.
        have hb : b ∈ l := (List.mem_cons.1 (hperm.symm.subset List.mem_cons_self)).resolve_left
          (Ne.symm hab)
        have ha : a ∈ l' := (List.mem_cons.1 (hperm.subset List.mem_cons_self)).resolve_left hab
        have hkind := hapart a b (hfirst b hb) (hfirst' a ha)
        cases hpa : p a with
        | true => simp [hpa, ← hkind, hab] at hyes
        | false => simp [hpa, ← hkind, hab] at hno

end

instance : Std.TransCmp Text.compareBytes := by
  have hlists : Text.compareBytes = compareOn (List.map Char.toNat) := by
    funext as bs
    exact Text.compareBytes_eq as bs
  rw [hlists]
  infer_instance

def byPath {α : Type} (path : α → String) (a b : α) : Ordering :=
  Text.compareBytes (path a).toList (path b).toList

instance {α : Type} (path : α → String) : Std.TransCmp (byPath path) where
  eq_swap {a b} :=
    Std.OrientedCmp.eq_swap (a := (path a).toList) (b := (path b).toList)
  isLE_trans {a b c} :=
    Std.TransCmp.isLE_trans (a := (path a).toList) (b := (path b).toList) (c := (path c).toList)

theorem eq_of_sortedByPath {α : Type} {path : α → String} {l l' : List α} (hperm : l.Perm l')
    (hl : l.Pairwise fun a b => (byPath path a b).isLE)
    (hl' : l'.Pairwise fun a b => (byPath path a b).isLE) (hdistinct : (l.map path).Nodup) :
    l = l' := by
  refine List.Perm.eq_of_pairwise (fun a b ha hb hab hba => ?_) hl hl' hperm
  have hsame : path a = path b :=
    String.toList_inj.1 (Text.eq_of_compareBytes (Std.OrientedCmp.isLE_antisymm hab hba))
  exact List.inj_on_of_nodup_map hdistinct ha (hperm.mem_iff.2 hb) hsame

namespace Issue

instance : Std.TransCmp order := by
  have hlex : order = compareLex (byPath (·.location.file)) (compareLex
      (compareOn (·.location.line)) (compareLex (compareOn (·.location.column))
        (compareLex (compareOn (·.rule.rank)) (byPath message)))) := rfl
  rw [hlex]
  infer_instance

theorem pairwise_sorted (issues : List Issue) :
    (sorted issues).Pairwise fun a b => (a.order b).isLE :=
  List.pairwise_mergeSort isLE_trans isLE_total issues

theorem filter_sorted (p : Issue → Bool) (issues : List Issue) :
    (sorted issues).filter p = sorted (issues.filter p) :=
  filter_mergeSort isLE_trans isLE_total p issues

theorem eq_of_order_eq {a b : Issue} (h : a.order b = .eq) :
    a.location.file = b.location.file ∧ a.rule.rank = b.rule.rank := by
  simp only [order, Ordering.then_eq_eq] at h
  exact ⟨String.toList_inj.1 (Text.eq_of_compareBytes h.1), Std.LawfulEqCmp.eq_of_compare h.2.2.2.1⟩

end Issue

end MessageCatalog
