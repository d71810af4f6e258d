import Mathlib.Data.List.Basic
import Mathlib.Tactic.SplitIfs
import MessageCatalog.Text.Blank

/-! Text cut at separators, and text cut into words: what the cuts of a joined text are. -/

namespace MessageCatalog.Text

theorem splitAt_ne_nil (sep : Char) (cs : List Char) : splitAt sep cs ≠ [] := by
  cases cs with
  | nil => simp [splitAt]
  | cons c cs =>
    rw [splitAt]
    split_ifs
    · simp
    · split <;> simp

theorem splitAt_append (sep : Char) (as bs : List Char) :
    splitAt sep (as ++ sep :: bs) = splitAt sep as ++ splitAt sep bs := by
  induction as with
  | nil => simp [splitAt]
  | cons c cs ih =>
    rw [List.cons_append, splitAt, splitAt, ih]
    split_ifs
    · rfl
    · cases hcs : splitAt sep cs with
      | nil => exact absurd hcs (splitAt_ne_nil sep cs)
      | cons w ws => rfl

theorem splitAt_of_not_mem {sep : Char} {cs : List Char} (h : sep ∉ cs) :
    splitAt sep cs = [cs] := by
  induction cs with
  | nil => rfl
  | cons c cs ih =>
    rw [List.mem_cons, not_or] at h
    rw [splitAt, if_neg (Ne.symm h.1), ih h.2]

theorem exists_of_splitAt_cons {sep : Char} {cs w : List Char} {ws : List (List Char)}
    (h : splitAt sep cs = w :: ws) (hne : ws ≠ []) : ∃ rest, cs = w ++ sep :: rest := by
  induction cs generalizing w with
  | nil =>
    cases h
    exact absurd rfl hne
  | cons c cs ih =>
    obtain ⟨v, vs, hsplit⟩ := List.exists_cons_of_ne_nil (splitAt_ne_nil sep cs)
    rw [splitAt, hsplit] at h
    split_ifs at h with hc
    · cases h
      exact ⟨cs, by rw [hc, List.nil_append]⟩
    · cases h
      obtain ⟨rest, rfl⟩ := ih hsplit
      exact ⟨rest, rfl⟩

theorem dropBlank_append {gap : List Char} (h : ∀ c ∈ gap, isBlank c) (cs : List Char) :
    dropBlank (gap ++ cs) = dropBlank cs := by
  induction gap with
  | nil => rfl
  | cons c gap ih =>
    obtain ⟨hc, hgap⟩ := List.forall_mem_cons.1 h
    rw [List.cons_append, dropBlank, if_pos hc, ih hgap]

theorem dropBlank_of_head? {cs : List Char} (h : ∀ c ∈ cs.head?, ¬ isBlank c) :
    dropBlank cs = cs := by
  cases cs with
  | nil => rfl
  | cons c cs => rw [dropBlank, if_neg (h c rfl)]

theorem runs_cons_of_not {p : Char → Bool} {c : Char} (h : ¬ p c) (cs : List Char) :
    runs p (c :: cs) = runs p cs := by
  cases cs <;> simp [runs, h]

theorem runs_append {p : Char → Bool} {w : List Char} (hw : w ≠ []) (hp : ∀ c ∈ w, p c)
    {cs : List Char} (hend : ∀ c ∈ cs.head?, ¬ p c) : runs p (w ++ cs) = w :: runs p cs := by
  induction w with
  | nil => exact absurd rfl hw
  | cons c w ih =>
    obtain ⟨hc, hrest⟩ := List.forall_mem_cons.1 hp
    cases w with
    | nil =>
      cases cs with
      | nil => simp [runs, hc]
      | cons d cs => simp [runs, hc, hend d rfl]
    | cons d w =>
      have hrun : runs p (d :: (w ++ cs)) = (d :: w) :: runs p cs := ih (by simp) hrest
      rw [List.cons_append, List.cons_append, runs.eq_def]
      simp only [hc, hrest d List.mem_cons_self, if_true, hrun]

theorem words_gap_append {gap : List Char} (h : ∀ c ∈ gap, isBlank c) (cs : List Char) :
    words (gap ++ cs) = words cs := by
  induction gap with
  | nil => rfl
  | cons c gap ih =>
    obtain ⟨hc, hgap⟩ := List.forall_mem_cons.1 h
    rw [List.cons_append, words, runs_cons_of_not (by simp [hc])]
    exact ih hgap

theorem words_word_append {w : List Char} (hw : w ≠ []) (hblank : ∀ c ∈ w, ¬ isBlank c)
    {cs : List Char} (hend : ∀ c ∈ cs.head?, isBlank c) : words (w ++ cs) = w :: words cs :=
  runs_append hw (fun c hc => by simpa using hblank c hc) fun c hc => by simpa using hend c hc

end MessageCatalog.Text
