import Mathlib.Data.List.Induction
import MessageCatalog.Message.DocComment
import MessageCatalog.Proofs.Words

/-! Documentation comments say what their words say, however the words are laid out on lines. -/

namespace MessageCatalog.DocComment

open Text

def IsGap (cs : List Char) : Prop := ∀ c ∈ cs, isBlank c ∧ c ≠ '\n'

instance (cs : List Char) : Decidable (IsGap cs) :=
  decidable_of_iff (cs.all fun c => isBlank c && c != '\n') (by simp [IsGap])

structure IsWord (w : List Char) : Prop where
  ne_nil : w ≠ []
  not_blank : ∀ c ∈ w, ¬ isBlank c
  no_star : w.head? ≠ some '*'

instance (w : List Char) : Decidable (IsWord w) :=
  decidable_of_iff (w ≠ [] ∧ w.all (fun c => !isBlank c) ∧ w.head? ≠ some '*')
    ⟨fun ⟨h₁, h₂, h₃⟩ => ⟨h₁, by simpa using h₂, h₃⟩,
      fun ⟨h₁, h₂, h₃⟩ => ⟨h₁, by simpa using h₂, h₃⟩⟩

inductive Row : List (List Char) → List Char → Prop where
  | nil : Row [] []
  | cons {w gap : List Char} {ws : List (List Char)} {cs : List Char} (hw : IsWord w)
      (hgap : IsGap gap) (hne : ws ≠ [] → gap ≠ []) (hrow : Row ws cs) :
      Row (w :: ws) (w ++ gap ++ cs)

inductive Line : List (List Char) → List Char → Prop where
  | intro {indent gap row : List Char} {ws : List (List Char)} (stars : Nat)
      (hindent : IsGap indent) (hgap : IsGap gap) (hrow : Row ws row) :
      Line ws (indent ++ (List.replicate stars '*' ++ (gap ++ row)))

/-- Words laid out on any number of lines. -/
inductive LaidOut : List (List Char) → List Char → Prop where
  | last {ws : List (List Char)} {l : List Char} (hl : Line ws l) : LaidOut ws l
  | line {ws ws' : List (List Char)} {l cs : List Char} (hl : Line ws l) (hcs : LaidOut ws' cs) :
      LaidOut (ws ++ ws') (l ++ '\n' :: cs)

theorem IsGap.not_newline {cs : List Char} (h : IsGap cs) : '\n' ∉ cs := fun hc => (h _ hc).2 rfl

theorem IsWord.not_newline {w : List Char} (h : IsWord w) : '\n' ∉ w :=
  fun hc => h.not_blank _ hc (by decide)

variable {ws : List (List Char)} {cs l : List Char}

theorem Row.head? (h : Row ws cs) : ∀ c ∈ cs.head?, ¬ isBlank c ∧ c ≠ '*' := by
  cases h with
  | nil => simp
  | @cons w _ _ _ hw _ _ _ =>
    obtain ⟨d, w, rfl⟩ := List.exists_cons_of_ne_nil hw.ne_nil
    rintro c ⟨⟩
    exact ⟨hw.not_blank _ List.mem_cons_self, fun hc => hw.no_star (by rw [hc]; rfl)⟩

theorem Row.isWord (h : Row ws cs) : ∀ w ∈ ws, IsWord w := by
  induction h with
  | nil => simp
  | cons hw _ _ _ ih => exact List.forall_mem_cons.2 ⟨hw, ih⟩

theorem exists_row (h : ∀ w ∈ ws, IsWord w) : ∃ cs, Row ws cs := by
  induction ws with
  | nil => exact ⟨[], .nil⟩
  | cons w ws ih =>
    obtain ⟨hw, hws⟩ := List.forall_mem_cons.1 h
    obtain ⟨cs, hrow⟩ := ih hws
    exact ⟨_, @Row.cons w [' '] ws cs hw (by decide) (by simp) hrow⟩

theorem exists_laidOut_iff : (∃ body, LaidOut ws body) ↔ ∀ w ∈ ws, IsWord w := by
  constructor
  · rintro ⟨body, h⟩
    induction h with
    | last hl =>
      obtain ⟨_, _, _, hrow⟩ := hl
      exact hrow.isWord
    | line hl _ ih =>
      obtain ⟨_, _, _, hrow⟩ := hl
      exact List.forall_mem_append.2 ⟨hrow.isWord, ih⟩
  · intro h
    obtain ⟨row, hrow⟩ := exists_row h
    exact ⟨_, .last (@Line.intro [] [] row ws 0 (by decide) (by decide) hrow)⟩

theorem Row.not_newline (h : Row ws cs) : '\n' ∉ cs := by
  induction h with
  | nil => simp
  | cons hw hgap _ _ ih => simp [hw.not_newline, hgap.not_newline, ih]

theorem Row.words_eq (h : Row ws cs) : words cs = ws := by
  induction h with
  | nil => rfl
  | @cons w gap ws cs hw hgap hne hrow ih =>
    -- after the word comes its gap; without one there are no words left
    have hend : ∀ c ∈ (gap ++ cs).head?, isBlank c := by
      cases gap with
      | cons c gap =>
        rintro _ ⟨⟩
        exact (hgap c List.mem_cons_self).1
      | nil =>
        have hws : ws = [] := by
          by_contra hws
          exact hne hws rfl
        subst hws
        cases hrow
        simp
    rw [List.append_assoc, words_word_append hw.ne_nil hw.not_blank hend,
      words_gap_append fun c hc => (hgap c hc).1, ih]

theorem Line.not_newline (h : Line ws l) : '\n' ∉ l := by
  obtain ⟨stars, hindent, hgap, hrow⟩ := h
  simp [hindent.not_newline, hgap.not_newline, hrow.not_newline, List.mem_replicate]

theorem dropStars_replicate_append (stars : Nat) (h : ∀ c ∈ cs.head?, c ≠ '*') :
    dropStars (List.replicate stars '*' ++ cs) = cs := by
  induction stars with
  | zero =>
    cases cs with
    | nil => rfl
    | cons c cs => exact if_neg (h c rfl)
  | succ stars ih => exact ih

theorem Line.words_eq (h : Line ws l) : words (dropStars (dropBlank l)) = ws := by
  obtain @⟨indent, gap, row, _, stars, hindent, hgap, hrow⟩ := h
  have hhead : ∀ c ∈ (gap ++ row).head?, c ≠ '*' := by
    cases gap with
    | nil => exact fun c hc => (hrow.head? c hc).2
    | cons d gap =>
      rintro c ⟨⟩ rfl
      exact absurd (hgap '*' List.mem_cons_self).1 (by decide)
  rw [dropBlank_append fun c hc => (hindent c hc).1]
  cases stars with
  | zero =>
    -- no star stops the trimming, so the gap goes too
    have hrest : dropStars row = row :=
      dropStars_replicate_append 0 fun c hc => (hrow.head? c hc).2
    rw [List.replicate_zero, List.nil_append, dropBlank_append fun c hc => (hgap c hc).1,
      dropBlank_of_head? fun c hc => (hrow.head? c hc).1, hrest, hrow.words_eq]
  | succ stars =>
    rw [dropBlank_of_head? (by rintro c ⟨⟩; decide), dropStars_replicate_append _ hhead,
      words_gap_append fun c hc => (hgap c hc).1, hrow.words_eq]

theorem wordsOf_line (h : Line ws l) : wordsOf l = ws := by
  rw [wordsOf, splitAt_of_not_mem h.not_newline, List.flatMap_singleton, h.words_eq]

theorem wordsOf_append (l cs : List Char) :
    wordsOf (l ++ '\n' :: cs) = wordsOf l ++ wordsOf cs := by
  rw [wordsOf, splitAt_append, List.flatMap_append, wordsOf, wordsOf]

theorem wordsOf_laidOut {body : List Char} (h : LaidOut ws body) : wordsOf body = ws := by
  induction h with
  | last hl => exact wordsOf_line hl
  | line hl _ ih => rw [wordsOf_append, wordsOf_line hl, ih]

def IsTag (w : List Char) : Prop := ∃ c r, w = '@' :: c :: r ∧ c.isAlpha

theorem tag?_eq_some_iff {w tag : List Char} : tag? w = some tag ↔ w = '@' :: tag ∧ IsTag w := by
  constructor
  · intro h
    unfold tag? at h
    split at h
    · next c r =>
      split_ifs at h with hc
      cases h
      exact ⟨rfl, c, r, rfl, by rw [Name.isAlpha_eq, hc]⟩
    · cases h
  · rintro ⟨rfl, c, r, h, hc⟩
    cases h
    rw [tag?, if_pos (by rw [← Name.isAlpha_eq, hc])]

theorem tag?_eq_none_iff {w : List Char} : tag? w = none ↔ ¬ IsTag w := by
  constructor
  · rintro h ⟨c, r, rfl, hc⟩
    have htag := tag?_eq_some_iff.2 ⟨rfl, c, r, rfl, hc⟩
    rw [h] at htag
    cases htag
  · intro h
    cases htag : tag? w with
    | none => rfl
    | some tag => exact absurd (tag?_eq_some_iff.1 htag).2 h

def Block.allWords (b : Block) : List (List Char) := ('@' :: b.tag) :: b.words

structure IsCut (ws lead : List (List Char)) (bs : List Block) : Prop where
  whole : lead ++ bs.flatMap Block.allWords = ws
  lead_untagged : ∀ w ∈ lead, ¬ IsTag w
  tagged : ∀ b ∈ bs, IsTag ('@' :: b.tag)
  untagged : ∀ b ∈ bs, ∀ w ∈ b.words, ¬ IsTag w

theorem blocks_append {lead : List (List Char)} (h : ∀ w ∈ lead, ¬ IsTag w)
    (ws : List (List Char)) : blocks (lead ++ ws) = (lead ++ (blocks ws).1, (blocks ws).2) := by
  induction lead with
  | nil => rfl
  | cons w lead ih =>
    obtain ⟨hw, hlead⟩ := List.forall_mem_cons.1 h
    rw [List.cons_append, blocks, ih hlead]
    simp only [tag?_eq_none_iff.2 hw, List.cons_append]

theorem blocks_allWords {bs : List Block} (htag : ∀ b ∈ bs, IsTag ('@' :: b.tag))
    (hwords : ∀ b ∈ bs, ∀ w ∈ b.words, ¬ IsTag w) :
    blocks (bs.flatMap Block.allWords) = ([], bs) := by
  induction bs with
  | nil => rfl
  | cons b bs ih =>
    obtain ⟨hb, htag⟩ := List.forall_mem_cons.1 htag
    obtain ⟨hws, hwords⟩ := List.forall_mem_cons.1 hwords
    rw [List.flatMap_cons, Block.allWords, List.cons_append, blocks, blocks_append hws,
      ih htag hwords]
    simp only [tag?_eq_some_iff.2 ⟨rfl, hb⟩, List.append_nil]

theorem isCut_blocks (ws : List (List Char)) : IsCut ws (blocks ws).1 (blocks ws).2 := by
  induction ws with
  | nil => exact ⟨rfl, by simp [blocks], by simp [blocks], by simp [blocks]⟩
  | cons w ws ih =>
    cases htag : tag? w with
    | none =>
      have hw := tag?_eq_none_iff.1 htag
      simp only [blocks, htag]
      exact ⟨by rw [List.cons_append, ih.whole], List.forall_mem_cons.2 ⟨hw, ih.lead_untagged⟩,
        ih.tagged, ih.untagged⟩
    | some tag =>
      -- a tag starts a block, which takes the words up to the next one
      obtain ⟨rfl, hw⟩ := tag?_eq_some_iff.1 htag
      simp only [blocks, htag]
      exact ⟨congrArg (('@' :: tag) :: ·) ih.whole, by simp,
        List.forall_mem_cons.2 ⟨hw, ih.tagged⟩,
        List.forall_mem_cons.2 ⟨ih.lead_untagged, ih.untagged⟩⟩

theorem isCut_iff {lead : List (List Char)} {bs : List Block} :
    IsCut ws lead bs ↔ lead = (blocks ws).1 ∧ bs = (blocks ws).2 := by
  constructor
  · intro h
    rw [← h.whole, blocks_append h.lead_untagged, blocks_allWords h.tagged h.untagged]
    exact ⟨(List.append_nil lead).symm, rfl⟩
  · rintro ⟨rfl, rfl⟩
    exact isCut_blocks ws

def lastText? (p : Block → Prop) [DecidablePred p] (bs : List Block) : Option String :=
  (bs.filter p).getLast?.map Block.text

theorem lastText?_concat (p : Block → Prop) [DecidablePred p] (bs : List Block) (b : Block) :
    lastText? p (bs ++ [b]) = if p b then some b.text else lastText? p bs := by
  by_cases hb : p b <;> simp [lastText?, List.filter_append, hb]

def described (bs : List Block) : DocComment where
  desc := lastText? (fun b => b.tag = "desc".toList) bs
  meaning := lastText? (fun b => b.tag = "meaning".toList ∧ b.words ≠ []) bs
  alternateId := lastText? (fun b => b.tag = "alternateMessageId".toList ∧ b.words ≠ []) bs
  hidden := decide (∃ b ∈ bs, b.tag = "hidden".toList)

theorem addBlock_eq (doc : DocComment) (b : Block) : addBlock doc b =
    { desc := if b.tag = "desc".toList then some b.text else doc.desc
      meaning := if b.tag = "meaning".toList ∧ b.words ≠ [] then some b.text else doc.meaning
      alternateId := if b.tag = "alternateMessageId".toList ∧ b.words ≠ [] then some b.text
        else doc.alternateId
      hidden := decide (doc.hidden ∨ b.tag = "hidden".toList) } := by
  unfold addBlock
  by_cases hdesc : b.tag = "desc".toList
  · simp [hdesc]
  by_cases hmeaning : b.tag = "meaning".toList
  · by_cases hws : b.words = [] <;> simp [hmeaning, hws]
  by_cases hid : b.tag = "alternateMessageId".toList
  · by_cases hws : b.words = [] <;> simp [hid, hws]
  by_cases hhidden : b.tag = "hidden".toList
  · simp [hhidden]
  · simp only [hdesc, hmeaning, hid, hhidden, false_and, or_false, if_false, Bool.decide_eq_true]

theorem described_concat (bs : List Block) (b : Block) :
    described (bs ++ [b]) = addBlock (described bs) b := by
  have hhidden : (∃ b' ∈ bs ++ [b], b'.tag = "hidden".toList) ↔
      (∃ b' ∈ bs, b'.tag = "hidden".toList) ∨ b.tag = "hidden".toList := by
    simp only [List.mem_append, List.mem_singleton, or_and_right, exists_or, exists_eq_left]
  simp only [addBlock_eq, described, lastText?_concat, hhidden, decide_eq_true_eq]

theorem foldl_addBlock (bs : List Block) : bs.foldl addBlock {} = described bs := by
  induction bs using List.reverseRecOn with
  | nil => rfl
  | append_singleton bs b ih => rw [List.foldl_concat, ih, described_concat]

theorem ofComment?_block (body : List Char) :
    ofComment? (.block (String.ofList ('*' :: body))) =
      some (described (blocks (wordsOf body)).2) := by
  simp only [ofComment?, String.toList_ofList, foldl_addBlock]

/-- **A documentation comment says what the blocks of its words say**, on every layout of them. -/
theorem ofComment?_laidOut (ws : List (List Char)) :
    ∃ lead bs, (∀ lead' bs', IsCut ws lead' bs' ↔ lead' = lead ∧ bs' = bs) ∧
      ∀ body, LaidOut ws body →
        ofComment? (.block (String.ofList ('*' :: body))) = some (described bs) := by
  refine ⟨_, _, fun _ _ => isCut_iff, fun body h => ?_⟩
  rw [ofComment?_block, wordsOf_laidOut h]

theorem ofComment?_laidOut_desc :
    let ws := [['@', 'd', 'e', 's', 'c'], ['T', 'w', 'o'], ['w', 'o', 'r', 'd', 's']]
    let short := " @desc Two words ".toList
    let long := "\n * @desc Two\n *   words".toList
    (LaidOut ws short ∧ LaidOut ws long) ∧
      ofComment? (.block (String.ofList ('*' :: short))) = some { desc := some "Two words" } ∧
      ofComment? (.block (String.ofList ('*' :: long))) = some { desc := some "Two words" } := by
  intro ws short long
  have hshort : LaidOut ws short :=
    .last (@Line.intro [' '] [] _ _ 0 (by decide) (by decide)
      (@Row.cons _ [' '] _ _ (by decide) (by decide) (by decide)
        (@Row.cons _ [' '] _ _ (by decide) (by decide) (by decide)
          (@Row.cons _ [' '] _ _ (by decide) (by decide) (by decide) .nil))))
  have hlong : LaidOut ws long :=
    @LaidOut.line [] _ [] _ (@Line.intro [] [] _ _ 0 (by decide) (by decide) .nil)
      (@LaidOut.line [ws[0], ws[1]] [ws[2]] _ _
        (@Line.intro [' '] [' '] _ _ 1 (by decide) (by decide)
          (@Row.cons _ [' '] _ _ (by decide) (by decide) (by decide)
            (@Row.cons _ [] _ _ (by decide) (by decide) (by decide) .nil)))
        (.last (@Line.intro [' '] [' ', ' ', ' '] _ _ 1 (by decide) (by decide)
          (@Row.cons _ [] _ _ (by decide) (by decide) (by decide) .nil))))
  obtain ⟨lead, bs, hcut, hdoc⟩ := ofComment?_laidOut ws
  have hws : IsCut ws [] [⟨['d', 'e', 's', 'c'], [ws[1], ws[2]]⟩] :=
    ⟨rfl, by simp, by simpa using (tag?_eq_some_iff.1 rfl).2,
      by simpa using ⟨tag?_eq_none_iff.1 rfl, tag?_eq_none_iff.1 rfl⟩⟩
  obtain ⟨-, rfl⟩ := (hcut _ _).1 hws
  have hdesc : described [⟨['d', 'e', 's', 'c'], [ws[1], ws[2]]⟩] = { desc := some "Two words" } :=
    by decide
  rw [hdoc _ hshort, hdoc _ hlong, hdesc]
  exact ⟨⟨hshort, hlong⟩, rfl, rfl⟩

end MessageCatalog.DocComment
