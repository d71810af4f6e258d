import MessageCatalog.Proofs.Draft

/-! Parts with the empty texts dropped and neighbouring texts merged. There is one such list for
each sequence of characters and placeholders, and a draft that parts are added to has it. -/

namespace MessageCatalog

namespace Part

def letters : Part → List (Char ⊕ String)
  | .text value => value.toList.map .inl
  | .placeholder name => [.inr name]

def lettersOf (ps : List Part) : List (Char ⊕ String) := ps.flatMap letters

@[simp] theorem lettersOf_cons (p : Part) (ps : List Part) :
    lettersOf (p :: ps) = letters p ++ lettersOf ps := List.flatMap_cons

def joined : List Part → List Part → List Part
  | [.text a], .text b :: qs => .text (a ++ b) :: qs
  | [], qs => qs
  | p :: ps, qs => p :: joined ps qs

/-- The parts without empty texts, neighbouring texts as one. -/
def merged : List Part → List Part
  | [] => []
  | .placeholder name :: ps => .placeholder name :: merged ps
  | .text value :: ps => joined (ofText value.toList) (merged ps)

theorem joined_of_not_isText {ps qs : List Part} (h : ∀ q ∈ qs.head?, ¬ q.isText) :
    joined ps qs = ps ++ qs := by
  fun_induction joined ps qs with
  | case1 a b qs => exact absurd rfl (h (.text b) rfl)
  | case2 => rfl
  | case3 p ps qs _ ih => rw [ih h, List.cons_append]

theorem joined_nil (ps : List Part) : joined ps [] = ps := by
  rw [joined_of_not_isText (by simp), List.append_nil]

@[simp] theorem joined_placeholder (name : String) (ps qs : List Part) :
    joined (.placeholder name :: ps) qs = .placeholder name :: joined ps qs := by
  rw [joined]
  nofun

@[simp] theorem joined_cons_cons (p p' : Part) (ps qs : List Part) :
    joined (p :: p' :: ps) qs = p :: joined (p' :: ps) qs := by
  rw [joined]
  nofun

theorem exists_joined_eq_cons (p : Part) (ps qs : List Part) :
    ∃ r rs, joined (p :: ps) qs = r :: rs := by
  match p, ps, qs with
  | .placeholder name, ps, qs => exact ⟨_, _, joined_placeholder name ps qs⟩
  | p, p' :: ps, qs => exact ⟨_, _, joined_cons_cons p p' ps qs⟩
  | p, [], [] => exact ⟨_, _, joined_nil [p]⟩
  | .text a, [], .text b :: qs => exact ⟨_, _, rfl⟩
  | .text a, [], .placeholder name :: qs => exact ⟨_, _, rfl⟩

theorem joined_assoc (ps qs rs : List Part) :
    joined (joined ps qs) rs = joined ps (joined qs rs) := by
  fun_induction joined ps qs with
  | case1 a b qs =>
    match qs, rs with
    | [], [] => rfl
    | [], .text c :: rs => simp [joined, String.append_assoc]
    | [], .placeholder name :: rs => rfl
    | q :: qs, rs => simp [joined]
  | case2 => rfl
  | case3 p ps qs hpq ih =>
    match p, ps, qs with
    | .placeholder name, ps, qs => simp [ih]
    | .text a, [], [] => rw [joined_nil]; rfl
    | .text a, [], .text b :: qs => exact absurd rfl (hpq a b qs rfl rfl)
    | .text a, [], .placeholder name :: qs => simp [joined]
    | .text a, p' :: ps, qs =>
      obtain ⟨r, rs', hr⟩ := exists_joined_eq_cons p' ps qs
      rw [hr] at ih ⊢
      rw [joined_cons_cons, joined_cons_cons, ih]

theorem lettersOf_joined (ps qs : List Part) :
    lettersOf (joined ps qs) = lettersOf ps ++ lettersOf qs := by
  fun_induction joined ps qs with
  | case1 a b qs => simp [lettersOf, letters]
  | case2 => rfl
  | case3 p ps qs _ ih => rw [lettersOf_cons, ih, lettersOf_cons, List.append_assoc]

theorem tidy_cons {p : Part} {ps : List Part} :
    Tidy (p :: ps) ↔ p ≠ .text "" ∧ (∀ q ∈ ps.head?, ¬ (p.isText ∧ q.isText)) ∧ Tidy ps := by
  constructor
  · rintro ⟨hfilled, hapart⟩
    rw [List.isChain_cons] at hapart
    refine ⟨?_, hapart.1, fun value hv => hfilled value (List.mem_cons_of_mem p hv), hapart.2⟩
    rintro rfl
    exact hfilled "" List.mem_cons_self rfl
  · rintro ⟨hp, hhead, hfilled, hapart⟩
    refine ⟨fun value hv => ?_, List.isChain_cons.2 ⟨hhead, hapart⟩⟩
    rcases List.mem_cons.1 hv with rfl | hv
    · exact fun hvalue => hp (by rw [hvalue])
    · exact hfilled value hv

theorem Tidy.joined_text {ps : List Part} (h : Tidy ps) {value : String} (hvalue : value ≠ "") :
    Tidy (joined [.text value] ps) := by
  cases ps with
  | nil => exact tidy_cons.2 ⟨by simpa, by simp [joined], .nil⟩
  | cons p ps =>
    cases p with
    | placeholder name => exact tidy_cons.2 ⟨by simpa, by simp [joined, isText], h⟩
    | text b =>
      obtain ⟨-, hhead, htail⟩ := tidy_cons.1 h
      exact tidy_cons.2 ⟨by simp [hvalue], hhead, htail⟩

theorem tidy_merged (ps : List Part) : Tidy (merged ps) := by
  fun_induction merged ps with
  | case1 => exact .nil
  | case2 name ps ih => exact tidy_cons.2 ⟨nofun, by simp [isText], ih⟩
  | case3 value ps ih =>
    by_cases hvalue : value = ""
    · rwa [hvalue]
    · rw [ofText_toList hvalue]
      exact ih.joined_text hvalue

theorem lettersOf_merged (ps : List Part) : lettersOf (merged ps) = lettersOf ps := by
  fun_induction merged ps with
  | case1 => rfl
  | case2 name ps ih => rw [lettersOf_cons, ih, lettersOf_cons]
  | case3 value ps ih =>
    have hletters : lettersOf (ofText value.toList) = letters (.text value) := by
      by_cases hvalue : value = ""
      · rw [hvalue]
        rfl
      · rw [ofText_toList hvalue]
        simp [lettersOf]
    rw [lettersOf_joined, ih, hletters]
    rfl

theorem eq_of_characters_append_eq {as bs : List Char} {xs ys : List (Char ⊕ String)}
    (hx : ∀ x ∈ xs.head?, x.isRight) (hy : ∀ y ∈ ys.head?, y.isRight)
    (h : as.map .inl ++ xs = bs.map .inl ++ ys) : as = bs ∧ xs = ys := by
  induction as generalizing bs with
  | nil =>
    cases bs with
    | nil => exact ⟨rfl, h⟩
    | cons b bs =>
      rw [List.map_nil, List.nil_append] at h
      exact absurd (hx (.inl b) (by simp [h])) nofun
  | cons a as ih =>
    cases bs with
    | nil =>
      rw [List.map_nil, List.nil_append] at h
      exact absurd (hy (.inl a) (by simp [← h])) nofun
    | cons b bs =>
      simp only [List.map_cons, List.cons_append, List.cons.injEq, Sum.inl.injEq] at h
      obtain ⟨rfl, h⟩ := h
      obtain ⟨rfl, rfl⟩ := ih h
      exact ⟨rfl, rfl⟩

theorem Tidy.isRight_of_head? {ps : List Part} {value : String} (h : Tidy (.text value :: ps)) :
    ∀ x ∈ (lettersOf ps).head?, x.isRight := by
  cases ps with
  | nil => simp [lettersOf]
  | cons p ps =>
    cases p with
    | placeholder name => simp [lettersOf, letters]
    | text b => exact absurd ⟨rfl, rfl⟩ ((tidy_cons.1 h).2.1 (.text b) rfl)

theorem Tidy.letters_ne_nil {p : Part} {ps : List Part} (h : Tidy (p :: ps)) : letters p ≠ [] := by
  cases p with
  | placeholder => nofun
  | text value => simpa [letters] using h.filled value List.mem_cons_self

theorem Tidy.eq_of_lettersOf {ps qs : List Part} (hp : Tidy ps) (hq : Tidy qs)
    (h : lettersOf ps = lettersOf qs) : ps = qs := by
  induction ps generalizing qs with
  | nil =>
    cases qs with
    | nil => rfl
    | cons q qs =>
      rw [lettersOf_cons] at h
      exact absurd (List.append_eq_nil_iff.1 h.symm).1 hq.letters_ne_nil
  | cons p ps ih =>
    have htail := (tidy_cons.1 hp).2.2
    rw [lettersOf_cons] at h
    cases qs with
    | nil => exact absurd (List.append_eq_nil_iff.1 h).1 hp.letters_ne_nil
    | cons q qs =>
      have htail' := (tidy_cons.1 hq).2.2
      rw [lettersOf_cons] at h
      match p, q with
      | .placeholder name, .placeholder name' =>
        simp only [letters, List.singleton_append, List.cons.injEq, Sum.inr.injEq] at h
        rw [h.1, ih htail htail' h.2]
      | .text a, .text b =>
        obtain ⟨hab, hrest⟩ := eq_of_characters_append_eq hp.isRight_of_head? hq.isRight_of_head? h
        rw [String.toList_inj.1 hab, ih htail htail' hrest]
      | .placeholder name, .text b =>
        have hb : b.toList = [] ∧ _ :=
          eq_of_characters_append_eq hq.isRight_of_head? (by simp) h.symm
        exact absurd (by rw [letters, hb.1]; rfl) hq.letters_ne_nil
      | .text a, .placeholder name =>
        have ha : a.toList = [] ∧ _ := eq_of_characters_append_eq hp.isRight_of_head? (by simp) h
        exact absurd (by rw [letters, ha.1]; rfl) hp.letters_ne_nil

theorem merged_eq_iff {ps qs : List Part} :
    merged ps = qs ↔ Tidy qs ∧ lettersOf qs = lettersOf ps := by
  constructor
  · rintro rfl
    exact ⟨tidy_merged ps, lettersOf_merged ps⟩
  · rintro ⟨hq, hletters⟩
    exact (tidy_merged ps).eq_of_lettersOf hq ((lettersOf_merged ps).trans hletters.symm)

theorem merged_congr {ps qs : List Part} (h : lettersOf ps = lettersOf qs) :
    merged ps = merged qs := merged_eq_iff.2 ⟨tidy_merged qs, (lettersOf_merged qs).trans h.symm⟩

theorem merged_cons (p : Part) (ps : List Part) :
    merged (p :: ps) = joined (merged [p]) (merged ps) := by
  cases p with
  | placeholder name => rfl
  | text value => rw [merged, merged, merged, joined_nil]

end Part

namespace Draft
open MessageCatalog.Part

theorem joined_merged_text (text : String) (ps : List Part) :
    joined ps (merged [.text text]) = addText text ps := by
  by_cases htext : text = ""
  · rw [htext, addText_empty]
    exact joined_nil ps
  rw [merged, merged, joined_nil, ofText_toList htext]
  fun_induction addText text ps with
  | case1 h => exact absurd h htext
  | case2 => rfl
  | case3 => rfl
  | case4 p ps hps ih =>
    rw [← ih, joined]
    rintro a b qs - hp hnil
    exact hps a hp hnil

theorem appendPart_eq (d : Draft) (p : Part) :
    d.appendPart p = { d with parts := joined d.parts (merged [p]) } := by
  cases p with
  | text value => rw [joined_merged_text]; rfl
  | placeholder name => rw [merged, joined_of_not_isText (by simp [isText])]; rfl

theorem foldl_appendPart_eq (d : Draft) (ps : List Part) :
    ps.foldl appendPart d = { d with parts := joined d.parts (merged ps) } := by
  induction ps generalizing d with
  | nil => rw [merged, joined_nil]; rfl
  | cons p ps ih => rw [List.foldl_cons, ih, appendPart_eq, merged_cons p ps, joined_assoc]

end Draft

end MessageCatalog
