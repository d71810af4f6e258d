import MessageCatalog.Message.Part
import Mathlib.Data.List.Chain
import Mathlib.Data.List.Infix

/-! Cutting a text into parts and putting the parts together again are inverse to each other on
canonical lists of parts. The grammar `Cuts` stands between the scanning loop and the list. -/

namespace MessageCatalog.Part
open MessageCatalog.Text

def opening : List Char := ['\x7b', '$']

def isText : Part → Bool
  | .text _ => true
  | .placeholder _ => false

structure Canonical (parts : List Part) : Prop where
  filled : ∀ value, .text value ∈ parts → value ≠ ""
  closed : ∀ value, .text value ∈ parts → ¬ opening <:+: value.toList
  apart : parts.IsChain fun p q => ¬ (p.isText ∧ q.isText)
  named : ∀ name, .placeholder name ∈ parts → name ≠ "" ∧ '\x7d' ∉ name.toList

theorem not_opening_nil : ¬ opening <:+: ([] : List Char) := by
  simp [opening]

theorem not_opening_singleton (c : Char) : ¬ opening <:+: [c] := by
  intro h
  have := h.length_le
  simp [opening] at this

theorem opening_infix_cons (c d : Char) (r : List Char) :
    opening <:+: c :: d :: r ↔ (c = '\x7b' ∧ d = '$') ∨ opening <:+: d :: r := by
  rw [List.infix_cons_iff]
  simp [opening, eq_comm]

theorem not_opening_of_cutAtOpening {cs : List Char} (h : cutAtOpening cs = none) :
    ¬ opening <:+: cs := by
  fun_induction cutAtOpening cs with
  | case1 => exact not_opening_nil
  | case2 c => exact not_opening_singleton c
  | case3 => simp at h
  | case4 => simp at h
  | case5 c d r hc hr ih =>
    rw [opening_infix_cons]
    rintro (⟨rfl, rfl⟩ | hi)
    · simp at hc
    · exact ih hr hi

theorem cutAtOpening_append {before : List Char} (h : ¬ opening <:+: before) (after : List Char) :
    cutAtOpening (before ++ '\x7b' :: '$' :: after) = some (before, after) := by
  induction before with
  | nil => simp [cutAtOpening]
  | cons c r ih =>
    have hr : ¬ opening <:+: r := fun hi => h (hi.trans (List.suffix_cons c r).isInfix)
    -- An opening at `c` takes one more character, which may stand in `before` or after it.
    cases r with
    | nil => simp [cutAtOpening]
    | cons d r =>
      have hc : ¬ (c = '\x7b' ∧ d = '$') := fun hcd => h ((opening_infix_cons c d r).2 (.inl hcd))
      have hcut := ih hr
      simp only [List.cons_append] at hcut ⊢
      rw [cutAtOpening, if_neg (by simpa using hc), hcut]

theorem cutAtOpening_eq_none {cs : List Char} (h : ¬ opening <:+: cs) : cutAtOpening cs = none := by
  cases hcut : cutAtOpening cs with
  | none => rfl
  | some cut =>
    obtain ⟨before, after⟩ := cut
    refine absurd ⟨before, after, ?_⟩ h
    rw [eq_of_cutAtOpening hcut]
    simp [opening]

theorem not_opening_of_cutAtOpening_some {cs before after : List Char}
    (h : cutAtOpening cs = some (before, after)) : ¬ opening <:+: before := by
  fun_induction cutAtOpening cs generalizing before after with
  | case1 => simp at h
  | case2 => simp at h
  | case3 =>
    simp only [Option.some.injEq, Prod.mk.injEq] at h
    rw [← h.1]
    exact not_opening_nil
  | case4 c d r hc b a hr ih =>
    simp only [Option.some.injEq, Prod.mk.injEq] at h
    obtain ⟨rfl, rfl⟩ := h
    have hb := ih hr
    -- An opening in `c :: b` is in `b` or starts at `c`; the loop has ruled out the latter.
    cases b with
    | nil => exact not_opening_singleton c
    | cons e b =>
      obtain ⟨rfl, -⟩ : d = e ∧ r = b ++ '\x7b' :: '$' :: a := by
        simpa using eq_of_cutAtOpening hr
      rw [opening_infix_cons]
      rintro (⟨rfl, rfl⟩ | hi)
      · simp at hc
      · exact hb hi
  | case5 => simp at h

theorem cutAtClosing_append {name : List Char} (h : '\x7d' ∉ name) (rest : List Char) :
    cutAtClosing (name ++ '\x7d' :: rest) = some (name, rest) := by
  induction name with
  | nil => simp [cutAtClosing]
  | cons c r ih =>
    obtain ⟨hc, hr⟩ := not_or.1 (mt List.mem_cons.2 h)
    rw [List.cons_append, cutAtClosing, if_neg (Ne.symm hc), ih hr]

theorem not_mem_of_cutAtClosing {cs name rest : List Char}
    (h : cutAtClosing cs = some (name, rest)) : '\x7d' ∉ name := by
  fun_induction cutAtClosing cs generalizing name rest with
  | case1 => simp at h
  | case2 =>
    simp only [Option.some.injEq, Prod.mk.injEq] at h
    simp [← h.1]
  | case3 c r hc b a hr ih =>
    simp only [Option.some.injEq, Prod.mk.injEq] at h
    obtain ⟨rfl, rfl⟩ := h
    exact mt List.mem_cons.1 (not_or.2 ⟨Ne.symm hc, ih hr⟩)
  | case4 => simp at h

/-- `Cuts cs parts`: the characters are literal text and placeholders in turn, which the parts
list. -/
inductive Cuts : List Char → List Part → Prop where
  | plain {cs : List Char} (h : ¬ opening <:+: cs) : Cuts cs (ofText cs)
  | placeholder {before name rest : List Char} {parts : List Part} (hbefore : ¬ opening <:+: before)
      (hname : name ≠ []) (hclosed : '\x7d' ∉ name) (hrest : Cuts rest parts) :
      Cuts (before ++ '\x7b' :: '$' :: (name ++ '\x7d' :: rest))
        (ofText before ++ .placeholder (String.ofList name) :: parts)

theorem cuts_of_parseFrom {offset : Nat} {cs : List Char} {parts : List Part}
    (h : parseFrom offset cs = .ok parts) : Cuts cs parts := by
  fun_induction parseFrom offset cs generalizing parts with
  | case1 offset cs hopen =>
    obtain rfl : ofText cs = parts := by simpa using h
    exact .plain (not_opening_of_cutAtOpening hopen)
  | case2 => simp at h
  | case3 => simp at h
  | case4 offset cs before after hopen start c name rest hclose ps hps =>
    rename_i ih
    obtain rfl : _ = parts := Except.ok.inj h
    rw [eq_of_cutAtOpening hopen, eq_of_cutAtClosing hclose]
    exact .placeholder (not_opening_of_cutAtOpening_some hopen) (by simp)
      (not_mem_of_cutAtClosing hclose) (ih hps)
  | case5 => simp at h

theorem parseFrom_eq (offset : Nat) (cs : List Char) :
    parseFrom offset cs =
      match cutAtOpening cs with
      | none => .ok (ofText cs)
      | some (before, after) =>
        match cutAtClosing after with
        | none => .error (.unterminated (offset + byteLength before))
        | some ([], _) => .error (.emptyName (offset + byteLength before))
        | some (c :: name, rest) =>
          (parseFrom (offset + byteLength before + 3 + byteLength (c :: name)) rest).map
            (ofText before ++ .placeholder (String.ofList (c :: name)) :: ·) := by
  rw [parseFrom]
  split
  · next hopen => rw [hopen]
  · next before after hopen =>
    rw [hopen]
    dsimp only
    split
    · next hclose => rw [hclose]
    · next hclose => rw [hclose]
    · next c name rest hclose =>
      rw [hclose]
      dsimp only
      cases parseFrom _ rest <;> rfl

theorem parseFrom_placeholder {before name rest : List Char} (hbefore : ¬ opening <:+: before)
    (hname : name ≠ []) (hclosed : '\x7d' ∉ name) (offset : Nat) :
    parseFrom offset (before ++ '\x7b' :: '$' :: (name ++ '\x7d' :: rest)) =
      (parseFrom (offset + byteLength before + 3 + byteLength name) rest).map
        (ofText before ++ .placeholder (String.ofList name) :: ·) := by
  rw [parseFrom_eq, cutAtOpening_append hbefore]
  dsimp only
  rw [cutAtClosing_append hclosed]
  cases name with
  | nil => exact absurd rfl hname
  | cons c name => rfl

theorem parseFrom_of_cuts {cs : List Char} {parts : List Part} (h : Cuts cs parts) (offset : Nat) :
    parseFrom offset cs = .ok parts := by
  induction h generalizing offset with
  | plain hcs => rw [parseFrom_eq, cutAtOpening_eq_none hcs]
  | placeholder hbefore hname hclosed _ ih =>
    rw [parseFrom_placeholder hbefore hname hclosed, ih]
    rfl

@[simp] theorem renderAll_nil : renderAll [] = [] := rfl

@[simp] theorem renderAll_cons (p : Part) (ps : List Part) :
    renderAll (p :: ps) = p.render ++ renderAll ps := rfl

@[simp] theorem renderAll_append (ps qs : List Part) :
    renderAll (ps ++ qs) = renderAll ps ++ renderAll qs := List.flatMap_append

@[simp] theorem renderAll_ofText (value : List Char) : renderAll (ofText value) = value := by
  cases value <;> simp [ofText, render]

theorem render_placeholder (name : String) :
    render (.placeholder name) = '\x7b' :: '$' :: (name.toList ++ ['\x7d']) := rfl

theorem ofText_toList {value : String} (h : value ≠ "") : ofText value.toList = [.text value] := by
  simp [ofText, h]

theorem Canonical.nil : Canonical [] where
  filled := by simp
  closed := by simp
  apart := .nil
  named := by simp

theorem Canonical.ofText {value : List Char} (h : ¬ opening <:+: value) :
    Canonical (Part.ofText value) := by
  cases value with
  | nil => exact .nil
  | cons c r =>
    refine ⟨?_, ?_, by simp [Part.ofText], by simp [Part.ofText]⟩
    · simp [Part.ofText]
    · simpa [Part.ofText] using h

theorem Canonical.placeholder {before name : List Char} {parts : List Part}
    (hbefore : ¬ opening <:+: before) (hname : name ≠ []) (hclosed : '\x7d' ∉ name)
    (h : Canonical parts) :
    Canonical (Part.ofText before ++ .placeholder (String.ofList name) :: parts) := by
  have hb := Canonical.ofText hbefore
  have hchain : (Part.placeholder (String.ofList name) :: parts).IsChain
      fun p q => ¬ (p.isText ∧ q.isText) :=
    List.isChain_cons.2 ⟨by simp [isText], h.apart⟩
  refine ⟨?_, ?_, ?_, ?_⟩
  · intro value hv
    simp only [List.mem_append, List.mem_cons, reduceCtorEq, false_or] at hv
    exact hv.elim (hb.filled value) (h.filled value)
  · intro value hv
    simp only [List.mem_append, List.mem_cons, reduceCtorEq, false_or] at hv
    exact hv.elim (hb.closed value) (h.closed value)
  · exact hb.apart.append hchain (by simp [isText])
  · intro n hn
    simp only [List.mem_append, List.mem_cons, Part.placeholder.injEq] at hn
    rcases hn with hn | rfl | hn
    · exact hb.named n hn
    · exact ⟨by simpa [String.ext_iff] using hname, by simpa using hclosed⟩
    · exact h.named n hn

theorem Cuts.renderAll_eq {cs : List Char} {parts : List Part} (h : Cuts cs parts) :
    renderAll parts = cs := by
  induction h with
  | plain => simp
  | placeholder _ _ _ _ ih => simp [render_placeholder, ih]

theorem Cuts.canonical {cs : List Char} {parts : List Part} (h : Cuts cs parts) :
    Canonical parts := by
  induction h with
  | plain hcs => exact .ofText hcs
  | placeholder hbefore hname hclosed _ ih => exact .placeholder hbefore hname hclosed ih

theorem Canonical.tail {p : Part} {ps : List Part} (h : Canonical (p :: ps)) : Canonical ps where
  filled value hv := h.filled value (List.mem_cons_of_mem _ hv)
  closed value hv := h.closed value (List.mem_cons_of_mem _ hv)
  apart := h.apart.tail
  named name hn := h.named name (List.mem_cons_of_mem _ hn)

theorem Canonical.cuts : ∀ {parts : List Part}, Canonical parts → Cuts (renderAll parts) parts
  | [], _ => .plain not_opening_nil
  | [.text value], h => by
    have hfilled := h.filled value (by simp)
    simpa [render, ofText_toList hfilled] using Cuts.plain (h.closed value (by simp))
  | .text value :: .text other :: _, h =>
    absurd h.apart (by simp [List.isChain_cons, isText])
  | .text value :: .placeholder name :: ps, h => by
    obtain ⟨hname, hclosed⟩ := h.named name (by simp)
    have hfilled := h.filled value (by simp)
    have hcut := Cuts.placeholder (h.closed value (by simp)) (by simpa using hname) hclosed
      h.tail.tail.cuts
    simpa [render, ofText_toList hfilled] using hcut
  | .placeholder name :: ps, h => by
    obtain ⟨hname, hclosed⟩ := h.named name (by simp)
    have hcut := Cuts.placeholder not_opening_nil (by simpa using hname) hclosed h.tail.cuts
    simpa [render, Part.ofText] using hcut

theorem cuts_iff {cs : List Char} {parts : List Part} :
    Cuts cs parts ↔ renderAll parts = cs ∧ Canonical parts :=
  ⟨fun h => ⟨h.renderAll_eq, h.canonical⟩, fun ⟨hcs, h⟩ => hcs ▸ h.cuts⟩

theorem parse_eq_ok_iff_cuts {text : String} {parts : List Part} :
    parse text = .ok parts ↔ Cuts text.toList parts :=
  ⟨cuts_of_parseFrom, fun h => parseFrom_of_cuts h 0⟩

theorem textOf_eq_iff {text : String} {parts : List Part} :
    textOf parts = text ↔ renderAll parts = text.toList := by
  rw [textOf, String.ext_iff, String.toList_ofList]

theorem parse_eq_ok_iff (text : String) (parts : List Part) :
    parse text = .ok parts ↔ textOf parts = text ∧ Canonical parts := by
  rw [parse_eq_ok_iff_cuts, cuts_iff, textOf_eq_iff]

end MessageCatalog.Part
