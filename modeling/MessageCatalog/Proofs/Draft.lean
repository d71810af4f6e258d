import MessageCatalog.Message.DocComment
import MessageCatalog.Proofs.PartCodec

/-! What the operations on drafts keep: the key, the source name, and the form of the parts. -/

namespace MessageCatalog

namespace Part

structure Tidy (parts : List Part) : Prop where
  filled : ∀ value, .text value ∈ parts → value ≠ ""
  apart : parts.IsChain fun p q => ¬ (p.isText ∧ q.isText)

theorem Canonical.tidy {parts : List Part} (h : Canonical parts) : Tidy parts :=
  ⟨h.filled, h.apart⟩

theorem Tidy.nil : Tidy [] := Canonical.nil.tidy

theorem Tidy.of_append {ps qs : List Part} (h : Tidy (ps ++ qs)) : Tidy ps where
  filled value hv := h.filled value (List.mem_append_left _ hv)
  apart := h.apart.left_of_append

theorem Tidy.concat {parts : List Part} {p : Part} (h : Tidy parts) (hp : p ≠ .text "")
    (hlast : ∀ q ∈ parts.getLast?, ¬ (q.isText ∧ p.isText)) : Tidy (parts ++ [p]) where
  filled value hv := by
    rcases List.mem_append.1 hv with hv | hv
    · exact h.filled value hv
    · rintro rfl
      exact hp (List.mem_singleton.1 hv).symm
  apart := h.apart.append (.singleton p) (by simpa using hlast)

theorem Tidy.not_isText_of_concat {parts : List Part} {p : Part} (h : Tidy (parts ++ [p])) :
    ∀ q ∈ parts.getLast?, ¬ (q.isText ∧ p.isText) := by
  have := (List.isChain_append.1 h.apart).2.2
  simpa using this

theorem mem_placeholders {parts : List Part} {name : String} :
    name ∈ placeholders parts ↔ .placeholder name ∈ parts := by
  rw [placeholders, List.mem_eraseDups, List.mem_filterMap]
  constructor
  · rintro ⟨p, hp, hname⟩
    cases p with
    | text => simp at hname
    | placeholder => simp_all
  · intro h
    exact ⟨_, h, rfl⟩

end Part

namespace Draft
open MessageCatalog.Part

@[simp] theorem addText_empty (parts : List Part) : addText "" parts = parts := by
  fun_induction addText "" parts with
  | case1 => rfl
  | case2 => rename_i h; exact absurd rfl h
  | case3 => simp
  | case4 p ps _ ih => rw [ih]

theorem addText_concat_text (init : List Part) (last text : String) :
    addText text (init ++ [.text last]) = init ++ [.text (last ++ text)] := by
  induction init with
  | nil => rfl
  | cons p ps ih =>
    rw [List.cons_append, addText, ih, List.cons_append]
    simp

theorem addText_of_not_isText {parts : List Part} {text : String} (htext : text ≠ "")
    (hlast : ∀ q ∈ parts.getLast?, ¬ q.isText) : addText text parts = parts ++ [.text text] := by
  induction parts with
  | nil => simp [addText, htext]
  | cons p ps ih =>
    cases ps with
    | nil =>
      cases p with
      | text => simp [isText] at hlast
      | placeholder => simp [addText, htext]
    | cons q qs =>
      have hrest : addText text (p :: q :: qs) = p :: addText text (q :: qs) := by
        rw [addText]
        simp
      rw [hrest, ih (by simpa using hlast)]
      rfl

theorem Tidy.addText {parts : List Part} (h : Tidy parts) (text : String) :
    Tidy (addText text parts) := by
  by_cases htext : text = ""
  · rwa [htext, addText_empty]
  rcases List.eq_nil_or_concat parts with rfl | ⟨init, p, rfl⟩
  · rw [addText_of_not_isText htext (by simp)]
    exact Tidy.nil.concat (by simpa using htext) (by simp)
  rw [List.concat_eq_append] at h ⊢
  cases p with
  | text last =>
    rw [addText_concat_text]
    refine h.of_append.concat (by simp [htext]) ?_
    exact h.not_isText_of_concat
  | placeholder name =>
    rw [addText_of_not_isText htext (by simp [isText])]
    exact h.concat (by simpa using htext) (by simp [isText])

theorem placeholder_mem_addText {name text : String} {parts : List Part}
    (h : .placeholder name ∈ parts) : .placeholder name ∈ addText text parts := by
  fun_induction addText text parts with
  | case1 => exact h
  | case2 => cases h
  | case3 => simp at h
  | case4 p ps hps ih =>
    rcases List.mem_cons.1 h with h | h
    · exact h ▸ List.mem_cons_self
    · exact List.mem_cons_of_mem p (ih h)

theorem mem_placeholders {d : Draft} {name : String} :
    name ∈ d.placeholders ↔ .placeholder name ∈ d.parts := Part.mem_placeholders

theorem foldl_appendPart {d : Draft} {ps : List Part} (h : Tidy (d.parts ++ ps)) :
    ps.foldl appendPart d = { d with parts := d.parts ++ ps } := by
  induction ps generalizing d with
  | nil => simp
  | cons p ps ih =>
    have hsplit : d.parts ++ p :: ps = (d.parts ++ [p]) ++ ps := by simp
    have hp : Tidy (d.parts ++ [p]) := (hsplit ▸ h).of_append
    have hstep : d.appendPart p = { d with parts := d.parts ++ [p] } := by
      cases p with
      | placeholder name => rfl
      | text value =>
        have hlast := hp.not_isText_of_concat
        rw [appendPart, appendText, addText_of_not_isText (hp.filled value (by simp))]
        simpa [isText] using hlast
    rw [List.foldl_cons, hstep, ih (by simpa using h)]
    simp

theorem appendMessage_eq_ok {d d' : Draft} {text : String} (hd : d.parts = []) :
    d.appendMessage text = .ok d' ↔
      ∃ parts, Part.parse text = .ok parts ∧ d' = { d with parts := parts } := by
  unfold appendMessage
  cases hparse : Part.parse text with
  | error e => simp
  | ok parts =>
    have htidy : Tidy (d.parts ++ parts) := by
      rw [hd, List.nil_append]
      exact (parse_eq_ok_iff_cuts.1 hparse).canonical.tidy
    simp [foldl_appendPart htidy, hd, eq_comm]

structure Extends (d d' : Draft) : Prop where
  key : d'.key = d.key
  sourceName : d'.sourceName = d.sourceName
  tidy : Tidy d.parts → Tidy d'.parts

namespace Extends
variable {d d' d'' : Draft}

theorem refl (d : Draft) : d.Extends d := ⟨rfl, rfl, id⟩

theorem trans (h : d.Extends d') (h' : d'.Extends d'') : d.Extends d'' :=
  ⟨h'.key.trans h.key, h'.sourceName.trans h.sourceName, h'.tidy ∘ h.tidy⟩

theorem of_parts_eq (key : d'.key = d.key) (sourceName : d'.sourceName = d.sourceName)
    (parts : d'.parts = d.parts) : d.Extends d' :=
  ⟨key, sourceName, fun h => parts ▸ h⟩

theorem applyTo (doc : DocComment) (d : Draft) : d.Extends (doc.applyTo d) :=
  .of_parts_eq rfl rfl rfl

theorem setDesc (d : Draft) (desc : String) : d.Extends (d.setDesc desc) := .of_parts_eq rfl rfl rfl

theorem setHidden (d : Draft) (hidden : Bool) : d.Extends (d.setHidden hidden) :=
  .of_parts_eq rfl rfl rfl

end Extends

/-- `d'` is `d` after a value has been read into it: how the definition is described stays too, and
no placeholder is taken back. -/
structure Filled (d d' : Draft) : Prop extends Extends d d' where
  metadata : d'.metadata = d.metadata
  placeholders : d.placeholders ⊆ d'.placeholders

namespace Filled
variable {d d' d'' : Draft}

theorem refl (d : Draft) : d.Filled d := ⟨.refl d, rfl, List.Subset.refl _⟩

theorem trans (h : d.Filled d') (h' : d'.Filled d'') : d.Filled d'' where
  toExtends := h.toExtends.trans h'.toExtends
  metadata := h'.metadata.trans h.metadata
  placeholders := List.Subset.trans h.placeholders h'.placeholders

theorem setExamples (d : Draft) (examples : Table String String) :
    d.Filled { d with examples := examples } := ⟨.of_parts_eq rfl rfl rfl, rfl, fun _ => id⟩

theorem setCode (d : Draft) (code : Table String String) : d.Filled { d with code := code } :=
  ⟨.of_parts_eq rfl rfl rfl, rfl, fun _ => id⟩

theorem appendText (d : Draft) (text : String) : d.Filled (d.appendText text) where
  key := rfl
  sourceName := rfl
  tidy h := Tidy.addText h text
  metadata := rfl
  placeholders _ h := mem_placeholders.2 (placeholder_mem_addText (mem_placeholders.1 h))

theorem appendPlaceholder (d : Draft) (name : String) : d.Filled (d.appendPlaceholder name) where
  key := rfl
  sourceName := rfl
  tidy h := h.concat (by simp) (by simp [isText])
  metadata := rfl
  placeholders _ h := mem_placeholders.2 (List.mem_append_left _ (mem_placeholders.1 h))

theorem appendPart (d : Draft) (p : Part) : d.Filled (d.appendPart p) := by
  cases p with
  | text value => exact .appendText d value
  | placeholder name => exact .appendPlaceholder d name

theorem appendParts (d : Draft) (ps : List Part) : d.Filled (ps.foldl Draft.appendPart d) := by
  induction ps generalizing d with
  | nil => exact .refl d
  | cons p ps ih => exact (Filled.appendPart d p).trans (ih _)

theorem appendMessage {text : String} (h : d.appendMessage text = .ok d') : d.Filled d' := by
  unfold Draft.appendMessage at h
  split at h
  · next parts _ =>
    cases h
    exact .appendParts d parts
  · cases h

end Filled

end Draft

namespace Message

theorem isEmpty_iff {m : Message} (h : Part.Tidy m.parts) : m.isEmpty ↔ m.parts = [] := by
  constructor
  · intro hempty
    cases hparts : m.parts with
    | nil => rfl
    | cons p ps =>
      rw [isEmpty, hparts, List.all_cons, Bool.and_eq_true] at hempty
      cases p with
      | placeholder => simp at hempty
      | text value => exact absurd (by simpa using hempty.1) (h.filled value (by simp [hparts]))
  · intro hparts
    simp [isEmpty, hparts]

end Message

end MessageCatalog
