import MessageCatalog.Definition.Run
import MessageCatalog.Proofs.Draft

/-! Whatever shape a value has, reading it extends the draft of its definition: the key and the
source name stay, and the parts stay tidy. Only comments and companions describe it. -/

namespace MessageCatalog.Definition
open Script (Node Span)

theorem bind_eq_ok {ε α β : Type} {x : Except ε α} {f : α → Except ε β} {b : β} :
    (x >>= f) = .ok b ↔ ∃ a, x = .ok a ∧ f a = .ok b := by
  cases x <;> simp [bind, Except.bind]

theorem map_eq_ok {ε α β : Type} {x : Except ε α} {f : α → β} {b : β} :
    x.map f = .ok b ↔ ∃ a, x = .ok a ∧ f a = b := by
  cases x <;> simp [Except.map]

@[simp] theorem fault_ne_ok {α : Type} (f : Fault) (span : Span) (a : α) :
    fault f span ≠ .ok a := by
  simp [fault]

variable {d d' : Draft}

theorem appendReturned_filled {node : Node} (h : appendReturned d node = .ok d') :
    d.Filled d' := by
  fun_induction appendReturned d node generalizing d' with
  | case1 d text span =>
    cases h
    exact .appendPlaceholder d text
  | case2 => cases h
  | case3 d left right span mid hleft ihl ihr => exact (ihl hleft).trans (ihr h)
  | case4 => exact absurd h (fault_ne_ok _ _ _)
  | case5 d inner span ih => exact ih h
  | case6 d text span =>
    obtain ⟨t, -, rfl⟩ := map_eq_ok.1 h
    exact .appendText d t
  | case7 d text values span =>
    obtain ⟨t, -, rfl⟩ := map_eq_ok.1 h
    exact .appendText d t
  | case8 => exact absurd h (fault_ne_ok _ _ _)

theorem appendBody_filled {body : Body} {span : Span} (h : appendBody d body = .ok (d', span)) :
    d.Filled d' := by
  unfold appendBody at h
  split at h
  · obtain ⟨mid, hmid, hd'⟩ := map_eq_ok.1 h
    cases hd'
    exact appendReturned_filled hmid
  · exact absurd h (fault_ne_ok _ _ _)
  · obtain ⟨mid, hmid, hd'⟩ := map_eq_ok.1 h
    cases hd'
    exact appendReturned_filled hmid
  · cases h
    exact .refl d
  · exact absurd h (fault_ne_ok _ _ _)

theorem ofFunction_filled {parameters : List Node} {body : Body}
    (h : ofFunction d parameters body = .ok d') : d.Filled d' := by
  simp only [ofFunction, bind_eq_ok] at h
  obtain ⟨names, -, ⟨mid, span⟩, hmid, -, -, hd'⟩ := h
  cases hd'
  exact appendBody_filled hmid

theorem appendMessageText_eq_ok {node : Node} :
    appendMessageText d node = .ok d' ↔
      ∃ text, textOf node = .ok text ∧ d.appendMessage text = .ok d' := by
  rw [appendMessageText, bind_eq_ok]
  refine exists_congr fun text => and_congr_right fun _ => ?_
  cases d.appendMessage text <;> simp

theorem applyOptions_filled {used : List String} {properties : List Node}
    (h : applyOptions used d properties = .ok d') :
    d.Filled d' ∧ d'.parts = d.parts := by
  induction properties generalizing d with
  | nil =>
    cases h
    exact ⟨.refl _, rfl⟩
  | cons property rest ih =>
    obtain ⟨entry, -, h⟩ := bind_eq_ok.1 h
    split_ifs at h
    · obtain ⟨texts, -, h⟩ := bind_eq_ok.1 h
      exact ⟨(Draft.Filled.setCode d texts).trans (ih h).1, (ih h).2⟩
    · obtain ⟨texts, -, h⟩ := bind_eq_ok.1 h
      exact ⟨(Draft.Filled.setExamples d texts).trans (ih h).1, (ih h).2⟩
    · exact ih h

def declaredBy : List Node → Except Malformed (List String)
  | [] => .ok []
  | values :: _ => do valueNames [] (← propertiesOf .valuesNotObject values)

def withOptions (d : Draft) : List Node → Except Malformed Draft
  | _ :: options :: _ => do applyOptions d.placeholders d (← propertiesOf .optionsNotObject options)
  | _ => .ok d

theorem ofArguments_eq_ok {span : Span} {text : Node} {rest : List Node} :
    ofArguments d span (text :: rest) = .ok d' ↔
      ∃ mid declared, appendMessageText d text = .ok mid ∧ declaredBy rest = .ok declared ∧
        withOptions mid rest = .ok d' ∧
        checkPlaceholders mid.placeholders declared span = .ok () := by
  match rest with
  | [] | [_] | _ :: _ :: _ =>
    simp only [ofArguments, declaredBy, withOptions, bind_eq_ok, pure, Except.pure, Except.ok.injEq]
    grind

theorem withOptions_filled {rest : List Node} (h : withOptions d rest = .ok d') :
    d.Filled d' ∧ d'.parts = d.parts := by
  unfold withOptions at h
  split at h
  · obtain ⟨properties, -, h⟩ := bind_eq_ok.1 h
    exact applyOptions_filled h
  · cases h
    exact ⟨.refl _, rfl⟩

theorem ofArguments_filled {span : Span} {arguments : List Node}
    (h : ofArguments d span arguments = .ok d') : d.Filled d' := by
  cases arguments with
  | nil => exact absurd h (fault_ne_ok _ _ _)
  | cons text rest =>
    obtain ⟨mid, declared, hmid, -, hd', -⟩ := ofArguments_eq_ok.1 h
    obtain ⟨t, -, happend⟩ := appendMessageText_eq_ok.1 hmid
    exact (Draft.Filled.appendMessage happend).trans (withOptions_filled hd').1

theorem ofCall_filled {value : Node} (h : ofCall d value = .ok d') : d.Filled d' := by
  unfold ofCall at h
  split at h
  · split_ifs at h
    · exact absurd h (fault_ne_ok _ _ _)
    · split at h
      · exact absurd h (fault_ne_ok _ _ _)
      · exact ofArguments_filled h
  · exact absurd h (fault_ne_ok _ _ _)

variable {env : Surroundings} {site : Site}

theorem annotate_extends (env : Surroundings) (site : Site) (d : Draft) :
    d.Extends (env.annotate site d) := by
  unfold Surroundings.annotate
  split
  · exact .applyTo _ d
  · exact .refl d

theorem describeBy_extends {value : Option Node} {span : Span}
    (h : describeBy d value span = .ok d') : d.Extends d' := by
  cases value with
  | none => exact absurd h (fault_ne_ok _ _ _)
  | some node =>
    obtain ⟨text, -, h⟩ := bind_eq_ok.1 h
    split at h
    · cases h
      exact (Draft.Extends.setHidden d true).trans (.setDesc _ _)
    · cases h
      exact .setDesc d text

theorem describeLegacy_extends (h : describeLegacy env site d = .ok d') : d.Extends d' := by
  refine (annotate_extends env site d).trans ?_
  unfold describeLegacy at h
  dsimp only at h
  split_ifs at h
  · cases h
    exact .refl _
  · split at h
    · cases h
      exact .refl _
    · split at h
      · exact describeBy_extends h
      · cases h
        exact .refl _

theorem draftOfVariable_extends {value : Node} (h : draftOfVariable env site d value = .ok d') :
    d.Extends d' := by
  obtain ⟨shape, -, h⟩ := bind_eq_ok.1 h
  cases shape with
  | text node =>
    simp only [bind_eq_ok] at h
    obtain ⟨mid, hmid, text, -, hd'⟩ := h
    cases hd'
    exact (describeLegacy_extends hmid).trans (Draft.Filled.appendText mid text).toExtends
  | function parameters body =>
    simp only [bind_eq_ok] at h
    obtain ⟨mid, hmid, h⟩ := h
    exact (describeLegacy_extends hmid).trans (ofFunction_filled h).toExtends
  | call node => exact (annotate_extends env site d).trans (ofCall_filled h).toExtends

theorem draftOf_extends {value : Node} (h : draftOf env site d value = .ok d') : d.Extends d' := by
  unfold draftOf at h
  split at h
  · exact draftOfVariable_extends h
  · exact (annotate_extends env site d).trans (ofCall_filled h).toExtends

end MessageCatalog.Definition
