import MessageCatalog.Proofs.Grouping
import MessageCatalog.Proofs.MergedParts
import MessageCatalog.Proofs.RenamedValues

/-! Texts and names joined by `+`. What is read from a concatenation depends on the sequence of its
operands alone, and on literals only through their characters. -/

namespace MessageCatalog

namespace Script.Node

def leaves : Node → List Node
  | .paren inner _ => leaves inner
  | .binary operator left right span =>
    if operator = "+" then leaves left ++ leaves right else [.binary operator left right span]
  | node => [node]

def text? : Node → Option String
  | .string text _ => text
  | .template text [] _ => text
  | _ => none

/-- What an operand gives to a message: a text, or a name that stands for a placeholder. -/
def part? : Node → Option Part
  | .name text _ => some (.placeholder text)
  | node => node.text?.map .text

def letters? (n : Node) : Option (List (Char ⊕ String)) :=
  (n.leaves.mapM part?).map Part.lettersOf

def IsLeaf : Node → Prop
  | .paren .. => False
  | .binary operator .. => operator ≠ "+"
  | _ => True

@[elab_as_elim]
theorem leaves_induction {motive : Node → Prop}
    (paren : ∀ inner span, motive inner → motive (.paren inner span))
    (plus : ∀ left right span, motive left → motive right → motive (.binary "+" left right span))
    (leaf : ∀ n, n.IsLeaf → motive n) (n : Node) : motive n := by
  induction n using parts_induction with
  | whole n ih =>
    cases n with
    | paren inner span => exact paren inner span (ih inner (by simp [parts]))
    | binary operator left right span =>
      by_cases hplus : operator = "+"
      · rw [hplus]
        exact plus left right span (ih left (by simp [parts])) (ih right (by simp [parts]))
      · exact leaf _ hplus
    | _ => exact leaf _ trivial

theorem leaves_plus (left right : Node) (span : Span) :
    leaves (.binary "+" left right span) = leaves left ++ leaves right := by
  rw [leaves, if_pos rfl]

theorem leaves_of_isLeaf {n : Node} (h : n.IsLeaf) : n.leaves = [n] := by
  cases n with
  | paren => exact h.elim
  | binary operator left right span => rw [leaves, if_neg h]
  | _ => rfl

theorem isLeaf_of_mem_leaves {n leaf : Node} (h : leaf ∈ n.leaves) : leaf.IsLeaf := by
  induction n using leaves_induction with
  | paren inner span ih => exact ih h
  | plus left right span ihl ihr =>
    rw [leaves_plus] at h
    exact (List.mem_append.1 h).elim ihl ihr
  | leaf n hn =>
    rw [leaves_of_isLeaf hn] at h
    rwa [List.mem_singleton.1 h]

def IsText (n : Node) : Prop :=
  match n.unparenthesized with
  | .string .. => True
  | .template .. => True
  | .binary operator .. => operator = "+"
  | _ => False

theorem leaves_unparenthesized (n : Node) : n.unparenthesized.leaves = n.leaves := by
  induction n using leaves_induction with
  | paren inner span ih => exact ih
  | plus => rfl
  | leaf n hn =>
    cases n with
    | paren => exact hn.elim
    | _ => rfl

end Script.Node

namespace Definition
open Script (Node Span)
open Script.Node (leaves_induction leaves_plus leaves_of_isLeaf)

section Operands
variable {ε α β : Type}

theorem mapM_eq_error {f : α → Except ε β} {xs : List α} {e : ε} :
    xs.mapM f = .error e ↔ ∃ before x after, xs = before ++ x :: after ∧
      (∀ y ∈ before, ∃ b, f y = .ok b) ∧ f x = .error e := by
  induction xs with
  | nil => simp [pure, Except.pure]
  | cons a xs ih =>
    rw [List.mapM_cons]
    cases ha : f a with
    | error e' =>
      constructor
      · rintro ⟨⟩
        exact ⟨[], a, xs, rfl, by simp, ha⟩
      · rintro ⟨before, x, after, hxs, hbefore, hx⟩
        cases before with
        | nil =>
          obtain ⟨rfl, -⟩ := List.cons.inj hxs
          cases ha.symm.trans hx
          rfl
        | cons y before =>
          obtain ⟨rfl, -⟩ := List.cons.inj hxs
          obtain ⟨b, hb⟩ := hbefore a List.mem_cons_self
          cases ha.symm.trans hb
    | ok b =>
      have htail : (do let b ← Except.ok b; let bs ← xs.mapM f; pure (b :: bs)) = Except.error e ↔
          xs.mapM f = .error e := by
        cases xs.mapM f <;> simp [bind, Except.bind, pure, Except.pure]
      rw [htail, ih]
      constructor
      · rintro ⟨before, x, after, rfl, hbefore, hx⟩
        exact ⟨a :: before, x, after, rfl, List.forall_mem_cons.2 ⟨⟨b, ha⟩, hbefore⟩, hx⟩
      · rintro ⟨before, x, after, hxs, hbefore, hx⟩
        cases before with
        | nil =>
          obtain ⟨rfl, -⟩ := List.cons.inj hxs
          cases ha.symm.trans hx
        | cons y before =>
          obtain ⟨rfl, rfl⟩ := List.cons.inj hxs
          exact ⟨before, x, after, rfl, (List.forall_mem_cons.1 hbefore).2, hx⟩

theorem mapM_cons_eq_some {g : α → Option β} {x : α} {xs : List α} {ys : List β} :
    (x :: xs).mapM g = some ys ↔ ∃ b bs, g x = some b ∧ xs.mapM g = some bs ∧ b :: bs = ys := by
  simp only [List.mapM_cons, Option.bind_eq_bind, Option.bind_eq_some_iff, pure, Option.some.injEq]
  simp only [exists_and_left]

theorem mapM_eq_ok {f : α → Except ε β} {g : α → Option β} {xs : List α} {ys : List β}
    (h : ∀ x ∈ xs, ∀ y, f x = .ok y ↔ g x = some y) :
    xs.mapM f = .ok ys ↔ xs.mapM g = some ys := by
  induction xs generalizing ys with
  | nil => simp [pure, Except.pure]
  | cons a xs ih =>
    obtain ⟨ha, hxs⟩ := List.forall_mem_cons.1 h
    rw [mapM_cons_eq_some]
    simp only [List.mapM_cons, bind_eq_ok, ha, ih hxs, pure, Except.pure, Except.ok.injEq,
      exists_and_left]

end Operands

theorem textOf_plus (left right : Node) (span : Span) :
    textOf (.binary "+" left right span) = do return (← textOf left) ++ (← textOf right) := by
  rw [textOf_binary, if_pos rfl]

theorem textOf_eq_mapM (n : Node) : textOf n = (n.leaves.mapM textOf).map String.join := by
  induction n using leaves_induction with
  | paren inner span ih => exact ih
  | plus left right span ihl ihr =>
    rw [textOf_plus, leaves_plus, ihl, ihr, List.mapM_append]
    cases left.leaves.mapM textOf with
    | error => rfl
    | ok ls =>
      cases right.leaves.mapM textOf with
      | error => rfl
      | ok rs =>
        change Except.ok (String.join ls ++ String.join rs) = .ok (String.join (ls ++ rs))
        rw [String.join_append]
  | leaf n hn =>
    rw [leaves_of_isLeaf hn, List.mapM_cons]
    cases textOf n with
    | error => rfl
    | ok text =>
      change Except.ok text = .ok (String.join [text])
      simp

theorem textOf_eq_ok_of_isLeaf {n : Node} (h : n.IsLeaf) {text : String} :
    textOf n = .ok text ↔ n.text? = some text := by
  cases n with
  | paren => exact h.elim
  | binary operator left right span =>
    rw [textOf_binary, if_neg h]
    simp [Node.text?]
  | string text span => cases text <;> simp [textOf, Node.text?]
  | template text values span =>
    cases values <;> cases text <;> simp [textOf, Node.text?]
  | _ => simp [textOf, Node.text?]

theorem textOf_eq_ok_iff {n : Node} {text : String} :
    textOf n = .ok text ↔
      ∃ texts, n.leaves.mapM Node.text? = some texts ∧ String.join texts = text := by
  rw [textOf_eq_mapM, map_eq_ok]
  refine exists_congr fun texts => and_congr_left fun _ => ?_
  exact mapM_eq_ok fun leaf hleaf text => textOf_eq_ok_of_isLeaf (Node.isLeaf_of_mem_leaves hleaf)

theorem textOf_eq_error_iff {n : Node} {m : Malformed} :
    textOf n = .error m ↔ ∃ before leaf after, n.leaves = before ++ leaf :: after ∧
      (∀ earlier ∈ before, (earlier.text?).isSome) ∧ textOf leaf = .error m := by
  have hmap : ∀ {x : Except Malformed (List String)},
      x.map String.join = .error m ↔ x = .error m := by
    intro x
    cases x <;> simp [Except.map]
  rw [textOf_eq_mapM, hmap, mapM_eq_error]
  refine exists_congr fun before => exists_congr fun leaf => exists_congr fun after => ?_
  refine and_congr_right fun hleaves => and_congr_left fun _ => forall₂_congr fun earlier hmem => ?_
  have hearlier : earlier ∈ n.leaves := by simp [hleaves, hmem]
  simp only [textOf_eq_ok_of_isLeaf (Node.isLeaf_of_mem_leaves hearlier), Option.isSome_iff_exists]

theorem appendReturned_eq_foldlM (d : Draft) (n : Node) :
    appendReturned d n = n.leaves.foldlM appendReturned d := by
  induction n using leaves_induction generalizing d with
  | paren inner span ih => exact ih d
  | plus left right span ihl ihr =>
    rw [appendReturned_binary, if_pos rfl, leaves_plus, ihl, List.foldlM_append]
    congr 1
    funext d'
    exact ihr d'
  | leaf n hn =>
    rw [leaves_of_isLeaf hn, List.foldlM_cons]
    cases appendReturned d n <;> rfl

theorem appendReturned_eq_ok_of_isLeaf {n : Node} (h : n.IsLeaf) {d d' : Draft} :
    appendReturned d n = .ok d' ↔ ∃ p, n.part? = some p ∧ d.appendPart p = d' := by
  cases n with
  | paren => exact h.elim
  | binary operator left right span =>
    rw [appendReturned_binary, if_neg h]
    simp [Node.part?, Node.text?]
  | name text span => simp [appendReturned, Node.part?, Draft.appendPart]
  | string text span =>
    cases text <;>
      simp [appendReturned, textOf, Node.part?, Node.text?, Draft.appendPart, map_eq_ok]
  | template text values span =>
    cases values <;> cases text <;>
      simp [appendReturned, textOf, Node.part?, Node.text?, Draft.appendPart, map_eq_ok]
  | _ => simp [appendReturned, Node.part?, Node.text?]

theorem appendReturned_eq_ok_iff {d d' : Draft} {n : Node} :
    appendReturned d n = .ok d' ↔ ∃ ps, n.leaves.mapM Node.part? = some ps ∧
      d' = { d with parts := Part.joined d.parts (Part.merged ps) } := by
  have hfold : ∀ {leaves : List Node}, (∀ leaf ∈ leaves, leaf.IsLeaf) → ∀ d,
      leaves.foldlM appendReturned d = .ok d' ↔
        ∃ ps, leaves.mapM Node.part? = some ps ∧ ps.foldl Draft.appendPart d = d' := by
    intro leaves hleaves
    induction leaves with
    | nil => simp [pure, Except.pure]
    | cons leaf leaves ih =>
      intro d
      obtain ⟨hleaf, hleaves⟩ := List.forall_mem_cons.1 hleaves
      simp only [List.foldlM_cons, bind_eq_ok, appendReturned_eq_ok_of_isLeaf hleaf, ih hleaves,
        mapM_cons_eq_some]
      constructor
      · rintro ⟨_, ⟨p, hp, rfl⟩, ps, hps, rfl⟩
        exact ⟨p :: ps, ⟨p, ps, hp, hps, rfl⟩, rfl⟩
      · rintro ⟨_, ⟨p, ps, hp, hps, rfl⟩, rfl⟩
        exact ⟨_, ⟨p, hp, rfl⟩, ps, hps, rfl⟩
  rw [appendReturned_eq_foldlM, hfold fun leaf => Node.isLeaf_of_mem_leaves]
  simp only [Draft.foldl_appendPart_eq, eq_comm]

theorem lettersOf_map_text (texts : List String) :
    Part.lettersOf (texts.map .text) = (String.join texts).toList.map .inl := by
  induction texts with
  | nil => rfl
  | cons text texts ih => simp [ih, Part.letters]

theorem exists_eq_map_text {ps : List Part} {text : String}
    (h : Part.lettersOf ps = text.toList.map .inl) :
    ∃ texts : List String, ps = texts.map .text ∧ String.join texts = text := by
  have htexts : ∃ texts : List String, ps = texts.map .text := by
    have hletters : ∀ x ∈ Part.lettersOf ps, x.isLeft := by simp [h]
    clear h
    induction ps with
    | nil => exact ⟨[], rfl⟩
    | cons p ps ih =>
      rw [Part.lettersOf_cons, List.forall_mem_append] at hletters
      obtain ⟨texts, rfl⟩ := ih hletters.2
      cases p with
      | text value => exact ⟨value :: texts, rfl⟩
      | placeholder name => exact absurd (hletters.1 (.inr name) List.mem_cons_self) nofun
  obtain ⟨texts, rfl⟩ := htexts
  rw [lettersOf_map_text] at h
  have hjoin := (List.map_inj_right fun _ _ => Sum.inl.inj).1 h
  exact ⟨texts, rfl, String.toList_inj.1 hjoin⟩

theorem part?_eq_some_text {n : Node} {text : String} :
    n.part? = some (.text text) ↔ n.text? = some text := by
  cases n <;> simp [Node.part?, Node.text?]

theorem mapM_part?_eq_some {leaves : List Node} {texts : List String} :
    leaves.mapM Node.part? = some (texts.map .text) ↔ leaves.mapM Node.text? = some texts := by
  induction leaves generalizing texts with
  | nil => cases texts <;> simp
  | cons leaf leaves ih =>
    rw [mapM_cons_eq_some, mapM_cons_eq_some]
    constructor
    · rintro ⟨p, ps, hp, hps, hcons⟩
      obtain ⟨text, texts, rfl, rfl, rfl⟩ := List.map_eq_cons_iff.1 hcons.symm
      exact ⟨text, texts, part?_eq_some_text.1 hp, ih.1 hps, rfl⟩
    · rintro ⟨text, texts, htext, htexts, rfl⟩
      exact ⟨_, _, part?_eq_some_text.2 htext, ih.2 htexts, rfl⟩

theorem textOf_eq_ok_iff_letters? {n : Node} {text : String} :
    textOf n = .ok text ↔ n.letters? = some (text.toList.map .inl) := by
  rw [textOf_eq_ok_iff, Node.letters?, Option.map_eq_some_iff]
  constructor
  · rintro ⟨texts, htexts, rfl⟩
    exact ⟨_, mapM_part?_eq_some.2 htexts, lettersOf_map_text texts⟩
  · rintro ⟨ps, hps, hletters⟩
    obtain ⟨texts, rfl, htext⟩ := exists_eq_map_text hletters
    exact ⟨texts, mapM_part?_eq_some.1 hps, htext⟩

theorem textOf_congr {n n' : Node} (h : n.letters? = n'.letters?) {text : String} :
    textOf n = .ok text ↔ textOf n' = .ok text := by
  rw [textOf_eq_ok_iff_letters?, h, textOf_eq_ok_iff_letters?]

theorem appendReturned_congr {n n' : Node} (h : n.letters? = n'.letters?) {d d' : Draft} :
    appendReturned d n = .ok d' ↔ appendReturned d n' = .ok d' := by
  have himp : ∀ {n n' : Node}, n.letters? = n'.letters? →
      appendReturned d n = .ok d' → appendReturned d n' = .ok d' := by
    intro n n' h hread
    obtain ⟨ps, hps, rfl⟩ := appendReturned_eq_ok_iff.1 hread
    have hsome : n'.letters? = some (Part.lettersOf ps) := by rw [← h, Node.letters?, hps]; rfl
    obtain ⟨ps', hps', hletters⟩ := Option.map_eq_some_iff.1 hsome
    exact appendReturned_eq_ok_iff.2 ⟨ps', hps', by rw [Part.merged_congr hletters]⟩
  exact ⟨himp h, himp h.symm⟩

inductive Respells : Node → Node → Prop
  | text {v v' : Node} (isText : v.IsText) (isText' : v'.IsText)
    (letters : v.letters? = v'.letters?) : Respells v v'
  | call {v v' callee callee' text text' : Node} {others others' : List Node} {span span' : Span}
    (value : v.unparenthesized = .call callee (text :: others) span)
    (value' : v'.unparenthesized = .call callee' (text' :: others') span')
    (callees : callee.plain = callee'.plain)
    (arguments : others.map Node.plain = others'.map Node.plain)
    (letters : text.letters? = text'.letters?) : Respells v v'
  | function {v v' result result' : Node} {isArrow isArrow' : Bool}
    {parameters parameters' others others' : List Node}
    {returnSpan returnSpan' bodySpan bodySpan' span span' : Span}
    (value : v.unparenthesized = .function isArrow parameters
      (.returnStatement (some result) returnSpan :: others) bodySpan span)
    (value' : v'.unparenthesized = .function isArrow' parameters'
      (.returnStatement (some result') returnSpan' :: others') bodySpan' span')
    (names : parameters.map Node.unplaced = parameters'.map Node.unplaced)
    (letters : result.letters? = result'.letters?) : Respells v v'
  | lambda {v v' result result' : Node} {parameters parameters' : List Node} {span span' : Span}
    (value : v.unparenthesized = .lambda parameters result span)
    (value' : v'.unparenthesized = .lambda parameters' result' span')
    (names : parameters.map Node.unplaced = parameters'.map Node.unplaced)
    (letters : result.letters? = result'.letters?) : Respells v v'

section Respelled
variable {d d' : Draft} {env : Surroundings} {site : Site}

theorem letters?_unparenthesized (n : Node) : n.unparenthesized.letters? = n.letters? := by
  rw [Node.letters?, Node.leaves_unparenthesized, Node.letters?]

theorem classify_of_isText {key : String} {value : Node} (h : value.IsText) :
    classify key value = .ok (.text value.unparenthesized) := by
  unfold Node.IsText at h
  unfold classify
  cases hvalue : value.unparenthesized with
  | binary operator left right span =>
    simp only [hvalue] at h
    rw [h]
    rfl
  | string | template => rfl
  | _ => simp [hvalue] at h

theorem parameterNames_congr {parameters parameters' : List Node}
    (h : parameters.map Node.unplaced = parameters'.map Node.unplaced) {names : List String} :
    parameterNames [] parameters = .ok names ↔ parameterNames [] parameters' = .ok names := by
  rw [← (parameterNames_unplaced [] parameters).eq_ok_iff, h,
    (parameterNames_unplaced [] parameters').eq_ok_iff]

theorem ofCall_cons_eq_ok {value callee text : Node} {others : List Node} {span : Span}
    (hvalue : value.unparenthesized = .call callee (text :: others) span) :
    ofCall d value = .ok d' ↔ callee.isReferenceTo Name.messageFunction ∧
      (others.findSome? spreadOf?).isSome = false ∧
      ∃ mid declared, appendMessageText d text = .ok mid ∧ declaredBy others = .ok declared ∧
        withOptions mid others = .ok d' ∧ ∀ x, x ∈ mid.placeholders ↔ x ∈ declared := by
  rw [ofCall_call_eq_ok hvalue, ofArguments_eq_ok]
  simp only [checkPlaceholders_eq_ok_iff]
  refine and_congr_right fun _ => and_congr_left fun ⟨mid, _, hmid, _⟩ => ?_
  obtain ⟨string, hstring, -⟩ := appendMessageText_eq_ok.1 hmid
  cases text with
  | spread => cases hstring
  | _ => rfl

theorem ofCall_congr {v v' callee callee' text text' : Node} {others others' : List Node}
    {span span' : Span} (hv : v.unparenthesized = .call callee (text :: others) span)
    (hv' : v'.unparenthesized = .call callee' (text' :: others') span')
    (hcallee : callee.plain = callee'.plain)
    (hothers : others.map Node.plain = others'.map Node.plain)
    (htext : text.letters? = text'.letters?) : ofCall d v = .ok d' ↔ ofCall d v' = .ok d' := by
  have hreference : callee.isReferenceTo Name.messageFunction =
      callee'.isReferenceTo Name.messageFunction := by
    rw [← isReferenceTo_plain, hcallee, isReferenceTo_plain]
  have hspread : (others.findSome? spreadOf?).isSome = (others'.findSome? spreadOf?).isSome := by
    rw [← findSome?_spreadOf?_plain, hothers, findSome?_spreadOf?_plain]
  have happend : ∀ mid,
      appendMessageText d text = .ok mid ↔ appendMessageText d text' = .ok mid := by
    simp only [appendMessageText_eq_ok, textOf_congr htext, implies_true]
  have hdeclared : ∀ names, declaredBy others = .ok names ↔ declaredBy others' = .ok names := by
    intro names
    rw [← (declaredBy_plain others).eq_ok_iff, hothers, (declaredBy_plain others').eq_ok_iff]
  have hoptions : ∀ mid, withOptions mid others = .ok d' ↔ withOptions mid others' = .ok d' := by
    intro mid
    rw [← (withOptions_plain mid others).eq_ok_iff, hothers,
      (withOptions_plain mid others').eq_ok_iff]
  simp only [ofCall_cons_eq_ok hv, ofCall_cons_eq_ok hv', hreference, hspread, happend, hdeclared,
    hoptions]

theorem not_ofCall_eq_ok {value : Node} (h : value.unparenthesized.isCall = false) :
    ofCall d value ≠ .ok d' := by
  intro hread
  unfold ofCall at hread
  split at hread
  · next hvalue =>
    rw [hvalue] at h
    cases h
  · exact absurd hread (fault_ne_ok _ _ _)

theorem draftOf_eq_ok_of_not_isCall {value : Node} (h : value.unparenthesized.isCall = false) :
    draftOf env site d value = .ok d' ↔
      site.kind = .variable ∧ draftOfVariable env site d value = .ok d' := by
  unfold draftOf
  split
  · next hkind => simp [hkind]
  · next hkind => exact iff_of_false (not_ofCall_eq_ok h) fun hread => hkind hread.1

theorem draftOfVariable_text_eq_ok {value : Node} (h : value.IsText) :
    draftOfVariable env site d value = .ok d' ↔
      ∃ mid, describeLegacy env site d = .ok mid ∧
        ∃ text, textOf value = .ok text ∧ mid.appendText text = d' := by
  have htext : ∀ text, textOf value.unparenthesized = .ok text ↔ textOf value = .ok text := fun _ =>
    textOf_congr (letters?_unparenthesized value)
  simp only [draftOfVariable, classify_of_isText h, bind_eq_ok, Except.ok.injEq, exists_eq_left',
    htext, pure, Except.pure]

theorem draftOf_function_eq_ok {value : Node} {parameters : List Node} {body : Body}
    (h : ∀ key, classify key value = .ok (.function parameters body)) :
    draftOf env site d value = .ok d' ↔ site.kind = .variable ∧
      ∃ mid, describeLegacy env site d = .ok mid ∧ ofFunction mid parameters body = .ok d' := by
  have hcall : value.unparenthesized.isCall = false := by
    have hof := of_classify (h "")
    generalize value.unparenthesized = n at hof
    cases hof <;> rfl
  rw [draftOf_eq_ok_of_not_isCall hcall]
  simp only [draftOfVariable, h, bind_eq_ok, Except.ok.injEq, exists_eq_left']

theorem draftOf_function_congr {v v' : Node} {parameters parameters' : List Node}
    {body body' : Body} (hv : ∀ key, classify key v = .ok (.function parameters body))
    (hv' : ∀ key, classify key v' = .ok (.function parameters' body'))
    (hnames : parameters.map Node.unplaced = parameters'.map Node.unplaced)
    (hbody : ∀ mid d', (∃ span, appendBody mid body = .ok (d', span)) ↔
      ∃ span, appendBody mid body' = .ok (d', span)) :
    draftOf env site d v = .ok d' ↔ draftOf env site d v' = .ok d' := by
  rw [draftOf_function_eq_ok hv, draftOf_function_eq_ok hv']
  refine and_congr_right fun _ => exists_congr fun mid => and_congr_right fun _ => ?_
  simp only [ofFunction_eq_ok, parameterNames_congr hnames, hbody]

theorem isCall_of_isText {n : Node} (h : n.IsText) : n.unparenthesized.isCall = false := by
  unfold Node.IsText at h
  cases hvalue : n.unparenthesized with
  | call => simp [hvalue] at h
  | _ => rfl

theorem Respells.isCall {v v' : Node} (h : Respells v v') :
    v.unparenthesized.isCall = v'.unparenthesized.isCall := by
  cases h with
  | text isText isText' => rw [isCall_of_isText isText, isCall_of_isText isText']
  | call value value' | function value value' | lambda value value' =>
    rw [value, value']
    rfl

theorem draftOfVariable_call_eq {value callee : Node} {arguments : List Node} {span : Span}
    (h : value.unparenthesized = .call callee arguments span) :
    draftOfVariable env site d value = ofCall (env.annotate site d) value := by
  have hclassify : classify d.displayKey value = .ok (.call (.call callee arguments span)) := by
    rw [classify, h]
  rw [draftOfVariable, hclassify, ofCall, h]
  rfl

theorem draftOf_call_eq {value callee : Node} {arguments : List Node} {span : Span}
    (h : value.unparenthesized = .call callee arguments span) :
    draftOf env site d value = ofCall (env.annotate site d) value := by
  unfold draftOf
  split
  · exact draftOfVariable_call_eq h
  · rfl

theorem appendBody_returned_eq_ok {result : Node} {others : List Node} {returnSpan span : Span} :
    (∃ span',
      appendBody d (.statements (.returnStatement (some result) returnSpan :: others) span) =
        .ok (d', span')) ↔ appendReturned d result = .ok d' := exists_map_eq_ok

theorem appendBody_result_eq_ok {result : Node} :
    (∃ span, appendBody d (.result result) = .ok (d', span)) ↔ appendReturned d result = .ok d' :=
  exists_map_eq_ok

theorem Respells.draftOf {v v' : Node} (h : Respells v v') :
    draftOf env site d v = .ok d' ↔ draftOf env site d v' = .ok d' := by
  have hcall := h.isCall
  cases h with
  | text isText isText' letters =>
    have hv : v.unparenthesized.isCall = false := isCall_of_isText isText
    rw [draftOf_eq_ok_of_not_isCall hv, draftOf_eq_ok_of_not_isCall (hcall ▸ hv),
      draftOfVariable_text_eq_ok isText, draftOfVariable_text_eq_ok isText']
    simp only [textOf_congr letters]
  | call value value' callees arguments letters =>
    rw [draftOf_call_eq value, draftOf_call_eq value']
    exact ofCall_congr value value' callees arguments letters
  | function value value' names letters =>
    refine draftOf_function_congr (fun key => by rw [classify, value])
      (fun key => by rw [classify, value']) names fun mid d' => ?_
    rw [appendBody_returned_eq_ok, appendBody_returned_eq_ok, appendReturned_congr letters]
  | lambda value value' names letters =>
    refine draftOf_function_congr (fun key => by rw [classify, value])
      (fun key => by rw [classify, value']) names fun mid d' => ?_
    rw [appendBody_result_eq_ok, appendBody_result_eq_ok, appendReturned_congr letters]

theorem Respells.not_isAlias {v v' : Node} (h : Respells v v') (s : Settings) :
    isAlias s v = false ∧ isAlias s v' = false := by
  have htext : ∀ {n : Node}, n.IsText → isAlias s n = false := by
    intro n hn
    unfold Node.IsText at hn
    unfold isAlias
    cases hvalue : n.unparenthesized with
    | name | member => simp [hvalue] at hn
    | _ => rfl
  cases h with
  | text isText isText' => exact ⟨htext isText, htext isText'⟩
  | call value value' | function value value' | lambda value value' =>
    unfold isAlias
    rw [value, value']
    exact ⟨rfl, rfl⟩

theorem outcome_eq_defined_iff {value : Node} {message : Message} :
    (candidateOf env { site with value := some value }).outcome = .defined message ↔
      Name.isMessage (site.oldName env).toList value.unparenthesized.isCall env.settings.style ∧
        isAlias env.settings value = false ∧
        (env.settings.style.isStrict → value.unparenthesized.isCall) ∧
        ∃ d, draftOf env site (site.draft env) value = .ok d ∧
          d.build env.settings.strategy = message := by
  rw [outcome_withValue]
  split_ifs with hname halias hstrict
  · simp [halias]
  · simp only [false_iff, not_and, not_exists]
    exact fun _ _ hcall => absurd (hcall hstrict.1) hstrict.2
  · have hallowed : env.settings.style.isStrict → value.unparenthesized.isCall := by
      simpa using hstrict
    cases draftOf env site (site.draft env) value with
    | error => simp
    | ok d => simpa [hname, halias] using fun _ => hallowed
  · simp [hname]

theorem Respells.defined {v v' : Node} (h : Respells v v') (message : Message) :
    (candidateOf env { site with value := some v }).outcome = .defined message ↔
      (candidateOf env { site with value := some v' }).outcome = .defined message := by
  obtain ⟨halias, halias'⟩ := h.not_isAlias env.settings
  rw [outcome_eq_defined_iff, outcome_eq_defined_iff, halias, halias', h.isCall]
  simp only [h.draftOf]

end Respelled

/-- A concatenation has a text just if all its operands have one, and then it is theirs, joined in
their order; the leftmost operand without a text is the fault. A returned concatenation adds to a
draft the texts and placeholders of its operands, without empty texts and with neighbouring texts as
one. A value that spells the same in another way gives the same message. -/
theorem concatenation_read (n : Node) :
    (∀ text, textOf n = .ok text ↔
      ∃ texts, n.leaves.mapM Node.text? = some texts ∧ String.join texts = text) ∧
    (∀ m, textOf n = .error m ↔ ∃ before leaf after, n.leaves = before ++ leaf :: after ∧
      (∀ earlier ∈ before, earlier.text?.isSome) ∧ textOf leaf = .error m) ∧
    (∀ d d', appendReturned d n = .ok d' ↔ ∃ ps, n.leaves.mapM Node.part? = some ps ∧
      d' = { d with parts := Part.joined d.parts (Part.merged ps) }) ∧
    ∀ n', Respells n n' → ∀ (env : Surroundings) (site : Site) (message : Message),
      (candidateOf env { site with value := some n }).outcome = .defined message ↔
        (candidateOf env { site with value := some n' }).outcome = .defined message :=
  ⟨fun _ => textOf_eq_ok_iff, fun _ => textOf_eq_error_iff, fun _ _ => appendReturned_eq_ok_iff,
    fun _ h _ _ message => h.defined message⟩

section Greeting

def splitGreeting : Node :=
  .binary "+" (.string (some "Hi ") ⟨0, 5⟩)
    (.paren (.binary "+" (.string (some "there") ⟨9, 16⟩) (.string (some "") ⟨19, 21⟩) ⟨9, 21⟩)
      ⟨8, 22⟩) ⟨0, 22⟩

def wholeGreeting : Node := .string (some "Hi there") ⟨0, 10⟩

def variableSite : Surroundings × Site :=
  (⟨{ style := .relax }, 0, ⟨"a.js", [], ⟨false, []⟩, []⟩⟩,
    ⟨.variable, "MSG_A", none, ⟨0, 0⟩, [], []⟩)

theorem concatenation_read_greeting :
    textOf splitGreeting = .ok "Hi there" ∧ Respells splitGreeting wholeGreeting ∧
      ∃ message, message.parts = [.text "Hi there"] ∧ ∀ n ∈ [splitGreeting, wholeGreeting],
        (candidateOf variableSite.1 { variableSite.2 with value := some n }).outcome =
          .defined message := by
  obtain ⟨htext, -, -, hrespelled⟩ := concatenation_read splitGreeting
  have hspells : Respells splitGreeting wholeGreeting := .text rfl trivial (by decide +kernel)
  refine ⟨(htext _).2 ⟨["Hi ", "there", ""], rfl, by decide⟩, hspells, ?_⟩
  have hdraft :
      draftOf variableSite.1 variableSite.2 (variableSite.2.draft variableSite.1) wholeGreeting =
        .ok { variableSite.2.draft variableSite.1 with parts := [.text "Hi there"] } := by
    decide +kernel
  have hwhole := outcome_eq_defined_iff.2 ⟨by decide +kernel, by decide +kernel, by decide +kernel,
    _, hdraft, rfl⟩
  have hsplit := (hrespelled _ hspells variableSite.1 variableSite.2 _).2 hwhole
  exact ⟨_, rfl, List.forall_mem_cons.2 ⟨hsplit, List.forall_mem_singleton.2 hwhole⟩⟩

end Greeting

end Definition
end MessageCatalog
