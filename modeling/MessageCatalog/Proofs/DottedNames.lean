import MessageCatalog.Proofs.Grouping

/-! Dotted names: which expressions have one, and that expressions of one dotted name are one
reference, which each of them writes with parentheses of its own. -/

namespace MessageCatalog

namespace Script

inductive Reference where
  | name (text : String)
  | this
  | member (base : Reference) (last : String)
  deriving Repr, DecidableEq

namespace Reference

def text : Reference → String
  | .name text => text
  | .this => "this"
  | .member base last => base.text ++ "." ++ last

def toNode : Reference → Node
  | .name text => .name text .nowhere
  | .this => .this .nowhere
  | .member base last => .member base.toNode last .nowhere

def length : Reference → Nat
  | .name _ => 0
  | .this => 0
  | .member base _ => base.length + 1

def IsProper : Reference → Prop
  | .name text => '.' ∉ text.toList ∧ text ≠ "this"
  | .this => True
  | .member base last => base.IsProper ∧ '.' ∉ last.toList

end Reference

namespace Node

/-- The expression is this reference, with any parentheses around it and around what its
properties are read from. -/
inductive Writes : Node → Reference → Prop
  | name {text : String} {span : Span} : Writes (.name text span) (.name text)
  | this {span : Span} : Writes (.this span) .this
  | member {base : Node} {r : Reference} {last : String} {span : Span} (writes : Writes base r) :
      Writes (.member base last span) (.member r last)
  | paren {inner : Node} {r : Reference} {span : Span} (writes : Writes inner r) :
      Writes (.paren inner span) r

def chain : Node → List Node
  | .paren inner span => .paren inner span :: chain inner
  | .member base last span => .member base last span :: chain base
  | node => [node]

def isLink : Node → Bool
  | .name .. => true
  | .this .. => true
  | .member .. => true
  | .paren .. => true
  | _ => false

def isMember : Node → Bool
  | .member .. => true
  | _ => false

structure IsProper (n : Node) : Prop where
  undotted : ∀ m ∈ n.chain, ∀ x ∈ m.spelled, '.' ∉ x.toList
  keyword : ∀ m ∈ n.chain, ∀ span, m ≠ .name "this" span

end Node

theorem toList_member (first last : String) :
    (first ++ "." ++ last).toList = first.toList ++ '.' :: last.toList := by
  simp

theorem append_cons_inj {α : Type} {as bs cs ds : List α} {x : α} (hb : x ∉ bs) (hd : x ∉ ds) :
    as ++ x :: bs = cs ++ x :: ds ↔ as = cs ∧ bs = ds := by
  constructor
  · intro heq
    rcases List.append_eq_append_iff.1 heq with ⟨more, rfl, hmore⟩ | ⟨more, rfl, hmore⟩
    · cases more with
      | nil => exact ⟨by simp, (List.cons.inj hmore).2⟩
      | cons y more =>
        obtain ⟨rfl, rfl⟩ := List.cons.inj hmore
        exact absurd (List.mem_append_right more List.mem_cons_self) hb
    · cases more with
      | nil => exact ⟨by simp, (List.cons.inj hmore).2.symm⟩
      | cons y more =>
        obtain ⟨rfl, rfl⟩ := List.cons.inj hmore
        exact absurd (List.mem_append_right more List.mem_cons_self) hd
  · rintro ⟨rfl, rfl⟩
    rfl

theorem member_inj {first last first' last' : String} (hlast : '.' ∉ last.toList)
    (hlast' : '.' ∉ last'.toList) :
    first ++ "." ++ last = first' ++ "." ++ last' ↔ first = first' ∧ last = last' := by
  rw [← String.toList_inj, toList_member, toList_member, append_cons_inj hlast hlast',
    String.toList_inj, String.toList_inj]

theorem dot_mem_member (first last : String) : '.' ∈ (first ++ "." ++ last).toList := by
  rw [toList_member]
  exact List.mem_append_right _ List.mem_cons_self

namespace Reference

theorem text_member_ne {base : Reference} {last text : String} (h : '.' ∉ text.toList) :
    (member base last).text ≠ text := by
  rintro rfl
  exact h (dot_mem_member base.text last)

theorem text_inj {r r' : Reference} (h : r.IsProper) (h' : r'.IsProper) :
    r.text = r'.text ↔ r = r' := by
  have hthis : '.' ∉ this.text.toList := by decide
  refine ⟨fun heq => ?_, congrArg text⟩
  induction r generalizing r' with
  | name x =>
    cases r' with
    | name x' => exact congrArg name heq
    | this => exact absurd heq h.2
    | member base' last' => exact absurd heq.symm (text_member_ne h.1)
  | this =>
    cases r' with
    | name x' => exact absurd heq.symm h'.2
    | this => rfl
    | member base' last' => exact absurd heq.symm (text_member_ne hthis)
  | member base last ih =>
    cases r' with
    | name x' => exact absurd heq (text_member_ne h'.1)
    | this => exact absurd heq (text_member_ne hthis)
    | member base' last' =>
      obtain ⟨hbase, rfl⟩ := (member_inj h.2 h'.2).1 heq
      rw [ih h.1 h'.1 hbase]

-- With dots in names, or with `this` as a name, two references could have one text.
example : (name "a.b").text = (member (name "a") "b").text ∧ (name "this").text = this.text := by
  decide

end Reference

namespace Node
variable {n : Node} {r : Reference}

theorem Writes.dottedName_eq (h : n.Writes r) : n.dottedName = some r.text := by
  induction h with
  | name => rfl
  | this => rfl
  | member _ ih =>
    rw [dottedName, ih]
    rfl
  | paren _ ih => exact ih

theorem dottedName_eq_some_iff {text : String} :
    n.dottedName = some text ↔ ∃ r : Reference, n.Writes r ∧ r.text = text := by
  constructor
  · intro h
    induction n using parts_induction generalizing text with
    | whole n ih =>
      cases n with
      | name x span => exact ⟨.name x, .name, Option.some.inj h⟩
      | this span => exact ⟨.this, .this, Option.some.inj h⟩
      | member base last span =>
        obtain ⟨first, hfirst, rfl⟩ := Option.map_eq_some_iff.1 h
        obtain ⟨r, hr, rfl⟩ := ih base List.mem_cons_self hfirst
        exact ⟨.member r last, .member hr, rfl⟩
      | paren inner span =>
        obtain ⟨r, hr, htext⟩ := ih inner List.mem_cons_self h
        exact ⟨r, .paren hr, htext⟩
      | _ => cases h
  · rintro ⟨r, hr, rfl⟩
    exact hr.dottedName_eq

theorem dottedName_eq_none_iff : n.dottedName = none ↔ ∃ m ∈ n.chain, ¬ m.isLink := by
  induction n using parts_induction with
  | whole n ih =>
    cases n with
    | member base last span =>
      have hbase := ih base List.mem_cons_self
      simp [dottedName, chain, isLink, hbase]
    | paren inner span =>
      have hinner := ih inner List.mem_cons_self
      simp [dottedName, chain, isLink, hinner]
    | _ => simp [dottedName, chain, isLink]

theorem Writes.plain_eq (h : n.Writes r) : n.plain = r.toNode := by
  induction h with
  | name => rfl
  | this => rfl
  | member _ ih => rw [plain, ih, Reference.toNode]
  | paren hinner ih =>
    -- Dots in parentheses have no plain form, but a reference holds none.
    cases hinner <;> exact ih

theorem Writes.countP_chain (h : n.Writes r) : n.chain.countP isMember = r.length := by
  induction h with
  | name => rfl
  | this => rfl
  | member _ ih =>
    rw [chain, List.countP_cons, ih]
    rfl
  | paren _ ih =>
    rw [chain, List.countP_cons, ih]
    rfl

theorem Writes.isProper (hr : n.Writes r) (h : n.IsProper) : r.IsProper := by
  obtain ⟨hundotted, hkeyword⟩ := h
  induction hr with
  | name =>
    refine ⟨?_, ?_⟩
    · exact hundotted _ List.mem_cons_self _ List.mem_cons_self
    · rintro rfl
      exact hkeyword _ List.mem_cons_self _ rfl
  | this => trivial
  | member _ ih =>
    obtain ⟨hlast, hbase⟩ := List.forall_mem_cons.1 hundotted
    exact ⟨ih hbase (List.forall_mem_cons.1 hkeyword).2, hlast _ List.mem_cons_self⟩
  | paren _ ih => exact ih (List.forall_mem_cons.1 hundotted).2 (List.forall_mem_cons.1 hkeyword).2

theorem IsProper.isReferenceTo_text_iff (h : n.IsProper) (hr : r.IsProper) :
    n.isReferenceTo r.text ↔ n.Writes r := by
  rw [isReferenceTo, decide_eq_true_iff, dottedName_eq_some_iff]
  constructor
  · rintro ⟨r', hr', htext⟩
    rwa [← (Reference.text_inj (hr'.isProper h) hr).1 htext]
  · exact fun hwrites => ⟨r, hwrites, rfl⟩

theorem writes_unparenthesized : n.unparenthesized.Writes r ↔ n.Writes r := by
  induction n using parts_induction with
  | whole n ih =>
    cases n with
    | paren inner span =>
      have hinner := ih inner List.mem_cons_self
      constructor
      · exact fun h => .paren (hinner.1 h)
      · rintro (_ | _ | _ | h)
        exact hinner.2 h
    | _ => exact Iff.rfl

theorem writes_name_iff {text : String} :
    n.Writes (.name text) ↔ ∃ span, n.unparenthesized = .name text span := by
  rw [← writes_unparenthesized]
  constructor
  · intro h
    generalize hn : n.unparenthesized = m at h
    cases h with
    | name => exact ⟨_, rfl⟩
    | paren => exact absurd hn n.unparenthesized_ne_paren
  · rintro ⟨span, hn⟩
    rw [hn]
    exact .name

theorem writes_member_iff {last : String} :
    n.Writes (.member r last) ↔
      ∃ base span, n.unparenthesized = .member base last span ∧ base.Writes r := by
  rw [← writes_unparenthesized]
  constructor
  · intro h
    generalize hn : n.unparenthesized = m at h
    cases h with
    | member hbase => exact ⟨_, _, rfl, hbase⟩
    | paren => exact absurd hn n.unparenthesized_ne_paren
  · rintro ⟨base, span, hn, hbase⟩
    rw [hn]
    exact .member hbase

end Node
end Script

namespace Definition
open Script (Node Reference)

theorem isReferenceTo_messageFunction_iff {e : Node} (h : e.IsProper) :
    e.isReferenceTo Name.messageFunction ↔ e.Writes (.member (.name "goog") "getMsg") := by
  have hproper : (Reference.member (.name "goog") "getMsg").IsProper := by
    refine ⟨⟨?_, ?_⟩, ?_⟩ <;> decide
  exact h.isReferenceTo_text_iff hproper

/-- An expression has no dotted name just if something other than names, `this`, properties and
parentheses is on its chain. Two expressions have one dotted name just if they write one reference,
and then they are the same without parentheses. So what refers to the message function is the
property `getMsg` of the name `goog`, in any parentheses: no other kind of access, and no further
property. -/
theorem dottedName_identifies (e : Node) :
    (e.dottedName = none ↔ ∃ m ∈ e.chain, ¬ m.isLink) ∧
    (e.IsProper →
      (∀ e' : Node, e'.IsProper →
        ((∃ name, e.dottedName = some name ∧ e'.dottedName = some name) ↔
          ∃ r : Reference, e.Writes r ∧ e'.Writes r ∧ e.plain = e'.plain)) ∧
      (e.isReferenceTo Name.messageFunction ↔
        ∃ base span inner, e.unparenthesized = .member base "getMsg" span ∧
          base.unparenthesized = .name "goog" inner) ∧
      (e.isReferenceTo Name.messageFunction →
        (∀ m ∈ e.chain, m.isLink) ∧ e.chain.countP Node.isMember = 1)) := by
  refine ⟨Node.dottedName_eq_none_iff, fun h => ⟨fun e' h' => ?_, ?_, fun hcalled => ?_⟩⟩
  · constructor
    · rintro ⟨name, hname, hname'⟩
      obtain ⟨r, hr, rfl⟩ := Node.dottedName_eq_some_iff.1 hname
      obtain ⟨r', hr', htext⟩ := Node.dottedName_eq_some_iff.1 hname'
      obtain rfl := (Reference.text_inj (hr'.isProper h') (hr.isProper h)).1 htext
      exact ⟨r', hr, hr', hr.plain_eq.trans hr'.plain_eq.symm⟩
    · rintro ⟨r, hr, hr', -⟩
      exact ⟨r.text, hr.dottedName_eq, hr'.dottedName_eq⟩
  · rw [isReferenceTo_messageFunction_iff h, Node.writes_member_iff]
    simp only [Node.writes_name_iff, exists_and_left]
  · have hwrites := (isReferenceTo_messageFunction_iff h).1 hcalled
    refine ⟨fun m hm => ?_, hwrites.countP_chain⟩
    by_contra hother
    have hnone := Node.dottedName_eq_none_iff.2 ⟨m, hm, hother⟩
    rw [hwrites.dottedName_eq] at hnone
    cases hnone

section Grouped

def groupedObject : Node := .member (.paren (.name "goog" ⟨1, 5⟩) ⟨0, 6⟩) "getMsg" ⟨0, 13⟩

def groupedFunction : Node :=
  .paren (.paren (.member (.name "goog" ⟨2, 6⟩) "getMsg" ⟨2, 13⟩) ⟨1, 14⟩) ⟨0, 15⟩

theorem dottedName_identifies_grouped :
    groupedObject.IsProper ∧ groupedFunction.IsProper ∧
      ∃ r : Reference, groupedObject.Writes r ∧ groupedFunction.Writes r ∧
        groupedObject.plain = groupedFunction.plain := by
  have hobject : groupedObject.IsProper := by
    constructor
    · decide
    · simp [groupedObject, Node.chain]
  have hfunction : groupedFunction.IsProper := by
    constructor
    · decide
    · simp [groupedFunction, Node.chain]
  have hname : ∃ name, groupedObject.dottedName = some name ∧
      groupedFunction.dottedName = some name := ⟨"goog.getMsg", by decide, by decide⟩
  exact ⟨hobject, hfunction, (((dottedName_identifies groupedObject).2 hobject).1
    groupedFunction hfunction).1 hname⟩

end Grouped

end Definition

end MessageCatalog
