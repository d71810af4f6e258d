import Mathlib.Data.List.Forall2
import MessageCatalog.Proofs.Tidy

/-! Where the nodes of a tree stand in the text. A visit follows the text, but for two constructs: a
`do` loop, whose test comes before its body, and a class, whose members come before its
superclass. -/

namespace MessageCatalog.Script

namespace Node

def InRow (start stop : Nat) : List Node → Prop
  | [] => True
  | n :: ns => start ≤ n.span.start ∧ n.span.start < n.span.stop ∧ n.span.stop ≤ stop ∧
      InRow n.span.stop stop ns

inductive Fits : Node → Prop
  | row {n : Node} (parts : InRow n.span.start n.span.stop n.parts) : Fits n
  | method {key : Node} {isArrow : Bool} {parameters body : List Node} {bodySpan inner span : Span}
      (parts : InRow span.start span.stop (key :: (parameters ++ body)))
      (function : InRow span.start span.stop [.function isArrow parameters body bodySpan inner])
      (lt : key.span.stop < inner.stop) :
      Fits (.method key (.function isArrow parameters body bodySpan inner) span)
  | doLoop {test body : Node} {span : Span} (parts : InRow span.start span.stop [body, test]) :
      Fits (.other .statement [test, body] span)
  | heritage {members : List Node} {superclass : Node} {span : Span}
      (parts : InRow span.start span.stop (superclass :: members)) :
      Fits (.other .expression (members ++ [superclass]) span)
  | emptyCase {test : List Node} {bodySpan span : Span} (parts : InRow span.start span.stop test)
      (lt : span.start < bodySpan.stop) (le : bodySpan.stop ≤ span.stop) :
      Fits (.other .part (test ++ [.sequence [] bodySpan]) span)

def IsLaidOut (n : Node) : Prop := ∀ m ∈ n.subnodes, m.Fits

/-- The nodes are laid out, and stand one after another between two offsets. -/
structure Stand (start stop : Nat) (ns : List Node) : Prop where
  row : InRow start stop ns
  each : ∀ n ∈ ns, n.IsLaidOut

def isBlank : Node → Bool
  | .sequence [] _ => true
  | _ => false

/-- One node is in a part that is visited before that of the other, although it stands after it. -/
inductive Overtakes (m l : Node) : Node → Prop
  | doLoop {test body : Node} {span : Span} (test_mem : m ∈ test.subnodes)
      (body_mem : l ∈ body.subnodes) (before : body.span.stop ≤ test.span.start) :
      Overtakes m l (.other .statement [test, body] span)
  | heritage {members : List Node} {member superclass : Node} {span : Span}
      (member_mem : member ∈ members) (mem : m ∈ member.subnodes)
      (superclass_mem : l ∈ superclass.subnodes) (before : superclass.span.stop ≤ member.span.start) :
      Overtakes m l (.other .expression (members ++ [superclass]) span)

variable {l m n : Node} {ns : List Node} {start stop : Nat}

theorem InRow.mem (h : InRow start stop ns) (hn : n ∈ ns) :
    start ≤ n.span.start ∧ n.span.start < n.span.stop ∧ n.span.stop ≤ stop := by
  induction ns generalizing start with
  | nil => cases hn
  | cons first rest ih =>
    obtain ⟨hstart, hlt, hstop, hrest⟩ := h
    rcases List.mem_cons.1 hn with rfl | hn
    · exact ⟨hstart, hlt, hstop⟩
    · obtain ⟨hlater, hinner⟩ := ih hrest hn
      exact ⟨by omega, hinner⟩

theorem InRow.order {before between after : List Node} (h : InRow start stop ns)
    (hns : ns = before ++ m :: (between ++ n :: after)) : m.span.stop ≤ n.span.start := by
  subst hns
  induction before generalizing start with
  | nil =>
    obtain ⟨-, -, -, hrest⟩ := h
    exact (hrest.mem (List.mem_append_right _ List.mem_cons_self)).1
  | cons first before ih =>
    obtain ⟨-, -, -, hrest⟩ := h
    exact ih hrest

theorem InRow.mono {start' stop' : Nat} (h : InRow start stop ns) (hstart : start' ≤ start)
    (hstop : stop ≤ stop') : InRow start' stop' ns := by
  induction ns generalizing start start' with
  | nil => trivial
  | cons first rest ih =>
    obtain ⟨hfirst, hlt, hle, hrest⟩ := h
    exact ⟨by omega, hlt, by omega, ih hrest (Nat.le_refl _)⟩

theorem InRow.append {middle middle' : Nat} {ms : List Node} (hns : InRow start middle ns)
    (hms : InRow middle' stop ms) (hmiddle : middle ≤ middle') (hstart : start ≤ middle')
    (hstop : middle ≤ stop) : InRow start stop (ns ++ ms) := by
  induction ns generalizing start with
  | nil => exact hms.mono hstart (Nat.le_refl _)
  | cons first rest ih =>
    obtain ⟨hfirst, hlt, hle, hrest⟩ := hns
    exact ⟨hfirst, hlt, by omega, ih hrest (by omega)⟩

theorem InRow.getLast (h : InRow start stop (n :: ns)) :
    let last := (n :: ns).getLast (List.cons_ne_nil n ns)
    InRow n.span.start last.span.stop (n :: ns) ∧ n.span.start < last.span.stop ∧
      last.span.stop ≤ stop := by
  induction ns generalizing start n with
  | nil =>
    obtain ⟨-, hlt, hle, -⟩ := h
    exact ⟨⟨Nat.le_refl _, hlt, Nat.le_refl _, trivial⟩, hlt, hle⟩
  | cons m ms ih =>
    obtain ⟨-, hlt, -, hrest⟩ := h
    obtain ⟨hstart, -⟩ := hrest.mem List.mem_cons_self
    obtain ⟨hrow, hlast, hle⟩ := ih hrest
    rw [List.getLast_cons_cons]
    exact ⟨⟨Nat.le_refl _, hlt, by omega, hrow.mono hstart (Nat.le_refl _)⟩, by omega, hle⟩

theorem isLaidOut_iff : n.IsLaidOut ↔ (∀ m ∈ n.parts, m.IsLaidOut) ∧ n.Fits := forall_mem_subnodes

theorem Fits.mem_parts (h : n.Fits) (hm : m ∈ n.parts) :
    n.span.start < m.span.stop ∧ m.span.stop ≤ n.span.stop ∧
      (m.isBlank = false → n.span.start ≤ m.span.start ∧ m.span.start < m.span.stop) := by
  have hrow : ∀ {ns}, InRow n.span.start n.span.stop ns → m ∈ ns →
      n.span.start < m.span.stop ∧ m.span.stop ≤ n.span.stop ∧
        (m.isBlank = false → n.span.start ≤ m.span.start ∧ m.span.start < m.span.stop) := by
    intro ns hns hm
    obtain ⟨hstart, hlt, hstop⟩ := hns.mem hm
    exact ⟨by omega, hstop, fun _ => ⟨hstart, hlt⟩⟩
  cases h with
  | row hparts => exact hrow hparts hm
  | method hparts hfunction _ =>
    rcases List.mem_cons.1 hm with rfl | hm
    · exact hrow hparts List.mem_cons_self
    · exact hrow hfunction hm
  | doLoop hparts => exact hrow hparts (by simpa [parts, or_comm] using hm)
  | heritage hparts => exact hrow hparts (by simpa [parts, or_comm] using hm)
  | emptyCase hparts hlt hle =>
    rcases List.mem_append.1 hm with hm | hm
    · exact hrow hparts hm
    · obtain rfl := List.mem_singleton.1 hm
      exact ⟨hlt, hle, fun hblank => by cases hblank⟩

theorem subnodes_of_isBlank (h : n.isBlank) : n.subnodes = [n] := by
  unfold isBlank at h
  split at h
  · rw [subnodes_eq]
    rfl
  · cases h

theorem IsLaidOut.within (h : n.IsLaidOut) (hlt : n.span.start < n.span.stop)
    (hm : m ∈ n.subnodes) :
    n.span.start < m.span.stop ∧ m.span.stop ≤ n.span.stop ∧
      (m.isBlank = false → n.span.start ≤ m.span.start ∧ m.span.start < m.span.stop) := by
  induction n using parts_induction with
  | whole n ih =>
    obtain ⟨hparts, hself⟩ := isLaidOut_iff.1 h
    rcases mem_subnodes.1 hm with rfl | ⟨part, hpart, hm⟩
    · exact ⟨hlt, Nat.le_refl _, fun _ => ⟨Nat.le_refl _, hlt⟩⟩
    · have hpart' := hself.mem_parts hpart
      cases hblank : part.isBlank with
      | true =>
        rw [subnodes_of_isBlank hblank, List.mem_singleton] at hm
        rw [hm]
        exact hpart'
      | false =>
        obtain ⟨-, hstop, hplace⟩ := hpart'
        obtain ⟨hstart, hinner⟩ := hplace hblank
        obtain ⟨hlt', hle', hplace'⟩ := ih part hpart (hparts part hpart) hinner hm
        refine ⟨by omega, by omega, fun hm => ?_⟩
        obtain ⟨hstart', hlt'⟩ := hplace' hm
        exact ⟨by omega, hlt'⟩

theorem eq_of_pair_eq {α : Type} {first second x y : α} {before between after : List α}
    (h : [first, second] = before ++ x :: (between ++ y :: after)) : x = first ∧ y = second := by
  have hlength := congrArg List.length h
  simp only [List.length_cons, List.length_append, List.length_nil] at hlength
  obtain rfl : before = [] := List.eq_nil_of_length_eq_zero (by omega)
  obtain rfl : between = [] := List.eq_nil_of_length_eq_zero (by omega)
  simp at h
  exact ⟨h.1.symm, h.2.1.symm⟩

theorem append_singleton_cases {α : Type} {xs before between after : List α} {last x y : α}
    (h : xs ++ [last] = before ++ x :: (between ++ y :: after)) :
    (x ∈ xs ∧ y = last) ∨ ∃ rest, xs = before ++ x :: (between ++ y :: rest) := by
  rcases List.eq_nil_or_concat after with rfl | ⟨rest, end', rfl⟩
  · have hsplit : xs ++ [last] = (before ++ x :: between) ++ [y] := by simpa using h
    obtain ⟨rfl, hlast⟩ := List.append_inj' hsplit rfl
    exact .inl ⟨by simp, (List.singleton_inj.1 hlast).symm⟩
  · have hsplit : xs ++ [last] = (before ++ x :: (between ++ y :: rest)) ++ [end'] := by
      simpa using h
    exact .inr ⟨rest, (List.append_inj' hsplit rfl).1⟩

theorem IsLaidOut.within_part (h : n.IsLaidOut) {part : Node} (hpart : part ∈ n.parts)
    (hm : m ∈ part.subnodes) (hblank : m.isBlank = false) :
    part.span.start ≤ m.span.start ∧ m.span.start < m.span.stop ∧
      m.span.stop ≤ part.span.stop := by
  obtain ⟨hinner, hself⟩ := isLaidOut_iff.1 h
  cases hblank' : part.isBlank with
  | true =>
    rw [subnodes_of_isBlank hblank', List.mem_singleton] at hm
    rw [hm, hblank'] at hblank
    cases hblank
  | false =>
    have hlt := ((hself.mem_parts hpart).2.2 hblank').2
    obtain ⟨-, hstop, hplace⟩ := (hinner part hpart).within hlt hm
    obtain ⟨hstart, hlt'⟩ := hplace hblank
    exact ⟨hstart, hlt', hstop⟩

/-- What is in a part that is visited later stands later in the text or is overtaken, if it is not
the function of a method. -/
theorem IsLaidOut.order (h : n.IsLaidOut) {before between after : List Node} {part later : Node}
    (hparts : n.parts = before ++ part :: (between ++ later :: after)) (hm : m ∈ part.subnodes)
    (hl : l ∈ later.subnodes) (hblank : m.isBlank = false) (hblank' : l.isBlank = false) :
    m.span.stop ≤ l.span.start ∨ Overtakes m l n ∨
      (l.isFunction ∧ m.span.stop < l.span.stop) := by
  obtain ⟨hinner, hself⟩ := isLaidOut_iff.1 h
  have hpart : part ∈ n.parts := by simp [hparts]
  have hlater : later ∈ n.parts := by simp [hparts]
  have hstop := (h.within_part hpart hm hblank).2.2
  have hstart := (h.within_part hlater hl hblank').1
  cases hself with
  | row hrow =>
    have horder := hrow.order hparts
    exact .inl (by omega)
  | @method _ _ _ _ _ inner _ hrow _ hlt =>
    obtain ⟨rfl, rfl⟩ := eq_of_pair_eq hparts
    -- The function itself starts before the key ends, but all that is in it starts after that.
    rcases mem_subnodes.1 hl with rfl | ⟨inner, hmem, hl⟩
    · have hstop' : m.span.stop < inner.stop := by omega
      exact .inr (.inr ⟨rfl, hstop'⟩)
    · obtain ⟨hkey, hlt, -⟩ := hrow.2.2.2.mem hmem
      have hlaid := (isLaidOut_iff.1 (hinner _ hlater)).1 inner hmem
      have hplace := ((hlaid.within hlt hl).2.2 hblank').1
      exact .inl (by omega)
  | doLoop hrow =>
    obtain ⟨rfl, rfl⟩ := eq_of_pair_eq hparts
    exact .inr (.inl (.doLoop hm hl hrow.2.2.2.1))
  | heritage hrow =>
    rcases append_singleton_cases hparts with ⟨hmember, rfl⟩ | ⟨rest, hmembers⟩
    · exact .inr (.inl (.heritage hmember hm hl (hrow.2.2.2.mem hmember).1))
    · have horder := hrow.2.2.2.order hmembers
      exact .inl (by omega)
  | emptyCase hrow _ _ =>
    rcases append_singleton_cases hparts with ⟨-, rfl⟩ | ⟨rest, htest⟩
    · rw [subnodes_of_isBlank rfl, List.mem_singleton] at hl
      rw [hl] at hblank'
      cases hblank'
    · have horder := hrow.order htest
      exact .inl (by omega)

theorem Overtakes.before (h : Overtakes m l n) (hn : n.IsLaidOut) (hblank : m.isBlank = false)
    (hblank' : l.isBlank = false) : l.span.stop ≤ m.span.start := by
  cases h with
  | doLoop hm hl hbefore =>
    have hstart := (hn.within_part (by simp [parts]) hm hblank).1
    have hstop := (hn.within_part (by simp [parts]) hl hblank').2.2
    omega
  | heritage hmember hm hl hbefore =>
    have hstart := (hn.within_part (List.mem_append_left _ hmember) hm hblank).1
    have hstop := (hn.within_part (by simp [parts]) hl hblank').2.2
    omega

section
variable {start' stop' middle middle' : Nat} {ms : List Node} {key test body superclass : Node}
  {parameters statements members tests : List Node} {isArrow : Bool} {bodySpan : Span}

theorem stand_nil : Stand start stop [] := ⟨trivial, nofun⟩

theorem stand_cons : Stand start stop (n :: ns) ↔
    n.IsLaidOut ∧ start ≤ n.span.start ∧ n.span.start < n.span.stop ∧ n.span.stop ≤ stop ∧
      Stand n.span.stop stop ns := by
  constructor
  · rintro ⟨⟨hstart, hlt, hstop, hrest⟩, heach⟩
    obtain ⟨hn, hns⟩ := List.forall_mem_cons.1 heach
    exact ⟨hn, hstart, hlt, hstop, hrest, hns⟩
  · rintro ⟨hn, hstart, hlt, hstop, hrest, hns⟩
    exact ⟨⟨hstart, hlt, hstop, hrest⟩, List.forall_mem_cons.2 ⟨hn, hns⟩⟩

theorem Stand.mono (h : Stand start stop ns) (hstart : start' ≤ start) (hstop : stop ≤ stop') :
    Stand start' stop' ns :=
  ⟨h.row.mono hstart hstop, h.each⟩

theorem Stand.append (hns : Stand start' middle ns) (hms : Stand middle' stop' ms)
    (hstart : start ≤ start') (hmiddle : middle ≤ middle') (hle : start ≤ middle')
    (hle' : middle ≤ stop) (hstop : stop' ≤ stop) : Stand start stop (ns ++ ms) :=
  ⟨(hns.mono hstart (Nat.le_refl _)).row.append (hms.mono (Nat.le_refl _) hstop).row hmiddle hle hle',
    List.forall_mem_append.2 ⟨hns.each, hms.each⟩⟩

theorem stand_append_cons : Stand start stop (ms ++ n :: ns) ↔
    Stand start n.span.start ms ∧ start ≤ n.span.start ∧ Stand n.span.start stop (n :: ns) := by
  constructor
  · rintro ⟨hrow, heach⟩
    obtain ⟨hms, hns⟩ := List.forall_mem_append.1 heach
    induction ms generalizing start with
    | nil =>
      obtain ⟨hstart, hlt, hle, hrest⟩ := hrow
      exact ⟨stand_nil, hstart, ⟨Nat.le_refl _, hlt, hle, hrest⟩, hns⟩
    | cons m ms ih =>
      obtain ⟨hstart, hlt, hle, hrest⟩ := hrow
      obtain ⟨hm, hms⟩ := List.forall_mem_cons.1 hms
      obtain ⟨hstand, hmiddle, hthere⟩ := ih hrest (List.forall_mem_append.2 ⟨hms, hns⟩) hms
      exact ⟨stand_cons.2 ⟨hm, hstart, hlt, hmiddle, hstand⟩, by omega, hthere⟩
  · rintro ⟨hms, hle, hns⟩
    have hstop := (stand_cons.1 hns).2.2
    exact hms.append hns (Nat.le_refl _) (Nat.le_refl _) hle (by omega) (Nat.le_refl _)

theorem isLaidOut_of_stand (h : Stand n.span.start n.span.stop n.parts) : n.IsLaidOut :=
  isLaidOut_iff.2 ⟨h.each, .row h.row⟩

theorem IsLaidOut.stand (h : n.IsLaidOut) (hspan : n.span = ⟨start, stop⟩) (hlt : start < stop) :
    Stand start stop [n] := by
  rw [stand_cons, hspan]
  exact ⟨h, Nat.le_refl _, hlt, Nat.le_refl _, stand_nil⟩

theorem stand_of_parts (h : Stand start stop n.parts) (hspan : n.span = ⟨start, stop⟩)
    (hlt : start < stop) : Stand start stop [n] := by
  have hlaid : n.IsLaidOut := isLaidOut_of_stand (by rw [hspan]; exact h)
  exact hlaid.stand hspan hlt

inductive FunctionAt (start inner stop : Nat) : Node → Prop
  | function {isArrow : Bool} {parameters statements : List Node} {bodySpan : Span}
      (lt : inner < stop) (parts : Stand inner stop (parameters ++ statements)) :
      FunctionAt start inner stop
        (.function isArrow parameters statements bodySpan ⟨start, stop⟩)

theorem FunctionAt.bounds {inner : Nat} (h : FunctionAt start inner stop n) :
    n.span = ⟨start, stop⟩ ∧ inner < stop := by
  cases h with
  | function hlt _ => exact ⟨rfl, hlt⟩

theorem FunctionAt.isLaidOut {inner : Nat} (h : FunctionAt start inner stop n)
    (hle : start ≤ inner) : n.IsLaidOut := by
  cases h with
  | function _ hparts => exact isLaidOut_of_stand (hparts.mono hle (Nat.le_refl _))

theorem FunctionAt.isLaidOut_method {inner : Nat} (h : FunctionAt start inner stop n)
    (hkey : key.IsLaidOut) (hstart : start ≤ key.span.start)
    (hlt : key.span.start < key.span.stop) (hle : key.span.stop ≤ inner) :
    (method key n ⟨start, stop⟩).IsLaidOut := by
  have hlaid := h.isLaidOut (by omega)
  refine isLaidOut_iff.2 ⟨List.forall_mem_cons.2 ⟨hkey, List.forall_mem_singleton.2 hlaid⟩, ?_⟩
  cases h with
  | function hinner hparts =>
    have hstop : key.span.stop < stop := by omega
    refine .method ⟨hstart, hlt, Nat.le_of_lt hstop, (hparts.mono hle (Nat.le_refl _)).row⟩ ?_ hstop
    exact ⟨Nat.le_refl _, show start < stop by omega, Nat.le_refl _, trivial⟩

theorem isLaidOut_doLoop (h : Stand start stop [body, test]) :
    (other .statement [test, body] ⟨start, stop⟩).IsLaidOut := by
  refine isLaidOut_iff.2 ⟨fun m hm => h.each m ?_, .doLoop h.row⟩
  simpa [parts, or_comm] using hm

theorem isLaidOut_heritage (h : Stand start stop (superclass :: members)) :
    (other .expression (members ++ [superclass]) ⟨start, stop⟩).IsLaidOut := by
  refine isLaidOut_iff.2 ⟨fun m hm => h.each m ?_, .heritage h.row⟩
  simpa [parts, or_comm] using hm

theorem isLaidOut_case (htests : Stand start bodySpan.start tests) (hle : Stand start stop tests)
    (hstatements : Stand bodySpan.start bodySpan.stop statements) (hstart : start ≤ bodySpan.start)
    (hlt : start < bodySpan.stop) (hstop : bodySpan.stop ≤ stop) :
    (other .part (tests ++ [sequence statements bodySpan]) ⟨start, stop⟩).IsLaidOut := by
  have hbody : (sequence statements bodySpan).IsLaidOut := isLaidOut_of_stand hstatements
  have heach : ∀ m ∈ tests ++ [sequence statements bodySpan], m.IsLaidOut :=
    List.forall_mem_append.2 ⟨htests.each, List.forall_mem_singleton.2 hbody⟩
  refine isLaidOut_iff.2 ⟨heach, ?_⟩
  cases statements with
  | nil => exact .emptyCase hle.row hlt hstop
  | cons first rest =>
    obtain ⟨-, hfirst, hlt, hlast, -⟩ := stand_cons.1 hstatements
    have hin : Stand bodySpan.start stop [sequence (first :: rest) bodySpan] :=
      stand_cons.2 ⟨hbody, Nat.le_refl _, show bodySpan.start < bodySpan.stop by omega, hstop,
        stand_nil⟩
    exact .row (htests.append hin (Nat.le_refl _) (Nat.le_refl _) hstart (by omega)
      (Nat.le_refl _)).row

end

theorem span_toPattern (n : Node) : n.toPattern.span = n.span := by
  unfold toPattern
  split <;> rfl

theorem Stand.congr {ms : List Node} (h : Stand start stop ns)
    (hms : List.Forall₂ (fun n m => m.IsLaidOut ∧ m.span = n.span) ns ms) : Stand start stop ms := by
  induction hms generalizing start with
  | nil => exact h
  | cons hm _ ih =>
    obtain ⟨-, hstart, hlt, hstop, hrest⟩ := stand_cons.1 h
    rw [stand_cons, hm.2]
    exact ⟨hm.1, hstart, hlt, hstop, ih hrest⟩

theorem IsLaidOut.toPattern (h : n.IsLaidOut) : n.toPattern.IsLaidOut := by
  induction n using parts_induction with
  | whole n ih =>
    obtain ⟨heach, hself⟩ := isLaidOut_iff.1 h
    have hmember : ∀ m ∈ n.parts, m.toPattern.IsLaidOut ∧ m.toPattern.span = m.span :=
      fun m hm => ⟨ih m hm (heach m hm), m.span_toPattern⟩
    have hall : List.Forall₂ (fun n m => m.IsLaidOut ∧ m.span = n.span) n.parts
        (toPatterns n.parts) := by
      rw [toPatterns_eq, List.forall₂_map_right_iff, List.forall₂_same]
      exact hmember
    unfold Node.toPattern
    split
    · obtain ⟨hrow⟩ := hself
      exact isLaidOut_of_stand (Stand.congr ⟨hrow, heach⟩ hall)
    · obtain ⟨hrow⟩ := hself
      refine isLaidOut_of_stand (Stand.congr ⟨hrow, heach⟩ ?_)
      exact .cons ⟨heach _ (by simp [parts]), rfl⟩ (.cons (hmember _ (by simp [parts])) .nil)
    · obtain ⟨hrow⟩ := hself
      refine isLaidOut_of_stand (Stand.congr ⟨hrow, heach⟩ ?_)
      exact .cons (hmember _ (by simp [parts])) .nil
    · obtain ⟨hrow⟩ := hself
      exact isLaidOut_of_stand (Stand.congr ⟨hrow, heach⟩ hall)
    · obtain ⟨hrow⟩ := hself
      refine isLaidOut_of_stand (Stand.congr ⟨hrow, heach⟩ ?_)
      exact .cons (hmember _ (by simp [parts])) (.cons ⟨heach _ (by simp [parts]), rfl⟩ .nil)
    · exact h

end Node

end MessageCatalog.Script
