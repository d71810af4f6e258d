import MessageCatalog.Proofs.ScopeDiscipline

/-! What a name refers to after any number of steps on the scopes. Each entry begins a scope of its
own, even where an earlier one was left at the same depth. A name has one binding in each scope that
declares it, no other name or scope has that binding, and a reference finds the binding in the
innermost open scope that declares the name. -/

namespace MessageCatalog.Scopes

inductive Step where
  | enter
  | exit
  | declare (name : String)
  | resolve (name : String)
  deriving Repr, DecidableEq

def perform (s : Scopes) : Step → Scopes
  | .enter => s.enter
  | .exit => s.exit
  | .declare name => s.declare name
  | .resolve _ => s

def after (steps : List Step) : Scopes := steps.foldl perform .empty

structure Nesting where
  inner : List Nat := []
  entered : Nat := 0

namespace Nesting

def perform (t : Nesting) : Step → Nesting
  | .enter => ⟨(t.entered + 1) :: t.inner, t.entered + 1⟩
  | .exit => { t with inner := t.inner.tail }
  | _ => t

def current (t : Nesting) : Nat := t.inner.headD 0

def stack (t : Nesting) : List Nat := t.inner ++ [0]

end Nesting

def nesting (steps : List Step) : Nesting := steps.foldl Nesting.perform {}

def Declares (steps : List Step) (scope : Nat) (name : String) (binding : Binding) : Prop :=
  ∃ before rest, steps = before ++ .declare name :: rest ∧
    (nesting before).current = scope ∧ (after before).declared name = binding

def declarations (steps : List Step) : Nat :=
  steps.countP fun | .declare _ => true | _ => false

def level : List Step → Int
  | [] => 0
  | .enter :: steps => level steps + 1
  | .exit :: steps => level steps - 1
  | _ :: steps => level steps

structure Balanced (steps : List Step) : Prop where
  level_eq : level steps = 0
  level_nonneg : ∀ before, before <+: steps → 0 ≤ level before

variable {steps : List Step} {scope scope' : Nat} {name name' : String} {binding binding' : Binding}

theorem after_concat (steps : List Step) (step : Step) :
    after (steps ++ [step]) = (after steps).perform step := by
  rw [after, List.foldl_append]
  rfl

theorem nesting_concat (steps : List Step) (step : Step) :
    nesting (steps ++ [step]) = (nesting steps).perform step := by
  rw [nesting, List.foldl_append]
  rfl

theorem declares_concat {step : Step} : Declares (steps ++ [step]) scope name binding ↔
    Declares steps scope name binding ∨
      step = .declare name ∧ (nesting steps).current = scope ∧
        (after steps).declared name = binding := by
  constructor
  · rintro ⟨before, rest, hsplit, hscope, hbinding⟩
    rcases Definition.append_eq_append_cons hsplit with ⟨mid, hsteps, -⟩ | ⟨mid, rfl, hstep⟩
    · exact .inl ⟨before, mid, hsteps, hscope, hbinding⟩
    · cases mid with
      | nil =>
        rw [List.append_nil] at hscope hbinding
        exact .inr ⟨(List.cons.inj hstep).1, hscope, hbinding⟩
      | cons first mid => simp at hstep
  · rintro (⟨before, rest, rfl, hscope, hbinding⟩ | ⟨rfl, hscope, hbinding⟩)
    · exact ⟨before, rest ++ [step], by simp, hscope, hbinding⟩
    · exact ⟨steps, [], rfl, hscope, hbinding⟩

theorem not_declares_nil : ¬ Declares [] scope name binding := by
  rintro ⟨before, rest, hsplit, -⟩
  simp at hsplit

def leave {α : Type} : List α → List α
  | [] => []
  | [scope] => [scope]
  | _ :: scopes => scopes

theorem leave_concat {α : Type} (inner : List α) (last : α) :
    leave (inner ++ [last]) = inner.tail ++ [last] := by
  match inner with
  | [] => rfl
  | [_] => rfl
  | _ :: _ :: _ => rfl

theorem forall₂_leave {α β : Type} {R : α → β → Prop} {l : List α} {l' : List β}
    (h : List.Forall₂ R l l') : List.Forall₂ R (leave l) (leave l') := by
  cases h with
  | nil => exact .nil
  | cons hfirst hrest =>
    cases hrest with
    | nil => exact .cons hfirst .nil
    | cons hsecond hrest => exact .cons hsecond hrest

theorem openScopes_exit (s : Scopes) : s.exit.openScopes = leave s.openScopes :=
  (leave_concat s.inner s.global).symm

theorem Nesting.stack_exit (t : Nesting) : (t.perform .exit).stack = leave t.stack :=
  (leave_concat t.inner 0).symm

theorem Nesting.stack_eq (t : Nesting) : t.stack = t.current :: t.stack.tail := by
  unfold stack current
  cases t.inner <;> rfl

theorem openScopes_eq (s : Scopes) : s.openScopes = s.innermost :: s.openScopes.tail := by
  unfold openScopes innermost
  cases s.inner <;> rfl

theorem openScopes_declare (s : Scopes) (name : String) :
    (s.declare name).openScopes = (s.declare name).innermost :: s.openScopes.tail := by
  by_cases hknown : s.innermost.contains name
  · rw [declare_of_contains hknown]
    exact s.openScopes_eq
  · rw [openScopes_eq, declare, if_neg hknown]
    unfold setInnermost openScopes
    cases s.inner <;> rfl

structure Nesting.Ordered (t : Nesting) : Prop where
  stack : t.stack.Pairwise (· > ·)
  entered : ∀ scope ∈ t.stack, scope ≤ t.entered

theorem Nesting.Ordered.perform {t : Nesting} (h : t.Ordered) (step : Step) :
    (t.perform step).Ordered := by
  cases step with
  | enter =>
    refine ⟨List.pairwise_cons.2 ⟨fun scope hscope => ?_, h.stack⟩, fun scope hscope => ?_⟩
    · exact Nat.lt_succ_of_le (h.entered scope hscope)
    · rcases List.mem_cons.1 hscope with rfl | hscope
      · exact Nat.le_refl _
      · exact Nat.le_succ_of_le (h.entered scope hscope)
  | exit =>
    have hsublist : List.Sublist (t.inner.tail ++ [0]) (t.inner ++ [0]) :=
      (List.tail_sublist t.inner).append_right [0]
    exact ⟨h.stack.sublist hsublist, fun scope hscope => h.entered scope (hsublist.subset hscope)⟩
  | declare name => exact h
  | resolve name => exact h

theorem ordered_nesting (steps : List Step) : (nesting steps).Ordered := by
  induction steps using List.reverseRecOn with
  | nil => exact ⟨List.pairwise_singleton _ _, by simp [nesting, Nesting.stack]⟩
  | append_singleton steps step ih =>
    rw [nesting_concat]
    exact ih.perform step

theorem entered_le_concat (steps : List Step) (step : Step) :
    (nesting steps).entered ≤ (nesting (steps ++ [step])).entered := by
  rw [nesting_concat]
  cases step with
  | enter => exact Nat.le_succ _
  | exit | declare | resolve => exact Nat.le_refl _

theorem Declares.le_entered (h : Declares steps scope name binding) :
    scope ≤ (nesting steps).entered := by
  induction steps using List.reverseRecOn with
  | nil => exact absurd h not_declares_nil
  | append_singleton steps step ih =>
    refine Nat.le_trans ?_ (entered_le_concat steps step)
    rcases declares_concat.1 h with h | ⟨-, rfl, -⟩
    · exact ih h
    · refine (ordered_nesting steps).entered _ ?_
      rw [Nesting.stack_eq]
      exact List.mem_cons_self

theorem find?_declare_self (s : Scopes) (name : String) :
    (s.declare name).innermost.find? name = some (s.declared name) := by
  unfold declared
  by_cases hknown : s.innermost.contains name
  · rw [declare_of_contains hknown]
    obtain ⟨binding, hbinding⟩ := Option.isSome_iff_exists.1 hknown
    rw [hbinding]
    rfl
  · rw [innermost_declare hknown, Table.find?_insert, if_pos rfl]
    rw [Table.contains, Option.not_isSome_iff_eq_none] at hknown
    rw [hknown]
    rfl

theorem find?_declare_of_ne (s : Scopes) (hne : name' ≠ name) :
    (s.declare name').innermost.find? name = s.innermost.find? name := by
  by_cases hknown : s.innermost.contains name'
  · rw [declare_of_contains hknown]
  · rw [innermost_declare hknown, Table.find?_insert, if_neg hne]

def Holds (steps : List Step) (scope : Nat) (table : Table String Binding) : Prop :=
  ∀ name binding, table.find? name = some binding ↔ Declares steps scope name binding

/-- The open scopes hold what has been declared in them, and bindings count the declarations. -/
structure Recorded (steps : List Step) : Prop where
  scopes : List.Forall₂ (Holds steps) (nesting steps).stack (after steps).openScopes
  fresh : ∀ {scope name binding}, Declares steps scope name binding →
    binding.index < (after steps).next
  unique : ∀ {scope name binding scope' name' binding'}, Declares steps scope name binding →
    Declares steps scope' name' binding' → (binding = binding' ↔ scope = scope' ∧ name = name')
  next : (after steps).next ≤ declarations steps

theorem Recorded.scopes_cons (h : Recorded steps) :
    Holds steps (nesting steps).current (after steps).innermost ∧
      List.Forall₂ (Holds steps) (nesting steps).stack.tail (after steps).openScopes.tail := by
  have hscopes := h.scopes
  rwa [Nesting.stack_eq, openScopes_eq, List.forall₂_cons] at hscopes

theorem Recorded.of_stays (h : Recorded steps) {step : Step}
    (hdeclares : Declares (steps ++ [step]) = Declares steps)
    (hscopes : List.Forall₂ (Holds steps) (nesting (steps ++ [step])).stack
      (after (steps ++ [step])).openScopes)
    (hnext : (after (steps ++ [step])).next = (after steps).next) : Recorded (steps ++ [step]) := by
  have hholds : Holds (steps ++ [step]) = Holds steps := by
    unfold Holds
    rw [hdeclares]
  refine ⟨?_, ?_, ?_, ?_⟩
  · rwa [hholds]
  · rw [hdeclares, hnext]
    exact h.fresh
  · rw [hdeclares]
    exact h.unique
  · rw [hnext, declarations, List.countP_append]
    exact h.next.trans (Nat.le_add_right _ _)

theorem declares_concat_of_ne {step : Step} (hne : ∀ name, step ≠ .declare name) :
    Declares (steps ++ [step]) = Declares steps := by
  funext scope name binding
  rw [declares_concat, eq_iff_iff, or_iff_left]
  exact fun h => hne name h.1

theorem Recorded.enter (h : Recorded steps) : Recorded (steps ++ [.enter]) := by
  refine h.of_stays (declares_concat_of_ne (by simp)) ?_ (by rw [after_concat]; rfl)
  rw [nesting_concat, after_concat]
  refine .cons (fun name binding => ?_) h.scopes
  -- No step can have declared anything in a scope that is only now entered.
  refine iff_of_false (by simp) fun hdeclares => ?_
  exact Nat.not_succ_le_self _ hdeclares.le_entered

theorem Recorded.exit (h : Recorded steps) : Recorded (steps ++ [.exit]) := by
  refine h.of_stays (declares_concat_of_ne (by simp)) ?_ (by rw [after_concat]; rfl)
  rw [nesting_concat, after_concat, Nesting.stack_exit, perform, openScopes_exit]
  exact forall₂_leave h.scopes

theorem Recorded.resolve (h : Recorded steps) (name : String) :
    Recorded (steps ++ [.resolve name]) := by
  refine h.of_stays (declares_concat_of_ne (by simp)) ?_ (by rw [after_concat]; rfl)
  rw [nesting_concat, after_concat]
  exact h.scopes

theorem Recorded.redeclare (h : Recorded steps)
    (hknown : (after steps).innermost.contains name) : Recorded (steps ++ [.declare name]) := by
  have hafter : after (steps ++ [.declare name]) = after steps :=
    (after_concat steps _).trans (declare_of_contains hknown)
  have hagain : Declares steps (nesting steps).current name ((after steps).declared name) := by
    have hfind := find?_declare_self (after steps) name
    rw [declare_of_contains hknown] at hfind
    exact (h.scopes_cons.1 name _).1 hfind
  refine h.of_stays ?_ ?_ (congrArg Scopes.next hafter)
  · funext scope name' binding
    rw [declares_concat, eq_iff_iff, or_iff_left_iff_imp]
    rintro ⟨hname, rfl, rfl⟩
    obtain rfl := Step.declare.inj hname
    exact hagain
  · rw [hafter, nesting_concat]
    exact h.scopes

section New
variable (hnew : ¬ (after steps).innermost.contains name)
include hnew

theorem declares_concat_declare : Declares (steps ++ [.declare name]) scope name' binding ↔
    Declares steps scope name' binding ∨
      (nesting steps).current = scope ∧ name = name' ∧ ⟨(after steps).next⟩ = binding := by
  have hdeclared : (after steps).declared name = ⟨(after steps).next⟩ := by
    rw [Table.contains, Option.not_isSome_iff_eq_none] at hnew
    rw [declared, hnew]
    rfl
  rw [declares_concat, Step.declare.injEq]
  refine or_congr_right ⟨?_, ?_⟩
  · rintro ⟨rfl, hscope, hbinding⟩
    exact ⟨hscope, rfl, hdeclared.symm.trans hbinding⟩
  · rintro ⟨hscope, rfl, hbinding⟩
    exact ⟨rfl, hscope, hdeclared.trans hbinding⟩

theorem Recorded.scopes_declare (h : Recorded steps) :
    List.Forall₂ (Holds (steps ++ [.declare name])) (nesting steps).stack
      ((after steps).declare name).openScopes := by
  obtain ⟨hcurrent, hrest⟩ := h.scopes_cons
  -- The scopes around the innermost one have lower numbers, and are not touched.
  have hlower : ∀ scope ∈ (nesting steps).stack.tail, (nesting steps).current ≠ scope := by
    have hordered := (ordered_nesting steps).stack
    rw [Nesting.stack_eq] at hordered
    exact fun scope hscope => Nat.ne_of_gt ((List.pairwise_cons.1 hordered).1 scope hscope)
  rw [Nesting.stack_eq, openScopes_declare, innermost_declare hnew]
  refine .cons (fun name' binding => ?_) ?_
  · rw [Table.find?_insert, declares_concat_declare hnew, ← hcurrent]
    split_ifs with hname
    · subst hname
      have hnone : (after steps).innermost.find? name = none := by simpa [Table.contains] using hnew
      simp [hnone]
    · simp [hname]
  · refine ((List.forall₂_and_left _ _).2 ⟨hlower, hrest⟩).imp ?_
    rintro scope table ⟨hscope, hholds⟩ name' binding
    rw [hholds, declares_concat_declare hnew, or_iff_left]
    exact fun h => hscope h.1

theorem Recorded.unique_declare (h : Recorded steps)
    (hleft : Declares (steps ++ [.declare name]) scope name' binding)
    {name'' : String} (hright : Declares (steps ++ [.declare name]) scope' name'' binding') :
    binding = binding' ↔ scope = scope' ∧ name' = name'' := by
  have hnone : ∀ binding, ¬ Declares steps (nesting steps).current name binding := by
    intro binding hdeclares
    rw [← h.scopes_cons.1] at hdeclares
    exact hnew (Option.isSome_iff_exists.2 ⟨binding, hdeclares⟩)
  rw [declares_concat_declare hnew] at hleft hright
  rcases hleft with hleft | ⟨rfl, rfl, rfl⟩ <;> rcases hright with hright | ⟨rfl, rfl, rfl⟩
  · exact h.unique hleft hright
  · refine iff_of_false ?_ ?_
    · rintro rfl
      exact Nat.lt_irrefl _ (h.fresh hleft)
    · rintro ⟨rfl, rfl⟩
      exact hnone _ hleft
  · refine iff_of_false ?_ ?_
    · rintro rfl
      exact Nat.lt_irrefl _ (h.fresh hright)
    · rintro ⟨rfl, rfl⟩
      exact hnone _ hright
  · simp

theorem Recorded.declare_new (h : Recorded steps) : Recorded (steps ++ [.declare name]) := by
  have hafter : after (steps ++ [.declare name]) = (after steps).declare name := after_concat ..
  have hnext : (after (steps ++ [.declare name])).next = (after steps).next + 1 := by
    rw [hafter, next_declare hnew]
  refine ⟨?_, ?_, fun hleft hright => h.unique_declare hnew hleft hright, ?_⟩
  · rw [hafter, nesting_concat]
    exact h.scopes_declare hnew
  · intro scope name' binding hdeclares
    rw [hnext]
    rcases (declares_concat_declare hnew).1 hdeclares with hdeclares | ⟨-, -, rfl⟩
    · exact Nat.lt_succ_of_lt (h.fresh hdeclares)
    · exact Nat.lt_succ_self _
  · rw [hnext, declarations, List.countP_append]
    exact Nat.add_le_add_right h.next 1

end New

theorem recorded (steps : List Step) : Recorded steps := by
  induction steps using List.reverseRecOn with
  | nil =>
    refine ⟨.cons (fun name binding => ?_) .nil, fun h => absurd h not_declares_nil,
      fun h => absurd h not_declares_nil, Nat.le_refl _⟩
    exact iff_of_false (by simp [after, empty]) not_declares_nil
  | append_singleton steps step ih =>
    cases step with
    | enter => exact ih.enter
    | exit => exact ih.exit
    | resolve name => exact ih.resolve name
    | declare name =>
      by_cases hknown : (after steps).innermost.contains name
      · exact ih.redeclare hknown
      · exact ih.declare_new hknown

theorem exists_first_cons {α : Type} {p q : α → Prop} {a : α} {l : List α} :
    (∃ before b rest, a :: l = before ++ b :: rest ∧ p b ∧ ∀ c ∈ before, q c) ↔
      p a ∨ q a ∧ ∃ before b rest, l = before ++ b :: rest ∧ p b ∧ ∀ c ∈ before, q c := by
  constructor
  · rintro ⟨before, b, rest, hsplit, hb, hbefore⟩
    cases before with
    | nil =>
      obtain ⟨rfl, rfl⟩ := List.cons.inj hsplit
      exact .inl hb
    | cons first before =>
      obtain ⟨rfl, rfl⟩ := List.cons.inj hsplit
      obtain ⟨ha, hbefore⟩ := List.forall_mem_cons.1 hbefore
      exact .inr ⟨ha, before, b, rest, rfl, hb, hbefore⟩
  · rintro (ha | ⟨ha, before, b, rest, rfl, hb, hbefore⟩)
    · exact ⟨[], a, l, rfl, ha, by simp⟩
    · exact ⟨a :: before, b, rest, rfl, hb, List.forall_mem_cons.2 ⟨ha, hbefore⟩⟩

theorem findSome?_eq_some_iff {numbers : List Nat} {tables : List (Table String Binding)}
    (h : List.Forall₂ (Holds steps) numbers tables) :
    tables.findSome? (·.find? name) = some binding ↔
      ∃ inner scope outer, numbers = inner ++ scope :: outer ∧ Declares steps scope name binding ∧
        ∀ scope' ∈ inner, ∀ binding', ¬ Declares steps scope' name binding' := by
  induction h with
  | nil => simp
  | @cons number table numbers tables hholds hrest ih =>
    rw [List.findSome?_cons, exists_first_cons, ← ih]
    cases hfind : table.find? name with
    | some binding' =>
      have hdeclares := (hholds name binding').1 hfind
      rw [or_iff_left fun hnone => hnone.1 binding' hdeclares, ← hholds, hfind]
    | none =>
      have hnone : ∀ binding', ¬ Declares steps number name binding' := by
        intro binding' hdeclares
        rw [← hholds, hfind] at hdeclares
        cases hdeclares
      rw [or_iff_right (hnone binding), and_iff_right hnone]

def Kept (name : String) (s : Scopes) (above : Nat) (s' : Scopes) : Prop :=
  ∃ opened rest, s'.openScopes = opened ++ rest ∧ opened.length = above ∧
    rest.map (·.find? name) = s.openScopes.map (·.find? name)

variable {s s' : Scopes} {above : Nat}

theorem level_cons (step : Step) (steps : List Step) :
    level (step :: steps) = level [step] + level steps := by
  cases step <;> simp only [level] <;> omega

theorem Kept.enter (h : Kept name s above s') : Kept name s (above + 1) s'.enter := by
  obtain ⟨opened, rest, hsplit, hlength, hrest⟩ := h
  refine ⟨.empty :: opened, rest, ?_, by rw [List.length_cons, hlength], hrest⟩
  exact congrArg (Table.empty :: ·) hsplit

theorem Kept.exit (h : Kept name s (above + 1) s') : Kept name s above s'.exit := by
  obtain ⟨opened, rest, hsplit, hlength, hrest⟩ := h
  obtain ⟨first, opened, rfl⟩ := List.exists_cons_of_length_eq_add_one hlength
  refine ⟨opened, rest, ?_, Nat.succ.inj hlength, hrest⟩
  have hne : rest ≠ [] := by
    rintro rfl
    rw [openScopes_eq] at hrest
    cases hrest
  rw [openScopes_exit, hsplit, List.cons_append]
  cases hopened : opened ++ rest with
  | nil => exact absurd (List.append_eq_nil_iff.1 hopened).2 hne
  | cons second scopes => rfl

theorem Kept.declare (h : Kept name s above s') (hname : name' = name → above ≠ 0) :
    Kept name s above (s'.declare name') := by
  obtain ⟨opened, rest, hsplit, hlength, hrest⟩ := h
  rw [openScopes_eq] at hsplit
  cases opened with
  | nil =>
    have hother : name' ≠ name := fun heq => hname heq hlength.symm
    rw [List.nil_append] at hsplit
    refine ⟨[], (s'.declare name').openScopes, rfl, hlength, ?_⟩
    rw [openScopes_declare, List.map_cons, find?_declare_of_ne s' hother, ← hrest, ← hsplit]
    rfl
  | cons first opened =>
    obtain ⟨-, htail⟩ := List.cons.inj hsplit
    refine ⟨(s'.declare name').innermost :: opened, rest, ?_, hlength, hrest⟩
    rw [openScopes_declare, htail]
    rfl

theorem Kept.perform (h : Kept name s above s') (step : Step) (hlevel : 0 ≤ above + level [step])
    (hname : step = .declare name → above ≠ 0) :
    ∃ above' : Nat, (above' : Int) = above + level [step] ∧
      Kept name s above' (s'.perform step) := by
  cases step with
  | enter => exact ⟨above + 1, rfl, h.enter⟩
  | exit =>
    cases above with
    | zero => exact absurd hlevel (by decide)
    | succ above => exact ⟨above, by simp only [level]; omega, h.exit⟩
  | resolve => exact ⟨above, by simp [level], h⟩
  | declare name' =>
    exact ⟨above, by simp [level], h.declare fun heq => hname (congrArg Step.declare heq)⟩

theorem Kept.foldl (h : Kept name s above s')
    (hlevel : ∀ before, before <+: steps → 0 ≤ above + level before)
    (hname : ∀ before rest, steps = before ++ .declare name :: rest →
      above + level before ≠ 0) :
    ∃ above' : Nat, (above' : Int) = above + level steps ∧
      Kept name s above' (steps.foldl Scopes.perform s') := by
  induction steps generalizing above s' with
  | nil => exact ⟨above, by simp [level], h⟩
  | cons step steps ih =>
    obtain ⟨above₁, habove₁, h₁⟩ := h.perform step
      (hlevel [step] (List.prefix_append [step] steps)) fun hstep =>
        by simpa [level] using hname [] steps (by rw [hstep]; rfl)
    have hlevel₁ : ∀ before, before <+: steps → 0 ≤ above₁ + level before := by
      intro before hbefore
      have hcons := hlevel (step :: before) ((List.prefix_cons_inj step).2 hbefore)
      rwa [level_cons, ← Int.add_assoc, ← habove₁] at hcons
    have hname₁ : ∀ before rest, steps = before ++ .declare name :: rest →
        above₁ + level before ≠ 0 := by
      intro before rest hsplit
      have hcons := hname (step :: before) rest (congrArg (step :: ·) hsplit)
      rwa [level_cons, ← Int.add_assoc, ← habove₁] at hcons
    obtain ⟨above₂, habove₂, h₂⟩ := ih h₁ hlevel₁ hname₁
    exact ⟨above₂, by rw [habove₂, habove₁, level_cons step steps, Int.add_assoc], h₂⟩

theorem resolve_eq (s : Scopes) (name : String) :
    s.resolve name = (s.openScopes.map (·.find? name)).findSome? id := by
  rw [List.findSome?_map]
  rfl

theorem resolve_foldl (hbalanced : Balanced steps)
    (hname : ∀ before rest, steps = before ++ .declare name :: rest → level before ≠ 0) :
    (steps.foldl perform s).resolve name = s.resolve name := by
  have hstart : Kept name s 0 s := ⟨[], s.openScopes, rfl, rfl, rfl⟩
  obtain ⟨above, habove, opened, rest, hsplit, hlength, hrest⟩ := hstart.foldl
    (by simpa using hbalanced.level_nonneg) (by simpa using hname)
  have hzero : above = 0 := by
    rw [hbalanced.level_eq] at habove
    omega
  obtain rfl := List.eq_nil_of_length_eq_zero (hlength.trans hzero)
  rw [List.nil_append] at hsplit
  rw [resolve_eq, hsplit, hrest, resolve_eq]

/-- A name refers to its binding in the innermost open scope that declares it. Declared again in one
scope it keeps that binding, and each other scope or name gets another; the bindings are no more than
the declarations. What is declared in scopes that have been left again does not matter. -/
theorem resolve_history (steps : List Step) :
    (∀ name binding, (after steps).resolve name = some binding ↔
      ∃ inner scope outer, (nesting steps).stack = inner ++ scope :: outer ∧
        Declares steps scope name binding ∧
        ∀ scope' ∈ inner, ∀ binding', ¬ Declares steps scope' name binding') ∧
    (∀ scope name binding scope' name' binding', Declares steps scope name binding →
      Declares steps scope' name' binding' → (binding = binding' ↔ scope = scope' ∧ name = name')) ∧
    (∀ scope name binding, Declares steps scope name binding →
      binding.index < declarations steps) ∧
    (after steps).depth = (nesting steps).stack.length ∧
    ∀ more, Balanced more → ∀ name,
      (∀ before rest, more = before ++ .declare name :: rest → level before ≠ 0) →
      (after (steps ++ more)).resolve name = (after steps).resolve name := by
  have hrecorded := recorded steps
  refine ⟨fun name binding => findSome?_eq_some_iff hrecorded.scopes,
    fun _ _ _ _ _ _ => hrecorded.unique, fun _ _ _ hdeclares => ?_, ?_, ?_⟩
  · exact (hrecorded.fresh hdeclares).trans_le hrecorded.next
  · rw [hrecorded.scopes.length_eq, openScopes, List.length_append]
    rfl
  · intro more hbalanced name hname
    rw [after, List.foldl_append]
    exact resolve_foldl hbalanced hname

def siblings : List Step := [.enter, .declare "a", .exit, .enter, .resolve "a", .declare "a", .exit]

theorem balanced_siblings : Balanced siblings := by
  refine ⟨by decide, fun before hbefore => ?_⟩
  have hlevels : ∀ before ∈ siblings.inits, 0 ≤ level before := by decide
  exact hlevels before ((List.mem_inits before siblings).2 hbefore)

theorem level_siblings (before rest : List Step)
    (hsplit : siblings = before ++ .declare "a" :: rest) : level before ≠ 0 := by
  have hlevels : ∀ before ∈ siblings.inits, before ++ [.declare "a"] ∈ siblings.inits →
      level before ≠ 0 := by decide
  rw [List.append_cons] at hsplit
  have hbefore : before ++ [.declare "a"] <+: siblings := ⟨rest, hsplit.symm⟩
  exact hlevels before ((List.mem_inits _ _).2 ((List.prefix_append _ _).trans hbefore))
    ((List.mem_inits _ _).2 hbefore)

theorem resolve_history_siblings :
    Declares (.declare "a" :: siblings) 0 "a" ⟨0⟩ ∧
    Declares (.declare "a" :: siblings) 1 "a" ⟨1⟩ ∧
    Declares (.declare "a" :: siblings) 2 "a" ⟨2⟩ ∧
    ((⟨1⟩ : Binding) = ⟨2⟩ ↔ 1 = 2 ∧ "a" = "a") ∧
    (after (.declare "a" :: siblings)).resolve "a" = some ⟨0⟩ ∧
    (after ([.declare "a"] ++ siblings)).resolve "a" = (after [.declare "a"]).resolve "a" := by
  have hglobal : Declares (.declare "a" :: siblings) 0 "a" ⟨0⟩ := ⟨[], siblings, rfl, rfl, rfl⟩
  have hfirst : Declares (.declare "a" :: siblings) 1 "a" ⟨1⟩ :=
    ⟨[.declare "a", .enter], siblings.drop 2, rfl, rfl, by decide⟩
  have hsecond : Declares (.declare "a" :: siblings) 2 "a" ⟨2⟩ :=
    ⟨.declare "a" :: siblings.take 5, siblings.drop 6, rfl, rfl, by decide⟩
  obtain ⟨hresolve, hunique, -, -, -⟩ := resolve_history (.declare "a" :: siblings)
  obtain ⟨-, -, -, -, hbalanced⟩ := resolve_history [.declare "a"]
  refine ⟨hglobal, hfirst, hsecond, hunique _ _ _ _ _ _ hfirst hsecond, ?_,
    hbalanced siblings balanced_siblings "a" level_siblings⟩
  exact (hresolve "a" ⟨0⟩).2 ⟨[], 0, [], rfl, hglobal, by simp⟩

end MessageCatalog.Scopes
