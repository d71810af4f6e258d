import MessageCatalog.Proofs.References

/-! Calls of the fallback function. Each comes to one report or to one pair of messages, which are
those last defined for its arguments and have been handed on before. -/

namespace MessageCatalog.Definition
open Script (Node Span Program)

def RefersTo (argument : Node) (reference : String) : Prop :=
  argument.dottedName = some reference ∧ Name.messageMark <:+: reference.toList

def BadSyntax (arguments : List Node) : Prop :=
  arguments.length ≠ 2 ∨ ∃ argument ∈ arguments,
    (∃ value span, argument = .spread value span) ∨ ∀ reference, ¬ RefersTo argument reference

/-- What a call comes to when `find` tells the messages of references. -/
inductive Answer (env : Surroundings) (find : String → Option Message) (span : Span) :
    List Node → Event → Prop
  | badSyntax {arguments : List Node} (bad : BadSyntax arguments) :
      Answer env find span arguments (.issue (.badFallback (env.contextAt span)))
  | firstUnknown {a b : Node} {first second : String} (ha : RefersTo a first)
      (hb : RefersTo b second) (unknown : find first = none) :
      Answer env find span [a, b] (.issue (.fallbackArgument (env.contextAt a.span) first))
  | secondUnknown {a b : Node} {first second : String} (ha : RefersTo a first)
      (hb : RefersTo b second) (known : (find first).isSome) (unknown : find second = none) :
      Answer env find span [a, b] (.issue (.fallbackArgument (env.contextAt b.span) second))
  | pair {a b : Node} {first second : String} {m m' : Message} (ha : RefersTo a first)
      (hb : RefersTo b second) (hm : find first = some m) (hm' : find second = some m') :
      Answer env find span [a, b] (.fallback span m m')

theorem RefersTo.unique {argument : Node} {reference reference' : String}
    (h : RefersTo argument reference) (h' : RefersTo argument reference') :
    reference = reference' := Option.some.inj (h.1.symm.trans h'.1)

theorem not_badSyntax {a b : Node} {first second : String} (ha : RefersTo a first)
    (hb : RefersTo b second) : ¬ BadSyntax [a, b] := by
  have hplain : ∀ {argument : Node} {reference : String}, RefersTo argument reference →
      ¬ ((∃ value span, argument = .spread value span) ∨
        ∀ reference, ¬ RefersTo argument reference) := by
    rintro argument reference href (⟨value, span, rfl⟩ | hnone)
    · cases href.1
    · exact hnone _ href
  rintro (hlength | ⟨argument, hmem, hbad⟩)
  · exact hlength rfl
  · simp only [List.mem_cons, List.not_mem_nil, or_false] at hmem
    rcases hmem with rfl | rfl
    · exact hplain ha hbad
    · exact hplain hb hbad

theorem reference?_eq_some {argument : Node} {reference : String} {span : Span} :
    reference? argument = some (reference, span) ↔
      RefersTo argument reference ∧ span = argument.span := by
  unfold reference? RefersTo
  cases argument.dottedName with
  | none => simp
  | some name =>
    by_cases h : Text.occurs Name.messageMark name.toList
    · have hinfix := Text.occurs_iff.1 h
      simp only [h, if_true, Option.some.injEq, Prod.mk.injEq]
      constructor
      · rintro ⟨rfl, rfl⟩
        exact ⟨⟨rfl, hinfix⟩, rfl⟩
      · rintro ⟨⟨rfl, -⟩, rfl⟩
        exact ⟨rfl, rfl⟩
    · have hinfix := mt Text.occurs_iff.2 h
      simp only [h, Bool.false_eq_true, if_false, reduceCtorEq, false_iff]
      rintro ⟨⟨hname, hmark⟩, -⟩
      cases hname
      exact hinfix hmark

theorem reference?_cases (argument : Node) :
    (reference? argument = none ∧ ∀ reference, ¬ RefersTo argument reference) ∨
      ∃ reference, RefersTo argument reference ∧
        reference? argument = some (reference, argument.span) := by
  cases h : reference? argument with
  | none =>
    refine .inl ⟨rfl, fun reference href => ?_⟩
    cases h.symm.trans (reference?_eq_some.2 ⟨href, rfl⟩)
  | some found =>
    obtain ⟨href, hspan⟩ := reference?_eq_some.1 h
    exact .inr ⟨found.1, href, by rw [← hspan]⟩

theorem references?_cases (arguments : List Node) :
    (references? arguments = none ∧ BadSyntax arguments) ∨
      ∃ a b first second, arguments = [a, b] ∧ RefersTo a first ∧ RefersTo b second ∧
        references? arguments = some ((first, a.span), (second, b.span)) := by
  unfold references?
  split
  · next a b =>
    rcases reference?_cases a with ⟨ha, hnone⟩ | ⟨first, href, ha⟩
    · exact .inl ⟨by rw [ha], .inr ⟨a, by simp, .inr hnone⟩⟩
    · rcases reference?_cases b with ⟨hb, hnone⟩ | ⟨second, href', hb⟩
      · exact .inl ⟨by rw [ha, hb], .inr ⟨b, by simp, .inr hnone⟩⟩
      · exact .inr ⟨a, b, first, second, rfl, href, href', by rw [ha, hb]⟩
  · next hpair =>
    refine .inl ⟨rfl, .inl fun hlength => ?_⟩
    obtain ⟨a, b, rfl⟩ := List.length_eq_two.1 hlength
    exact hpair a b rfl

theorem answer_iff {env : Surroundings} {scopes : Scopes} {registry : Registry}
    {arguments : List Node} {span : Span} {event : Event} :
    Answer env (registry.lookup? scopes) span arguments event ↔
      event = fallbackEvent env scopes registry arguments span := by
  rcases references?_cases arguments with ⟨hnone, hbad⟩ | ⟨a, b, first, second, rfl, ha, hb, hsome⟩
  · have hevent : fallbackEvent env scopes registry arguments span =
        .issue (.badFallback (env.contextAt span)) := by rw [fallbackEvent, hnone]
    rw [hevent]
    constructor
    · intro h
      cases h with
      | badSyntax => rfl
      | firstUnknown ha hb => exact absurd hbad (not_badSyntax ha hb)
      | secondUnknown ha hb => exact absurd hbad (not_badSyntax ha hb)
      | pair ha hb => exact absurd hbad (not_badSyntax ha hb)
    · rintro rfl
      exact .badSyntax hbad
  · rw [fallbackEvent, hsome]
    dsimp only
    constructor
    · intro h
      cases h with
      | badSyntax hbad => exact absurd hbad (not_badSyntax ha hb)
      | firstUnknown ha' hb' unknown =>
        obtain rfl := ha.unique ha'
        rw [unknown]
      | secondUnknown ha' hb' known unknown =>
        obtain rfl := ha.unique ha'
        obtain rfl := hb.unique hb'
        obtain ⟨m, hm⟩ := Option.isSome_iff_exists.1 known
        rw [hm, unknown]
      | pair ha' hb' hm hm' =>
        obtain rfl := ha.unique ha'
        obtain rfl := hb.unique hb'
        rw [hm, hm']
    · rintro rfl
      cases hm : registry.lookup? scopes first with
      | none => exact .firstUnknown ha hb hm
      | some m =>
        cases hm' : registry.lookup? scopes second with
        | none => exact .secondUnknown ha hb (by rw [hm]; rfl) hm'
        | some m' => exact .pair ha hb hm hm'

def fallbackCall? : Node → Option (List Node × Span)
  | .call callee arguments span =>
    if callee.dottedName = some Name.fallbackFunction then some (arguments, span) else none
  | _ => none

def Mark.fallbackCall? : Mark → Option (List Node × Span)
  | .call callee arguments span => Definition.fallbackCall? (.call callee arguments span)
  | .site .. => none

def Moment.fallbackCall? (t : Moment) : Option (List Node × Span) :=
  t.step.mark?.bind Mark.fallbackCall?

def Event.isAnswer : Event → Bool
  | .message .. => false
  | .fallback .. => true
  | .issue i => i.rule = .badFallback || i.rule = .fallbackArgument

theorem filterMap_marksAt (n : Node) :
    (marksAt n).filterMap Mark.fallbackCall? = (fallbackCall? n).toList := by
  have hsite : ∀ declarators : List Node,
      (declarators.flatMap declaratorMarks).filterMap Mark.fallbackCall? = [] := by
    intro declarators
    rw [List.filterMap_flatMap, List.flatMap_eq_nil_iff]
    intro declarator _
    unfold declaratorMarks
    split <;> rfl
  unfold marksAt
  split
  · next callee arguments span =>
    rw [← List.singleton_append, List.filterMap_append]
    cases h : fallbackCall? (.call callee arguments span) <;> simp [Mark.fallbackCall?, h]
  · split_ifs <;> rfl
  · rfl
  · exact hsite _
  · next hcall _ _ _ =>
    cases n with
    | call => exact absurd rfl (hcall _ _ _)
    | _ => rfl

theorem fallbackCalls_visitsFrom (settings : Settings) (file : Nat) (sources : List Source) :
    ((visitsFrom settings file sources).filterMap fun v => v.2.mark?.bind Mark.fallbackCall?) =
      sources.flatMap fun s => s.program.subnodes.filterMap fallbackCall? := by
  have hprogram : ∀ p : Program, (stepsOf p).filterMap (fun step =>
      step.mark?.bind Mark.fallbackCall?) = p.subnodes.filterMap fallbackCall? := by
    intro p
    rw [← List.filterMap_filterMap, marks_stepsOf, marksOf, List.filterMap_flatMap]
    simp only [filterMap_marksAt]
    exact (List.filterMap_eq_flatMap_toList _ _).symm
  induction sources generalizing file with
  | nil => rfl
  | cons s rest ih =>
    rw [visitsFrom, List.filterMap_append, List.filterMap_map, List.flatMap_cons, ih, ← hprogram]
    rfl

variable {settings : Settings} {c : Compilation} {t : Moment} {arguments : List Node} {span : Span}

theorem step_fallbackCall (h : t.fallbackCall? = some (arguments, span)) :
    t.emitted = [fallbackEvent t.env t.before.scopes t.before.registry arguments span] ∧
      t.after = { t.before with events := t.before.events ++ t.emitted } := by
  obtain ⟨env, step, before⟩ := t
  cases step with
  | enter => cases h
  | exit => cases h
  | site => cases h
  | call callee arguments' span' =>
    change (if callee.dottedName = some Name.fallbackFunction then _ else none) = _ at h
    split_ifs at h with hname
    cases h
    have hmessage : callee.isReferenceTo Name.messageFunction = false := by
      simp only [Node.isReferenceTo, hname]
      decide
    have hfallback : callee.isReferenceTo Name.fallbackFunction = true := by
      simp [Node.isReferenceTo, hname]
    constructor
    · simp only [Moment.emitted, emitted, hmessage, hfallback, Bool.false_eq_true, if_true, if_false]
    · simp only [Moment.after, perform, checkCall, Moment.emitted, emitted, hmessage, hfallback,
        Bool.false_eq_true, if_true, if_false]

theorem isAnswer_fallbackEvent (env : Surroundings) (scopes : Scopes) (registry : Registry)
    (arguments : List Node) (span : Span) :
    (fallbackEvent env scopes registry arguments span).isAnswer := by
  rcases fallbackEvent_cases env scopes registry arguments span with
    ⟨i, h, hrule | hrule⟩ | ⟨first, second, h⟩ <;> rw [h]
  · simp [Event.isAnswer, hrule]
  · simp [Event.isAnswer, hrule]
  · rfl

theorem isAnswer_of_mem_emitted {event : Event} (hcall : t.fallbackCall? = none)
    (h : event ∈ t.emitted) : event.isAnswer = false := by
  obtain ⟨env, step, before⟩ := t
  cases step with
  | enter => cases h
  | exit => cases h
  | call callee arguments span =>
    change (if callee.dottedName = some Name.fallbackFunction then _ else none) = _ at hcall
    split_ifs at hcall with hname
    have hfallback : callee.isReferenceTo Name.fallbackFunction = false := by
      simp [Node.isReferenceTo, hname]
    simp [Moment.emitted, emitted, hfallback] at h
  | site site =>
    rw [Moment.emitted, emitted, List.mem_append, List.mem_map] at h
    rcases h with ⟨i, hi, rfl⟩ | h
    · simp [Event.isAnswer, rule_of_mem_legacyIssues hi]
    · rcases outcomeEvents_cases env before.registry site with
        ⟨f, -, hevents⟩ | ⟨-, issues, hevents, hrule⟩
      · rw [hevents, List.mem_append, List.mem_map, List.mem_singleton] at h
        rcases h with ⟨i, hi, rfl⟩ | rfl
        · rcases rule_of_mem_messageIssues hi with hrule | hrule | hrule <;>
            simp [Event.isAnswer, hrule]
        · rfl
      · rw [hevents, List.mem_map] at h
        obtain ⟨i, hi, rfl⟩ := h
        rcases hrule i hi with hrule | hrule <;> simp [Event.isAnswer, hrule]

theorem filter_isAnswer_emitted (t : Moment) :
    t.emitted.filter Event.isAnswer = if t.fallbackCall?.isSome then t.emitted else [] := by
  cases hcall : t.fallbackCall? with
  | none =>
    rw [List.filter_eq_nil_iff.2 fun event h => by simp [isAnswer_of_mem_emitted hcall h]]
    rfl
  | some call =>
    rw [(step_fallbackCall hcall).1, List.filter_cons, if_pos (isAnswer_fallbackEvent ..)]
    rfl

theorem filter_isAnswer_run (settings : Settings) (c : Compilation) :
    (run settings c).filter Event.isAnswer =
      ((moments settings c).filter (·.fallbackCall?.isSome)).flatMap Moment.emitted := by
  have hend : ((finalState settings c).pending.flatMap
      (orphanEvents settings c.sources)).filter Event.isAnswer = [] := by
    refine List.filter_eq_nil_iff.2 fun event h => ?_
    obtain ⟨i, rfl, hrule⟩ := rule_of_mem_orphanEvents h
    simp [Event.isAnswer, hrule]
  rw [run_eq_moments, List.filter_append, hend, List.append_nil, List.filter_flatMap]
  induction moments settings c with
  | nil => rfl
  | cons t ts ih =>
    rw [List.flatMap_cons, ih, filter_isAnswer_emitted, List.filter_cons]
    split_ifs <;> rfl

theorem mem_messages {events : List Event} {m : Message} :
    m ∈ Event.messages events ↔ ∃ kind span location, .message m kind span location ∈ events := by
  rw [Event.messages, List.mem_filterMap]
  constructor
  · rintro ⟨event, hevent, hm⟩
    cases event with
    | message => cases hm; exact ⟨_, _, _, hevent⟩
    | fallback => cases hm
    | issue => cases hm
  · rintro ⟨kind, span, location, hevent⟩
    exact ⟨_, hevent, rfl⟩

theorem mem_messages_of_mem_definedIn {ts : List Moment} {d : Defined} (h : d ∈ definedIn ts) :
    d.message ∈ Event.messages (ts.flatMap Moment.emitted) := by
  obtain ⟨t, ht, hd⟩ := List.mem_flatMap.1 h
  obtain ⟨f, hf, rfl⟩ := List.mem_map.1 hd
  have hevent : f.event ∈ t.emitted.filterMap Event.message? := by
    rw [Moment.emitted, filterMap_message_emitted (t.env, t.step)]
    exact List.mem_map_of_mem hf
  obtain ⟨event, hmem, hsame⟩ := List.mem_filterMap.1 hevent
  cases event with
  | message =>
    cases hsame
    exact mem_messages.2 ⟨_, _, _, List.mem_flatMap.2 ⟨t, ht, hmem⟩⟩
  | fallback => cases hsame
  | issue => cases hsame

theorem exists_of_flatMap_eq_append_cons {α β : Type} {f : α → List β} {l : List α}
    {before after : List β} {b : β} (h : l.flatMap f = before ++ b :: after) :
    ∃ earlier a later done rest, l = earlier ++ a :: later ∧ f a = done ++ b :: rest ∧
      before = earlier.flatMap f ++ done := by
  induction l generalizing before with
  | nil => simp at h
  | cons a l ih =>
    rw [List.flatMap_cons, List.append_eq_append_iff] at h
    rcases h with ⟨more, rfl, h⟩ | ⟨rest, hfa, h⟩
    · obtain ⟨earlier, a', later, done, rest, rfl, hfa, rfl⟩ := ih h
      exact ⟨a :: earlier, a', later, done, rest, rfl, hfa, by simp⟩
    · cases rest with
      | nil =>
        have hstart : l.flatMap f = [] ++ b :: after := h.symm
        obtain ⟨earlier, a', later, done, rest, rfl, hfa', hnil⟩ := ih hstart
        have hbefore : before = (a :: earlier).flatMap f ++ done := by
          rw [List.flatMap_cons, List.append_assoc, ← hnil, hfa, List.append_nil, List.append_nil]
        exact ⟨a :: earlier, a', later, done, rest, rfl, hfa', hbefore⟩
      | cons b' rest =>
        obtain ⟨rfl, rfl⟩ := List.cons.inj h
        exact ⟨[], a, l, before, rest, rfl, hfa, rfl⟩

theorem exists_moment_of_run {before after : List Event} {event : Event}
    (h : run settings c = before ++ event :: after) (hevent : ∀ i, event ≠ .issue i) :
    ∃ earlier t later done rest, moments settings c = earlier ++ t :: later ∧
      t.emitted = done ++ event :: rest ∧
        before = earlier.flatMap Moment.emitted ++ done := by
  have hend : event ∉ (finalState settings c).pending.flatMap (orphanEvents settings c.sources) := by
    intro hmem
    obtain ⟨i, hi, -⟩ := rule_of_mem_orphanEvents hmem
    exact hevent i hi
  rw [run_eq_moments, List.append_eq_append_iff] at h
  rcases h with ⟨more, -, h⟩ | ⟨rest, h, hrest⟩
  · exact absurd (h ▸ by simp) hend
  · cases rest with
    | nil =>
      rw [List.nil_append] at hrest
      exact absurd (hrest ▸ List.mem_cons_self) hend
    | cons event' rest =>
      obtain ⟨rfl, -⟩ := List.cons.inj hrest
      exact exists_of_flatMap_eq_append_cons h

theorem pair_mem_messages {before after : List Event} {first second : Message}
    (h : run settings c = before ++ .fallback span first second :: after) :
    first ∈ Event.messages before ∧ second ∈ Event.messages before := by
  obtain ⟨earlier, t, later, done, rest, hsplit, hemitted, rfl⟩ :=
    exists_moment_of_run h fun _ => Event.noConfusion
  have hmem : .fallback span first second ∈ t.emitted := hemitted ▸ by simp
  cases hcall : t.fallbackCall? with
  | none => cases isAnswer_of_mem_emitted hcall hmem
  | some call =>
    obtain ⟨arguments, place⟩ := call
    rw [(step_fallbackCall hcall).1, List.mem_singleton, ← answer_iff, lookup?_before hsplit] at hmem
    cases hmem with
    | pair ha hb hm hm' =>
      have hmessages : ∀ {reference m},
          latestFor (definedIn earlier) t.before.scopes reference = some m →
          m ∈ Event.messages (earlier.flatMap Moment.emitted ++ done) := by
        intro reference m hm
        obtain ⟨d, hd, rfl, -⟩ := latestFor_cases hm
        rw [Event.messages, List.filterMap_append]
        exact List.mem_append_left _ (mem_messages_of_mem_definedIn hd)
      exact ⟨hmessages hm, hmessages hm'⟩

theorem ids_of_mem_fallbacks {pair : String × String}
    (h : pair ∈ Event.fallbacks (run settings c)) :
    pair.1 ∈ (Event.messages (run settings c)).map Message.id ∧
      pair.2 ∈ (Event.messages (run settings c)).map Message.id := by
  obtain ⟨event, hevent, hsome⟩ := List.mem_filterMap.1 h
  cases event with
  | message => cases hsome
  | issue => cases hsome
  | fallback span first second =>
    cases hsome
    obtain ⟨before, after, hrun⟩ := List.append_of_mem hevent
    obtain ⟨hfirst, hsecond⟩ := pair_mem_messages hrun
    have hbefore : ∀ {m}, m ∈ Event.messages before →
        m.id ∈ (Event.messages (run settings c)).map Message.id := by
      intro m hm
      rw [hrun, Event.messages, List.filterMap_append]
      exact List.mem_map_of_mem (List.mem_append_left _ hm)
    exact ⟨hbefore hfirst, hbefore hsecond⟩

theorem fallbackCalls_moments (settings : Settings) (c : Compilation) :
    (moments settings c).filterMap Moment.fallbackCall? =
      c.sources.flatMap fun s => s.program.subnodes.filterMap fallbackCall? := by
  have hmoments : (moments settings c).filterMap Moment.fallbackCall? =
      ((moments settings c).map Moment.visit).filterMap fun v =>
        v.2.mark?.bind Mark.fallbackCall? := by
    rw [List.filterMap_map]
    rfl
  rw [hmoments, map_visit_moments]
  exact fallbackCalls_visitsFrom settings 0 c.sources

/-- Each call of the fallback function is answered once, from what has been defined before it, and
a pair consists of messages handed on before it. -/
theorem fallbacks_run (settings : Settings) (c : Compilation) :
    ((moments settings c).filterMap Moment.fallbackCall? =
      c.sources.flatMap fun s => s.program.subnodes.filterMap fallbackCall?) ∧
    ((run settings c).filter Event.isAnswer =
      ((moments settings c).filter (·.fallbackCall?.isSome)).flatMap Moment.emitted) ∧
    (∀ earlier t later arguments span, moments settings c = earlier ++ t :: later →
      t.fallbackCall? = some (arguments, span) →
      ∃ event, t.emitted = [event] ∧
        (∀ e, Answer t.env (latestFor (definedIn earlier) t.before.scopes) span arguments e ↔
          e = event) ∧
        t.after = { t.before with events := t.before.events ++ [event] }) ∧
    (∀ before span first second after,
      run settings c = before ++ .fallback span first second :: after →
      first ∈ Event.messages before ∧ second ∈ Event.messages before) ∧
    ∀ pair ∈ Event.fallbacks (run settings c),
      pair.1 ∈ (Event.messages (run settings c)).map Message.id ∧
        pair.2 ∈ (Event.messages (run settings c)).map Message.id := by
  refine ⟨fallbackCalls_moments settings c, filter_isAnswer_run settings c, ?_,
    fun _ _ _ _ _ => pair_mem_messages, fun _ => ids_of_mem_fallbacks⟩
  intro earlier t later arguments span hmoments hcall
  obtain ⟨hemitted, hafter⟩ := step_fallbackCall hcall
  refine ⟨_, hemitted, fun e => ?_, hemitted ▸ hafter⟩
  rw [← lookup?_before hmoments]
  exact answer_iff

/-- `var MSG_A = goog.getMsg('a');`, `var MSG_B = goog.getMsg('b');` and
`goog.getMsgWithFallback(MSG_A, MSG_B);`, each on a line of its own. -/
def newAndOld : Source where
  path := "a.js"
  text := ("var MSG_A = goog.getMsg('a');\nvar MSG_B = goog.getMsg('b');\n" ++
    "goog.getMsgWithFallback(MSG_A, MSG_B);").toList
  program :=
    let call (start : Nat) (function : String) (arguments : List Node) (nameStop stop : Nat) : Node :=
      .call (.member (.name "goog" ⟨start, start + 4⟩) function ⟨start, nameStop⟩) arguments
        ⟨start, stop⟩
    let definition (start : Nat) (name text : String) : Node :=
      let value := call (start + 12) "getMsg" [.string (some text) ⟨start + 24, start + 27⟩]
        (start + 23) (start + 28)
      .declarations .var
        [.declarator (.name name ⟨start + 4, start + 9⟩) (some value) ⟨start + 4, start + 28⟩]
        ⟨start, start + 29⟩
    let references : List Node := [.name "MSG_A" ⟨84, 89⟩, .name "MSG_B" ⟨91, 96⟩]
    ⟨false, [definition 0 "MSG_A" "a", definition 30 "MSG_B" "b",
      .expressionStatement (call 60 "getMsgWithFallback" references 83 97) ⟨60, 98⟩]⟩
  comments := []

theorem fallbacks_run_newAndOld :
    Event.fallbacks (run {} ⟨[], [newAndOld], []⟩) = [("MSG_A", "MSG_B")] ∧
      "MSG_A" ∈ (Event.messages (run {} ⟨[], [newAndOld], []⟩)).map Message.id ∧
      "MSG_B" ∈ (Event.messages (run {} ⟨[], [newAndOld], []⟩)).map Message.id := by
  have hpairs : Event.fallbacks (run {} ⟨[], [newAndOld], []⟩) = [("MSG_A", "MSG_B")] := by
    decide +kernel
  obtain ⟨-, -, -, -, hlisted⟩ := fallbacks_run {} ⟨[], [newAndOld], []⟩
  exact ⟨hpairs, hlisted ("MSG_A", "MSG_B") (by rw [hpairs]; exact List.mem_singleton_self _)⟩

end MessageCatalog.Definition
