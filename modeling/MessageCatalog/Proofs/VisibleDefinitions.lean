import MessageCatalog.Proofs.DuplicateKeys
import MessageCatalog.Proofs.StatementSpecs
import MessageCatalog.Proofs.VarSites
import MessageCatalog.Proofs.VisitOrder

/-! Which definitions a call of the fallback function finds. A variable that is declared before the
call is found, unless the visit meets the call first: all declarators of a declaration are visited
before any of them is a definition, the test of a `do` loop is visited before its body, and the
members of a class before its superclass. -/

namespace MessageCatalog

namespace Script

theorem Node.dottedName_unparenthesized (n : Node) :
    n.unparenthesized.dottedName = n.dottedName := by
  induction n using Node.unparenthesized.induct with
  | case1 inner span ih => exact ih
  | case2 n hn => rw [Node.unparenthesized.eq_2 n hn]

def Program.IsLaidOut (p : Program) : Prop := ∃ start stop, Node.Stand start stop p.items

end Script

theorem Source.isLaidOut_of_parse {path code : String} {s : Source} (h : parse path code = .ok s) :
    s.program.IsLaidOut := by
  unfold parse at h
  dsimp only at h
  split at h
  · next hparse =>
    cases h
    obtain ⟨stop, hstand⟩ := Script.stand_of_parse hparse
    exact ⟨0, stop, hstand⟩
  · cases h

namespace Definition
open Script (Node Span Program)
open Script.Node (Stand Overtakes)

variable {p : Program} {start stop : Nat} {declarator declaration callee : Node}
  {arguments : List Node} {span : Span} {f : Forwarded}

def Forwarded.nameNode (f : Forwarded) : Node := .name f.site.name f.site.span

/-- The visit meets the call before it defines the message. -/
inductive MetEarly (p : Program) (call : Node) (f : Forwarded) : Prop
  | declaration {declaration : Node} (mem : declaration ∈ p.subnodes)
      (mark : f.mark ∈ marksAt declaration) (inside : call ∈ declaration.subnodes)
  | overtakes {construct : Node} (mem : construct ∈ p.subnodes)
      (overtakes : Overtakes call f.nameNode construct)

theorem exists_of_mem_declaratorMarks (h : f.mark ∈ declaratorMarks declarator) :
    ∃ value span, declarator = .declarator f.nameNode value span ∧ f.site.kind = .variable := by
  obtain ⟨name, nameSpan, value, span, rfl, hmark⟩ := mem_declaratorMarks.1 h
  obtain ⟨hkind, hname, -, hspan⟩ := Mark.site.inj hmark
  exact ⟨value, span, by rw [Forwarded.nameNode, hname, hspan], hkind⟩

theorem exists_of_mem_marksAt (hkind : f.site.kind = .variable)
    (h : f.mark ∈ marksAt declaration) :
    declaration.isBlank = false ∧ ∃ value span,
      .declarator f.nameNode value span ∈ declaration.parts := by
  have hshows := mem_marksAt.1 h
  rw [Forwarded.mark, hkind] at hshows
  cases hshows with
  | declarator mem => exact ⟨rfl, _, _, mem⟩

theorem nameNode_mem (hkind : f.site.kind = .variable) (h : f.mark ∈ marksAt declaration) :
    f.nameNode ∈ declaration.subnodes := by
  obtain ⟨-, value, span, hdeclarator⟩ := exists_of_mem_marksAt hkind h
  have hname : f.nameNode ∈ Node.subnodes (.declarator f.nameNode value span) :=
    Node.mem_subnodes_of_mem_parts List.mem_cons_self
  exact Node.mem_subnodes_trans hname (Node.mem_subnodes_of_mem_parts hdeclarator)

theorem metEarly_of_precedes (h : Stand start stop p.items) (hkind : f.site.kind = .variable)
    (hdeclarator : declarator ∈ p.subnodes) (hmark : f.mark ∈ declaratorMarks declarator)
    (hmark' : f.mark ∈ marksAt declaration) (hle : declarator.span.stop ≤ span.start)
    (hbefore : Precedes p.subnodes (.call callee arguments span) declaration) :
    MetEarly p (.call callee arguments span) f := by
  have hname := nameNode_mem hkind hmark'
  rcases Program.order_of_precedes h hbefore hname rfl rfl rfl with
    hstop | hinside | ⟨construct, hmem, hover⟩
  · have hcall : span.start < span.stop := Program.lt_of_mem h hbefore.mem.1 rfl
    obtain ⟨value, place, rfl, -⟩ := exists_of_mem_declaratorMarks hmark
    have hfits := (Node.isLaidOut_iff.1 (Program.isLaidOut_of_mem h hdeclarator)).2
    obtain ⟨-, hin, hplace⟩ := hfits.mem_parts (m := f.nameNode) List.mem_cons_self
    have hlt : f.site.span.start < f.site.span.stop := (hplace rfl).2
    have hin : f.site.span.stop ≤ place.stop := hin
    have hstop : span.stop ≤ f.site.span.start := hstop
    have hle : place.stop ≤ span.start := hle
    omega
  · exact .declaration hbefore.mem.2 hmark' hinside
  · exact .overtakes hmem hover

theorem MetEarly.not_precedes (h : MetEarly p (.call callee arguments span) f)
    (hstand : Stand start stop p.items) (hkind : f.site.kind = .variable)
    (hmark : f.mark ∈ marksAt declaration) :
    ¬ Precedes p.subnodes declaration (.call callee arguments span) := by
  intro hbefore
  obtain ⟨hblank, value, place, hdeclarator⟩ := exists_of_mem_marksAt hkind hmark
  have hmem := hbefore.mem.1
  have hafter := hbefore.filter (p := (!·.isBlank)) (by rw [hblank]; rfl) rfl
  have hdistinct := Program.distinct hstand
  have hdeclarations : declaration ≠ .call callee arguments span := by
    rintro rfl
    cases List.mem_singleton.1 hmark
  cases h with
  | @declaration declaration' hmem' hmark' hinside =>
    obtain ⟨-, value', place', hdeclarator'⟩ := exists_of_mem_marksAt hkind hmark'
    have hmem_of : ∀ {n part : Node}, n ∈ p.subnodes → part ∈ n.parts → part ∈ p.subnodes :=
      fun hn hpart => Program.mem_subnodes_trans (Node.mem_subnodes_of_mem_parts hpart) hn
    have hsame := Program.parent_unique hstand (hmem_of hmem hdeclarator)
      (hmem_of hmem' hdeclarator') (k := f.nameNode) List.mem_cons_self List.mem_cons_self rfl
    rw [← hsame] at hdeclarator'
    obtain rfl := Program.parent_unique hstand hmem hmem' hdeclarator hdeclarator' rfl
    have hcall := Program.precedes_of_mem hmem (Node.precedes_around hinside hdeclarations.symm)
    exact hafter.not_symm hdistinct (hcall.filter rfl (by rw [hblank]; rfl))
  | @overtakes construct hmem' hover =>
    have hcall := Program.precedes_of_mem hmem' hover.precedes
    have hne : f.nameNode ≠ declaration := by
      intro hname
      rw [← hname] at hdeclarator
      cases hdeclarator
    have hname := Program.precedes_of_mem hmem (Node.precedes_around (nameNode_mem hkind hmark) hne)
    have hbetween := (hcall.filter (p := (!·.isBlank)) rfl rfl).trans
      (hname.filter rfl (by rw [hblank]; rfl)) hdistinct
    exact hafter.not_symm hdistinct hbetween

variable {settings : Settings} {c : Compilation} {sources rest : List Source} {s : Source}

theorem file_of_mem_visitsFrom {file : Nat} {v : Visit} (h : v ∈ visitsFrom settings file sources) :
    file ≤ v.1.file ∧ v.1.file < file + sources.length := by
  induction sources generalizing file with
  | nil => cases h
  | cons s sources ih =>
    rw [List.length_cons]
    rcases List.mem_append.1 h with h | h
    · obtain ⟨step, -, rfl⟩ := List.mem_map.1 h
      exact ⟨Nat.le_refl _, show file < _ by omega⟩
    · have hfile := ih h
      omega

theorem filter_visits (hc : c.sources = sources ++ s :: rest) :
    (visits settings c).filter (·.1.file = sources.length) =
      (stepsOf s.program).map (Surroundings.mk settings sources.length s, ·) := by
  rw [visits, hc, visitsFrom_append, visitsFrom, Nat.zero_add, List.filter_append,
    List.filter_append]
  have hbefore : (visitsFrom settings 0 sources).filter (·.1.file = sources.length) = [] := by
    refine List.filter_eq_nil_iff.2 fun v hv => ?_
    have hfile := file_of_mem_visitsFrom hv
    rw [decide_eq_true_iff]
    omega
  have hafter : (visitsFrom settings (sources.length + 1) rest).filter
      (·.1.file = sources.length) = [] := by
    refine List.filter_eq_nil_iff.2 fun v hv => ?_
    have hfile := file_of_mem_visitsFrom hv
    rw [decide_eq_true_iff]
    omega
  rw [hbefore, hafter, List.nil_append, List.append_nil, List.filter_eq_self]
  intro v hv
  obtain ⟨step, -, rfl⟩ := List.mem_map.1 hv
  exact decide_eq_true rfl

theorem precedes_stepsOf (hc : c.sources = sources ++ s :: rest) {v w : Visit}
    (h : Precedes (visits settings c) v w) (hv : v.1.file = sources.length)
    (hw : w.1.file = sources.length) : Precedes (stepsOf s.program) v.2 w.2 := by
  have hfilter := h.filter (p := fun v => v.1.file = sources.length) (decide_eq_true hv)
    (decide_eq_true hw)
  rw [filter_visits hc] at hfilter
  have hsteps : [v.2, w.2].Sublist
      (((stepsOf s.program).map (Surroundings.mk settings sources.length s, ·)).map Prod.snd) :=
    List.Sublist.map Prod.snd hfilter
  rwa [List.map_map, Function.comp_def, List.map_id'] at hsteps

theorem precedes_subnodes {step later : Step} (h : Precedes (stepsOf p) step later)
    {m m' : Mark} (hm : step.mark? = some m) (hm' : later.mark? = some m')
    (happart : ∀ n, m ∈ marksAt n → m' ∉ marksAt n) :
    ∃ n n', m ∈ marksAt n ∧ m' ∈ marksAt n' ∧ Precedes p.subnodes n n' := by
  rcases precedes_flatMap (precedes_marksOf h hm hm') with
    ⟨n, -, hpair⟩ | ⟨n, n', hpair, hmark, hmark'⟩
  · exact absurd hpair.mem.2 (happart n hpair.mem.1)
  · exact ⟨n, n', hmark, hmark', hpair⟩

structure DefinedBefore (settings : Settings) (c : Compilation) (file : Nat) (p : Program)
    (offset : Nat) (name : String) (f : Forwarded) : Prop where
  starts : Name.messageMark <+: name.toList
  named : Name.isUnnamed name.toList = false
  unique : definitionsOf settings c name = [f]
  file : f.env.file = file
  declarator : ∃ declarator ∈ p.subnodes, f.mark ∈ declaratorMarks declarator ∧
    declarator.span.stop ≤ offset

theorem precedes_visits {earlier later : List Moment} {t u : Moment}
    (h : moments settings c = earlier ++ t :: later) :
    (u ∈ earlier → Precedes (visits settings c) u.visit t.visit) ∧
      (u ∈ later → Precedes (visits settings c) t.visit u.visit) := by
  rw [← map_visit_moments, h, List.map_append, List.map_cons]
  constructor
  · intro hu
    exact precedes_append_iff.2 (.inr (.inl ⟨List.mem_map_of_mem hu, List.mem_cons_self⟩))
  · intro hu
    have hlater : [u.visit].Sublist (later.map Moment.visit) :=
      List.singleton_sublist.2 (List.mem_map_of_mem hu)
    exact (List.cons_sublist_cons.2 hlater).trans (List.sublist_append_right _ _)

theorem metEarly_iff_of_precedes (hc : c.sources = sources ++ s :: rest)
    (hstand : s.program.IsLaidOut) {name : String}
    (h : DefinedBefore settings c sources.length s.program span.start name f) {t u : Moment}
    (hvisit : t.visit = (Surroundings.mk settings sources.length s, .call callee arguments span))
    (hf : f ∈ forwardedAt u.visit) :
    (Precedes (visits settings c) u.visit t.visit →
      ¬ MetEarly s.program (.call callee arguments span) f) ∧
    (Precedes (visits settings c) t.visit u.visit →
      MetEarly s.program (.call callee arguments span) f) := by
  obtain ⟨start, stop, hstand⟩ := hstand
  obtain ⟨declarator, hdeclarator, hmark, hle⟩ := h.declarator
  obtain ⟨-, -, -, hkind⟩ := exists_of_mem_declaratorMarks hmark
  have huvisit : u.visit = (f.env, .site f.site) := (mem_forwardedAt hf).1
  have hfile : u.visit.1.file = sources.length := by rw [huvisit, h.file]
  have hfile' : t.visit.1.file = sources.length := by rw [hvisit]
  have hsite : u.visit.2.mark? = some f.mark := by rw [huvisit]; rfl
  have hcall : t.visit.2.mark? = some (.call callee arguments span) := by rw [hvisit]; rfl
  have happart : ∀ n, f.mark ∈ marksAt n → .call callee arguments span ∉ marksAt n := by
    intro n hn hn'
    rw [eq_call_of_mem_marksAt hn'] at hn
    cases List.mem_singleton.1 hn
  constructor
  · intro hbefore
    obtain ⟨n, n', hn, hn', hprecedes⟩ :=
      precedes_subnodes (precedes_stepsOf hc hbefore hfile hfile') hsite hcall happart
    rw [eq_call_of_mem_marksAt hn'] at hprecedes
    exact fun hearly => hearly.not_precedes hstand hkind hn hprecedes
  · intro hbefore
    obtain ⟨n, n', hn, hn', hprecedes⟩ :=
      precedes_subnodes (precedes_stepsOf hc hbefore hfile' hfile) hcall hsite
        fun n hn hn' => happart n hn' hn
    rw [eq_call_of_mem_marksAt hn] at hprecedes
    exact metEarly_of_precedes hstand hkind hdeclarator hmark hn' hle hprecedes

theorem lookup?_of_definedBefore (hc : c.sources = sources ++ s :: rest)
    (hstand : s.program.IsLaidOut) {name : String}
    (h : DefinedBefore settings c sources.length s.program span.start name f)
    {earlier later : List Moment} {t : Moment}
    (hmoments : moments settings c = earlier ++ t :: later)
    (hvisit : t.visit = (Surroundings.mk settings sources.length s, .call callee arguments span)) :
    (¬ MetEarly s.program (.call callee arguments span) f ∧
      t.before.registry.lookup? t.before.scopes name = some f.message) ∨
    (MetEarly s.program (.call callee arguments span) f ∧
      t.before.registry.lookup? t.before.scopes name = none) := by
  have hcut : Registry.fromMark? Name.messageMark name.toList = some name.toList :=
    (@Registry.fromMark?_append_eq_iff [] name.toList h.starts).2 (by simp [Name.messageMark])
  have hlookup : t.before.registry.lookup? t.before.scopes name =
      (((earlier.map Moment.visit).flatMap forwardedAt).filter (·.key = name)).getLast?.map
        Forwarded.message := by
    rw [← latest_isNamed h.named, Option.map_map, lookup?_before hmoments, latestFor, hcut]
    simp only [h.named, String.ofList_toList]
    rfl
  have hnone : forwardedAt t.visit = [] := by rw [hvisit]; rfl
  have hunique : ((earlier.map Moment.visit).flatMap forwardedAt).filter (·.key = name) ++
      ((later.map Moment.visit).flatMap forwardedAt).filter (·.key = name) = [f] := by
    rw [← h.unique, definitionsOf, forwarded, ← map_visit_moments, hmoments, List.map_append,
      List.map_cons, List.flatMap_append, List.flatMap_cons, hnone, List.nil_append,
      List.filter_append]
  have hexists : ∀ {ts : List Moment},
      ((ts.map Moment.visit).flatMap forwardedAt).filter (·.key = name) = [f] →
        ∃ u ∈ ts, f ∈ forwardedAt u.visit := by
    intro ts hts
    have hmem : f ∈ (ts.map Moment.visit).flatMap forwardedAt :=
      List.mem_of_mem_filter (hts ▸ List.mem_singleton_self f)
    rw [List.flatMap_map] at hmem
    exact List.mem_flatMap.1 hmem
  rcases List.append_eq_singleton_iff.1 hunique with ⟨hearlier, hlater⟩ | ⟨hearlier, hlater⟩
  · obtain ⟨u, hu, hf⟩ := hexists hlater
    refine .inr ⟨?_, by rw [hlookup, hearlier]; rfl⟩
    exact (metEarly_iff_of_precedes hc hstand h hvisit hf).2 ((precedes_visits hmoments).2 hu)
  · obtain ⟨u, hu, hf⟩ := hexists hearlier
    refine .inl ⟨?_, by rw [hlookup, hearlier]; rfl⟩
    exact (metEarly_iff_of_precedes hc hstand h hvisit hf).1 ((precedes_visits hmoments).1 hu)

theorem exists_moment_of_call (settings : Settings) (hc : c.sources = sources ++ s :: rest)
    (h : .call callee arguments span ∈ s.program.subnodes) :
    ∃ t ∈ moments settings c,
      t.visit = (Surroundings.mk settings sources.length s, .call callee arguments span) := by
  have hmark : .call callee arguments span ∈ marksOf s.program :=
    List.mem_flatMap.2 ⟨_, h, List.mem_singleton_self _⟩
  rw [← marks_stepsOf] at hmark
  obtain ⟨step, hstep, hmark⟩ := List.mem_filterMap.1 hmark
  obtain rfl : step = .call callee arguments span := by
    cases step with
    | call => cases hmark; rfl
    | _ => cases hmark
  have hvisit : (Surroundings.mk settings sources.length s, .call callee arguments span) ∈
      (visits settings c).filter (·.1.file = sources.length) := by
    rw [filter_visits hc]
    exact List.mem_map_of_mem hstep
  have hmem := List.mem_of_mem_filter hvisit
  rw [← map_visit_moments] at hmem
  obtain ⟨t, ht, hsame⟩ := List.mem_map.1 hmem
  exact ⟨t, ht, hsame⟩

theorem emitted_infix_run {t : Moment} (ht : t ∈ moments settings c) :
    t.emitted <:+: run settings c := by
  obtain ⟨earlier, later, hmoments⟩ := List.append_of_mem ht
  rw [run_eq_moments, hmoments, List.flatMap_append, List.flatMap_cons, List.append_assoc,
    List.append_assoc, ← List.append_assoc]
  exact List.infix_append _ _ _

theorem refersTo_of_unparenthesized {a : Node} {name : String} {place : Span}
    (ha : a.unparenthesized = .name name place) (hname : Name.messageMark <+: name.toList) :
    RefersTo a name := by
  refine ⟨?_, hname.isInfix⟩
  rw [← Node.dottedName_unparenthesized, ha]
  rfl

/-- What a call of the fallback function comes to, if each of its arguments is the name of one
message, defined before the call by a variable of the file. -/
inductive FindsDefinitions (p : Program) (env : Surroundings) (call a b : Node) (x y : String)
    (f g : Forwarded) : List Event → Prop
  | pair (first : ¬ MetEarly p call f) (second : ¬ MetEarly p call g) :
      FindsDefinitions p env call a b x y f g [.fallback call.span f.message g.message]
  | first (early : MetEarly p call f) :
      FindsDefinitions p env call a b x y f g [.issue (.fallbackArgument (env.contextAt a.span) x)]
  | second (first : ¬ MetEarly p call f) (early : MetEarly p call g) :
      FindsDefinitions p env call a b x y f g [.issue (.fallbackArgument (env.contextAt b.span) y)]

/-- In a parsed file, a call of the fallback function finds what is defined before it, unless the
visit meets the call before it defines that. -/
theorem visibleDefinitions_run (settings : Settings) {c : Compilation} {sources : List Source}
    {s : Source} {rest : List Source} (hc : c.sources = sources ++ s :: rest) :
    (∀ externs files, c = Compilation.ofFiles externs files → s.program.IsLaidOut) ∧
    (s.program.IsLaidOut →
      ∀ (callee a b : Node) (span : Span) (x y : String) (place place' : Span) (f g : Forwarded),
        .call callee [a, b] span ∈ s.program.subnodes →
        callee.dottedName = some Name.fallbackFunction →
        a.unparenthesized = .name x place → b.unparenthesized = .name y place' →
        DefinedBefore settings c sources.length s.program span.start x f →
        DefinedBefore settings c sources.length s.program span.start y g →
        let env := Surroundings.mk settings sources.length s
        (∃ t ∈ moments settings c, t.visit = (env, .call callee [a, b] span)) ∧
        ∀ t ∈ moments settings c, t.visit = (env, .call callee [a, b] span) →
          FindsDefinitions s.program env (.call callee [a, b] span) a b x y f g t.emitted ∧
            t.emitted <:+: run settings c) := by
  refine ⟨fun externs files hfiles => ?_, ?_⟩
  · have hs : s ∈ (Compilation.ofFiles externs files).sources := by simp [← hfiles, hc]
    obtain ⟨path, code, hparse⟩ := exists_parse_of_mem_ofFiles hs
    exact Source.isLaidOut_of_parse hparse
  intro hstand callee a b span x y place place' f g hcall hcallee ha hb hx hy env
  refine ⟨exists_moment_of_call settings hc hcall, fun t ht hvisit => ⟨?_, emitted_infix_run ht⟩⟩
  obtain ⟨earlier, later, hmoments⟩ := List.append_of_mem ht
  have hfallback : t.fallbackCall? = some ([a, b], span) := by
    have hstep : t.step = .call callee [a, b] span := congrArg Prod.snd hvisit
    rw [Moment.fallbackCall?, hstep]
    exact if_pos hcallee
  have hreferences : references? [a, b] = some ((x, a.span), (y, b.span)) := by
    have hfirst := reference?_eq_some.2 ⟨refersTo_of_unparenthesized ha hx.starts, rfl⟩
    have hsecond := reference?_eq_some.2 ⟨refersTo_of_unparenthesized hb hy.starts, rfl⟩
    rw [references?, hfirst, hsecond]
  have hemitted := (step_fallbackCall hfallback).1
  rw [fallbackEvent, hreferences] at hemitted
  have henv : t.env = env := congrArg Prod.fst hvisit
  rcases lookup?_of_definedBefore hc hstand hx hmoments hvisit with ⟨hlate, hf⟩ | ⟨hearly, hf⟩
  · rcases lookup?_of_definedBefore hc hstand hy hmoments hvisit with ⟨hlate', hg⟩ | ⟨hearly', hg⟩
    · simp only [hf, hg] at hemitted
      rw [hemitted]
      exact .pair hlate hlate'
    · simp only [hf, hg, henv] at hemitted
      rw [hemitted]
      exact .second hlate hearly'
  · simp only [hf, henv] at hemitted
    rw [hemitted]
    exact .first hearly

namespace Pairing

def value : Node :=
  .call (.member (.name "goog" ⟨12, 16⟩) "getMsg" ⟨12, 23⟩) [.string (some "a") ⟨24, 27⟩] ⟨12, 28⟩

def definition : Node := .declarator (.name "MSG_A" ⟨4, 9⟩) (some value) ⟨4, 28⟩

def function : Node := .member (.name "goog" ⟨34, 38⟩) "getMsgWithFallback" ⟨34, 57⟩

def first : Node := .name "MSG_A" ⟨58, 63⟩

def second : Node := .name "MSG_A" ⟨65, 70⟩

def call : Node := .call function [first, second] ⟨34, 71⟩

/-- `var MSG_A = goog.getMsg('a'); x = goog.getMsgWithFallback(MSG_A, MSG_A);` -/
def apart : Source where
  path := "a.js"
  text := "var MSG_A = goog.getMsg('a'); x = goog.getMsgWithFallback(MSG_A, MSG_A);".toList
  program := ⟨false, [.declarations .var [definition] ⟨0, 29⟩,
    .expressionStatement (.assign "=" (.name "x" ⟨30, 31⟩) call ⟨30, 71⟩) ⟨30, 72⟩]⟩
  comments := []

/-- `var MSG_A = goog.getMsg('a'), x = goog.getMsgWithFallback(MSG_A, MSG_A);` -/
def together : Source where
  path := "a.js"
  text := "var MSG_A = goog.getMsg('a'), x = goog.getMsgWithFallback(MSG_A, MSG_A);".toList
  program := ⟨false, [.declarations .var
    [definition, .declarator (.name "x" ⟨30, 31⟩) (some call) ⟨30, 71⟩] ⟨0, 72⟩]⟩
  comments := []

theorem isLaidOut {s : Source} (hs : s = apart ∨ s = together) : s.program.IsLaidOut := by
  refine ⟨0, 72, ?_⟩
  rcases hs with rfl | rfl
  all_goals repeat' first
    | exact Node.stand_nil
    | refine Node.stand_cons.2
        ⟨Node.isLaidOut_of_stand ?_, by decide, by decide, by decide, ?_⟩

theorem mark_of_site {s : Source} (hs : s = apart ∨ s = together) {site : Site}
    (h : .site site ∈ stepsOf s.program) :
    Step.mark? (.site site) = some (.site .variable "MSG_A" (some value) ⟨4, 9⟩) ∨
      site.name = "x" := by
  rcases hs with rfl | rfl <;>
    simp [apart, together, definition, value, call, function, first, second, stepsOf,
      walkStatements, walkAll, walk, walkOption, declaratorSites, assignmentSites] at h
  · rw [h]
    exact .inl rfl
  · rcases h with h | h
    · rw [h]
      exact .inl rfl
    · rw [h]
      exact .inr rfl

theorem definedBefore {s : Source} (hs : s = apart ∨ s = together) :
    ∃ f, DefinedBefore {} ⟨[], [s], []⟩ 0 s.program 34 "MSG_A" f := by
  have hlength : (definitionsOf {} ⟨[], [s], []⟩ "MSG_A").length = 1 := by
    rcases hs with rfl | rfl <;> decide +kernel
  obtain ⟨f, hf⟩ := List.length_eq_one_iff.1 hlength
  obtain ⟨hforwarded, hkey⟩ :=
    List.mem_filter.1 (show f ∈ definitionsOf {} ⟨[], [s], []⟩ "MSG_A" by simp [hf])
  have hvisit := (mem_forwarded hforwarded).1
  rw [visits, visitsFrom, visitsFrom, List.append_nil] at hvisit
  obtain ⟨step, hstep, hsame⟩ := List.mem_map.1 hvisit
  obtain ⟨henv, rfl⟩ := Prod.mk.inj hsame
  have hmark : f.mark = .site .variable "MSG_A" (some value) ⟨4, 9⟩ := by
    rcases mark_of_site hs hstep with hmark | hname
    · exact Option.some.inj hmark
    · have hx : f.key = "x" := by
        rw [Forwarded.key, Site.key, Site.oldName, hname, ← henv]
        exact (by decide : String.ofList (Name.unscoped "x".toList) = "x")
      rw [hx] at hkey
      exact absurd hkey (by decide)
  refine ⟨f, by simp [Name.messageMark], by decide, hf, by rw [← henv], definition, ?_, ?_,
    by decide⟩
  · rcases hs with rfl | rfl <;>
      exact List.mem_flatMap.2 ⟨_, List.mem_cons_self,
        Node.mem_subnodes_of_mem_parts List.mem_cons_self⟩
  · rw [hmark]
    exact List.mem_singleton_self _

theorem call_mem {s : Source} (hs : s = apart ∨ s = together) : call ∈ s.program.subnodes := by
  have hassign : call ∈ (Node.assign "=" (.name "x" ⟨30, 31⟩) call ⟨30, 71⟩).subnodes :=
    Node.mem_subnodes_of_mem_parts (by simp [Node.parts])
  have hdeclarator : call ∈ (Node.declarator (.name "x" ⟨30, 31⟩) (some call) ⟨30, 71⟩).subnodes :=
    Node.mem_subnodes_of_mem_parts (by simp [Node.parts])
  rcases hs with rfl | rfl
  · exact List.mem_flatMap.2 ⟨_, List.mem_cons_of_mem _ List.mem_cons_self,
      Node.mem_subnodes_trans hassign (Node.mem_subnodes_of_mem_parts (by simp [Node.parts]))⟩
  · exact List.mem_flatMap.2 ⟨_, List.mem_cons_self,
      Node.mem_subnodes_trans hdeclarator (Node.mem_subnodes_of_mem_parts (by simp [Node.parts]))⟩

end Pairing

theorem visibleDefinitions_run_apart :
    ∃ f, DefinedBefore {} ⟨[], [Pairing.apart], []⟩ 0 Pairing.apart.program 34 "MSG_A" f ∧
      ∃ t ∈ moments {} ⟨[], [Pairing.apart], []⟩,
        FindsDefinitions Pairing.apart.program ⟨{}, 0, Pairing.apart⟩ Pairing.call Pairing.first
          Pairing.second "MSG_A" "MSG_A" f f t.emitted ∧
        Event.fallbacks (run {} ⟨[], [Pairing.apart], []⟩) = [("MSG_A", "MSG_A")] := by
  obtain ⟨f, hf⟩ := Pairing.definedBefore (.inl rfl)
  have hsources : (⟨[], [Pairing.apart], []⟩ : Compilation).sources =
      [] ++ Pairing.apart :: [] := rfl
  obtain ⟨⟨t, ht, hvisit⟩, hfinds⟩ := (visibleDefinitions_run {} hsources).2
    (Pairing.isLaidOut (.inl rfl)) Pairing.function Pairing.first Pairing.second _ "MSG_A" "MSG_A"
    _ _ f f (Pairing.call_mem (.inl rfl)) (by decide) rfl rfl hf hf
  exact ⟨f, hf, t, ht, (hfinds t ht hvisit).1, by decide +kernel⟩

theorem visibleDefinitions_run_together :
    ¬ ∀ f, DefinedBefore {} ⟨[], [Pairing.together], []⟩ 0 Pairing.together.program 34 "MSG_A" f →
      ∀ t ∈ moments {} ⟨[], [Pairing.together], []⟩,
        t.visit = (⟨{}, 0, Pairing.together⟩,
          .call Pairing.function [Pairing.first, Pairing.second] ⟨34, 71⟩) →
        t.emitted = [.fallback ⟨34, 71⟩ f.message f.message] := by
  intro h
  obtain ⟨f, hf⟩ := Pairing.definedBefore (.inr rfl)
  have hsources : (⟨[], [Pairing.together], []⟩ : Compilation).sources =
      [] ++ Pairing.together :: [] := rfl
  obtain ⟨t, ht, hvisit⟩ := exists_moment_of_call {} hsources (Pairing.call_mem (.inr rfl))
  have hemitted := h f hf t ht hvisit
  have hevent : .fallback ⟨34, 71⟩ f.message f.message ∈ run {} ⟨[], [Pairing.together], []⟩ :=
    (emitted_infix_run ht).subset (by simp [hemitted])
  have hpair : (f.message.id, f.message.id) ∈
      Event.fallbacks (run {} ⟨[], [Pairing.together], []⟩) :=
    List.mem_filterMap.2 ⟨_, hevent, rfl⟩
  have hnone : Event.fallbacks (run {} ⟨[], [Pairing.together], []⟩) = [] := by decide +kernel
  rw [hnone] at hpair
  cases hpair

end Definition

end MessageCatalog
