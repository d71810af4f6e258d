import MessageCatalog.Proofs.Moments
import MessageCatalog.Proofs.NameForms
import MessageCatalog.Proofs.Subnodes
import Mathlib.Data.List.Infix

/-! Written references to messages. A definition drops what scope rewriting has put before the last
`$MSG_` of its name; a reference is cut at the first `MSG_` of all that is written. Where no `MSG_`
stands further to the left, the two agree. -/

namespace MessageCatalog

namespace Text
variable {α : Type} [DecidableEq α] {part cs : List α}

theorem occurs_iff : occurs part cs = true ↔ part <:+: cs := by
  induction cs with
  | nil => simp [occurs]
  | cons c r ih =>
    rw [occurs, Bool.or_eq_true, List.infix_cons_iff]
    exact or_congr isSome_dropLead?_iff ih

end Text

namespace Name

theorem prefix_of_prefix_append {before key : List Char} (hkey : messageMark <+: key)
    (hne : before ≠ []) (h : messageMark <+: before ++ key) : messageMark <+: before := by
  obtain ⟨rest, rfl⟩ := hkey
  match before, hne with
  | [_], _ => simp [messageMark] at h
  | [_, _], _ => simp [messageMark] at h
  | [_, _, _], _ => simp [messageMark] at h
  | _ :: _ :: _ :: _ :: _, _ => simpa [messageMark] using h

end Name

theorem Registry.fromMark?_append_eq_iff {before key : List Char}
    (hkey : Name.messageMark <+: key) :
    fromMark? Name.messageMark (before ++ key) = some key ↔ ¬ Name.messageMark <:+: before := by
  induction before with
  | nil =>
    have hnil : ¬ Name.messageMark <:+: [] := by simp [Name.messageMark]
    obtain ⟨rest, rfl⟩ := hkey
    have hstarts : Name.startsWith Name.messageMark (Name.messageMark ++ rest) = true :=
      Name.startsWith_iff.2 (List.prefix_append _ _)
    simp only [hnil, not_false_eq_true, iff_true, List.nil_append]
    exact if_pos hstarts
  | cons c r ih =>
    rw [List.cons_append, fromMark?, List.infix_cons_iff, not_or]
    -- A mark found here cannot reach into the key, which starts with one itself.
    split_ifs with hstarts
    · have hlead := Name.prefix_of_prefix_append hkey (List.cons_ne_nil c r)
        (Name.startsWith_iff.1 hstarts)
      have hlength : c :: (r ++ key) ≠ key := by
        intro h
        have hsame := congrArg List.length h
        simp only [List.length_cons, List.length_append] at hsame
        omega
      simp [hlead, hlength]
    · have hlead : ¬ Name.messageMark <+: c :: r := fun h =>
        hstarts (Name.startsWith_iff.2 (h.trans (List.prefix_append _ key)))
      rw [ih]
      simp [hlead]

namespace Definition
open Script (Node Span)

/-- The message last defined for the reference: under its key, or if that is unnamed under the
binding that the reference has in these scopes. -/
def latestFor (ds : List Defined) (scopes : Scopes) (reference : String) : Option Message :=
  match Registry.fromMark? Name.messageMark reference.toList with
  | none => none
  | some key =>
    if Name.isUnnamed key then
      (scopes.resolve reference).bind fun binding =>
        (latest (·.isBound binding) ds).map Defined.message
    else (latest (·.isNamed (String.ofList key)) ds).map Defined.message

theorem latestFor_cases {ds : List Defined} {scopes : Scopes} {reference : String} {m : Message}
    (h : latestFor ds scopes reference = some m) :
    ∃ d ∈ ds, d.message = m ∧
      ∃ key, Registry.fromMark? Name.messageMark reference.toList = some key ∧
        (if Name.isUnnamed key then
          ∃ binding, scopes.resolve reference = some binding ∧ d.isBound binding
        else d.isNamed (String.ofList key)) := by
  unfold latestFor at h
  split at h
  · cases h
  · next key hkey =>
    split_ifs at h with hunnamed
    · obtain ⟨binding, hbinding, h⟩ := Option.bind_eq_some_iff.1 h
      obtain ⟨d, hd, hm⟩ := Option.map_eq_some_iff.1 h
      obtain ⟨hmem, hbound⟩ := mem_of_latest hd
      exact ⟨d, hmem, hm, key, hkey, by rw [if_pos hunnamed]; exact ⟨binding, hbinding, hbound⟩⟩
    · obtain ⟨d, hd, hm⟩ := Option.map_eq_some_iff.1 h
      obtain ⟨hmem, hnamed⟩ := mem_of_latest hd
      exact ⟨d, hmem, hm, key, hkey, by rw [if_neg hunnamed]; exact hnamed⟩

theorem lookup?_eq_latestFor {registry : Registry} {ds : List Defined}
    (hnamed : ∀ key, registry.named.find? key =
      (latest (·.isNamed key) ds).map Defined.entry)
    (hunnamed : ∀ binding, registry.unnamed.find? binding =
      (latest (·.isBound binding) ds).map Defined.message) (scopes : Scopes) :
    registry.lookup? scopes = latestFor ds scopes := by
  have hnamed : registry.named? = fun key => (latest (·.isNamed key) ds).map Defined.message := by
    funext key
    rw [Registry.named?, hnamed, Option.map_map]
    rfl
  have hunnamed : registry.unnamed? = fun binding =>
      (latest (·.isBound binding) ds).map Defined.message := funext hunnamed
  funext reference
  unfold Registry.lookup? latestFor
  cases Registry.fromMark? Name.messageMark reference.toList with
  | none => rfl
  | some key => simp only [hnamed, hunnamed]

variable {settings : Settings} {c : Compilation} {earlier later : List Moment} {t : Moment}

theorem lookup?_before (h : moments settings c = earlier ++ t :: later) (scopes : Scopes) :
    t.before.registry.lookup? scopes = latestFor (definedIn earlier) scopes :=
  lookup?_eq_latestFor (named_moments h) (unnamed_moments h) scopes

theorem lookup?_after (h : moments settings c = earlier ++ t :: later) (scopes : Scopes) :
    t.after.registry.lookup? scopes = latestFor (definedIn (earlier ++ [t])) scopes := by
  have hdefined : definedIn (earlier ++ [t]) = definedIn earlier ++ t.defined := by
    simp [definedIn]
  rw [hdefined]
  refine lookup?_eq_latestFor (fun key => ?_) (fun binding => ?_) scopes
  · rw [named_after, named_moments h, latest_append, Option.map_or]
  · rw [unnamed_after, unnamed_moments h, latest_append, Option.map_or]

theorem key_of_latestFor {ts : List Moment} {scopes : Scopes} {reference : String} {m : Message}
    (h : latestFor (definedIn ts) scopes reference = some m) :
    ∃ key, Registry.fromMark? Name.messageMark reference.toList = some key ∧
      m.key = if Name.isUnnamed key then none else some (String.ofList key) := by
  obtain ⟨d, hd, rfl, key, hkey, hfound⟩ := latestFor_cases h
  obtain ⟨t, -, hf, -⟩ := mem_definedIn.1 hd
  refine ⟨key, hkey, (key_of_mem_forwardedAt hf).1.trans ?_⟩
  by_cases hunnamed : Name.isUnnamed key
  · rw [if_pos hunnamed] at hfound ⊢
    obtain ⟨binding, -, hbound⟩ := hfound
    rw [Defined.isBound, Bool.and_eq_true] at hbound
    rw [if_pos hbound.1]
  · rw [if_neg hunnamed] at hfound ⊢
    rw [Defined.isNamed, Bool.and_eq_true, Bool.not_eq_true', beq_iff_eq] at hfound
    rw [if_neg (by simp [hfound.1]), hfound.2]

def written? (n : Node) : Mark → Option String
  | .site .variable name _ _ => some name
  | .site .assignment _ _ _ =>
    match n with
    | .assign _ target _ _ => target.dottedName
    | _ => none
  | _ => none

def Forwarded.mark (f : Forwarded) : Mark :=
  .site f.site.kind f.site.name f.site.value f.site.span

theorem exists_append_of_written? {n : Node} {kind : Kind} {name : String} {value : Option Node}
    {span : Span} {reference : String} (hmark : .site kind name value span ∈ marksAt n)
    (h : written? n (.site kind name value span) = some reference) :
    ∃ qualifier, reference.toList = qualifier ++ name.toList := by
  cases mem_marksAt.1 hmark with
  | declarator =>
    cases h
    exact ⟨[], rfl⟩
  | assignment =>
    obtain ⟨first, -, rfl⟩ := Option.map_eq_some_iff.1 h
    exact ⟨(first ++ ".").toList, by simp⟩
  | property => cases h

theorem exists_append_oldName {v : Visit} {f : Forwarded} (hf : f ∈ forwardedAt v) :
    Name.messageMark <+: f.key.toList ∧
      ∃ before, (f.site.oldName f.env).toList = before ++ f.key.toList := by
  obtain ⟨-, -, houtcome⟩ := mem_forwardedAt hf
  have hverdict := verdict_outcome f.env f.site
  rw [houtcome] at hverdict
  obtain ⟨value, ⟨hnames, -, -⟩, -, -⟩ := hverdict
  rw [Site.namesMessage, Name.isMessage, Bool.and_eq_true] at hnames
  rw [Forwarded.key, Site.key, String.toList_ofList]
  obtain ⟨before, hbefore⟩ := Name.unscoped_suffix (f.site.oldName f.env).toList
  exact ⟨Name.messageMark_prefix_unscoped hnames.1, before, hbefore.symm⟩

theorem exists_append_key {t : Moment} {f : Forwarded} (unrenamed : settings.oldNames = .empty)
    (ht : t ∈ moments settings c) (hf : f ∈ forwardedAt t.visit) :
    Name.messageMark <+: f.key.toList ∧ ∃ before, f.site.name.toList = before ++ f.key.toList := by
  have hname : f.site.oldName f.env = f.site.name := by
    have hmem : (f.env, .site f.site) ∈ visits settings c := by
      rw [← (mem_forwardedAt hf).1, ← map_visit_moments]
      exact List.mem_map_of_mem ht
    rw [Site.oldName, (mem_visitsFrom hmem).1, Settings.oldName, unrenamed]
    rfl
  rw [← hname]
  exact exists_append_oldName hf

/-- Right after the definition of a message with a key, the reference to it as written there finds
it just if `MSG_` does not stand further to the left than in the key. -/
theorem lookup?_written (settings : Settings) (c : Compilation)
    (unrenamed : settings.oldNames = .empty) :
    ∀ t ∈ moments settings c, ∀ f ∈ forwardedAt t.visit, f.isUnnamed = false →
      (∃ n ∈ f.env.source.program.subnodes, f.mark ∈ marksAt n) ∧
      ∀ n reference, f.mark ∈ marksAt n → written? n f.mark = some reference →
        ∃ qualifier, reference.toList = qualifier ++ f.key.toList ∧
          (Registry.fromMark? Name.messageMark reference.toList = some f.key.toList ↔
            ¬ Name.messageMark <:+: qualifier) ∧
          (t.after.registry.lookup? t.after.scopes reference = some f.message ↔
            ¬ Name.messageMark <:+: qualifier) := by
  intro t ht f hf hnamed
  have hmem : f.mark ∈ marksOf f.env.source.program := by
    have hvisit : t.visit ∈ visits settings c := by
      rw [← map_visit_moments]
      exact List.mem_map_of_mem ht
    rw [(mem_forwardedAt hf).1] at hvisit
    rw [← marks_stepsOf]
    exact List.mem_filterMap.2 ⟨_, (mem_visitsFrom hvisit).2.2, rfl⟩
  refine ⟨List.mem_flatMap.1 hmem, fun n reference hmark hwritten => ?_⟩
  obtain ⟨hstarts, before, hbefore⟩ := exists_append_key unrenamed ht hf
  obtain ⟨qualifier, hqualifier⟩ := exists_append_of_written? hmark hwritten
  have hreference : reference.toList = (qualifier ++ before) ++ f.key.toList := by
    rw [hqualifier, hbefore, List.append_assoc]
  have hcut : Registry.fromMark? Name.messageMark reference.toList = some f.key.toList ↔
      ¬ Name.messageMark <:+: qualifier ++ before := by
    rw [hreference]
    exact Registry.fromMark?_append_eq_iff hstarts
  refine ⟨qualifier ++ before, hreference, hcut, Iff.trans ?_ hcut⟩
  have hkey : f.message.key = some f.key := by
    rw [(key_of_mem_forwardedAt hf).1, hnamed]
    rfl
  constructor
  · -- What is found has the key that the reference is cut to, and the message has its own.
    intro hfound
    obtain ⟨earlier, later, hmoments⟩ := List.append_of_mem ht
    rw [lookup?_after hmoments] at hfound
    obtain ⟨key, hcut, hsame⟩ := key_of_latestFor hfound
    rw [hkey] at hsame
    split_ifs at hsame
    rw [hcut, Option.some.inj hsame, String.toList_ofList]
  · intro hcut
    have hheld := ((isHeld_after hf).named hnamed).1
    have hunnamed : Name.isUnnamed f.key.toList = false := hnamed
    simp only [Registry.lookup?, hcut, hunnamed, Bool.false_eq_true, if_false, String.ofList_toList,
      hheld]

def qualifiedValue (qualifier : String) : Node :=
  let start := qualifier.length + 9
  let callee : Node := .member (.name "goog" ⟨start, start + 4⟩) "getMsg" ⟨start, start + 11⟩
  .call callee [.string (some "x") ⟨start + 12, start + 15⟩] ⟨start, start + 16⟩

def qualifiedAssignment (qualifier : String) : Node :=
  .assign "=" (.member (.name qualifier ⟨0, qualifier.length⟩) "MSG_A" ⟨0, qualifier.length + 6⟩)
    (qualifiedValue qualifier) ⟨0, qualifier.length + 25⟩

def qualified (qualifier : String) : Source where
  path := "a.js"
  text := (qualifier ++ ".MSG_A = goog.getMsg('x');").toList
  program :=
    ⟨false, [.expressionStatement (qualifiedAssignment qualifier) ⟨0, qualifier.length + 26⟩]⟩
  comments := []

def qualifiedVisit (qualifier : String) : Visit :=
  (⟨{}, 0, qualified qualifier⟩,
    .site ⟨.assignment, "MSG_A", some (qualifiedValue qualifier), ⟨0, qualifier.length + 25⟩,
      [0, 0], []⟩)

theorem forwardedAt_qualified {qualifier : String} {f : Forwarded}
    (hf : f ∈ forwardedAt (qualifiedVisit qualifier)) :
    f.isUnnamed = false ∧ f.key = "MSG_A" ∧
      qualifiedAssignment qualifier ∈ f.env.source.program.subnodes ∧
      f.mark ∈ marksAt (qualifiedAssignment qualifier) ∧
      written? (qualifiedAssignment qualifier) f.mark = some (qualifier ++ "." ++ "MSG_A") := by
  obtain ⟨env, site, value, message⟩ := f
  obtain ⟨hvisit, -, -⟩ := mem_forwardedAt hf
  obtain ⟨rfl, hsite⟩ := Prod.mk.inj hvisit
  obtain rfl := Step.site.inj hsite
  have hkey : String.ofList (Name.unscoped "MSG_A".toList) = "MSG_A" := by decide
  refine ⟨?_, hkey, ?_, List.mem_singleton_self _, rfl⟩
  · change Name.isUnnamed (String.ofList (Name.unscoped "MSG_A".toList)).toList = false
    rw [hkey]
    decide
  · apply List.mem_flatMap.2
    exact ⟨_, List.mem_singleton_self _, Node.mem_subnodes_of_mem_parts (by simp [Node.parts])⟩

theorem exists_forwarded_qualified (qualifier : String)
    (hdefined : (forwardedAt (qualifiedVisit qualifier)).length = 1) :
    ∃ t ∈ moments {} ⟨[], [qualified qualifier], []⟩, ∃ f ∈ forwardedAt t.visit,
      (moments {} ⟨[], [qualified qualifier], []⟩).getLast? = some t ∧ f.isUnnamed = false ∧
        f.key = "MSG_A" ∧ qualifiedAssignment qualifier ∈ f.env.source.program.subnodes ∧
        f.mark ∈ marksAt (qualifiedAssignment qualifier) ∧
        written? (qualifiedAssignment qualifier) f.mark = some (qualifier ++ "." ++ "MSG_A") := by
  have hmoments : ∃ call t, moments {} ⟨[], [qualified qualifier], []⟩ = [call, t] ∧
      t.visit = qualifiedVisit qualifier := ⟨_, _, rfl, rfl⟩
  obtain ⟨call, t, hmoments, hvisit⟩ := hmoments
  obtain ⟨f, hf⟩ := List.length_eq_one_iff.1 hdefined
  have hmem : f ∈ forwardedAt (qualifiedVisit qualifier) := hf ▸ List.mem_singleton_self f
  rw [hmoments]
  exact ⟨t, by simp, f, hvisit ▸ hmem, rfl, forwardedAt_qualified hmem⟩

theorem lookup?_written_qualified :
    ∃ t ∈ moments {} ⟨[], [qualified "ns"], []⟩, ∃ f ∈ forwardedAt t.visit,
      t.after.registry.lookup? t.after.scopes "ns.MSG_A" = some f.message := by
  obtain ⟨t, ht, f, hf, -, hnamed, hkey, -, hmark, hwritten⟩ :=
    exists_forwarded_qualified "ns" (by decide +kernel)
  obtain ⟨qualifier, hreference, -, hfound⟩ :=
    (lookup?_written {} ⟨[], [qualified "ns"], []⟩ rfl t ht f hf hnamed).2 _ _ hmark hwritten
  have hqualifier : "ns.".toList = qualifier := by
    have hsame : "ns.".toList ++ f.key.toList = qualifier ++ f.key.toList := by
      rw [← hreference, hkey]
      decide
    exact List.append_cancel_right hsame
  refine ⟨t, ht, f, hf, hfound.2 ?_⟩
  rw [← hqualifier, ← Text.occurs_iff]
  decide

/-- A qualifier may itself contain `MSG_`: `MSG_ns.MSG_A` is looked up as a whole. -/
theorem lookup?_written_twoMarks :
    ¬ ∀ t ∈ moments {} ⟨[], [qualified "MSG_ns"], []⟩, ∀ f ∈ forwardedAt t.visit,
      f.isUnnamed = false → ∀ n ∈ f.env.source.program.subnodes, ∀ reference,
        f.mark ∈ marksAt n → written? n f.mark = some reference →
          t.after.registry.lookup? t.after.scopes reference = some f.message ∨
            Registry.fromMark? Name.messageMark reference.toList = some f.key.toList := by
  intro h
  obtain ⟨t, ht, f, hf, hlast, hnamed, hkey, hnode, hmark, hwritten⟩ :=
    exists_forwarded_qualified "MSG_ns" (by decide +kernel)
  have hnothing : ((moments {} ⟨[], [qualified "MSG_ns"], []⟩).getLast?.bind fun t =>
      t.after.registry.lookup? t.after.scopes ("MSG_ns" ++ "." ++ "MSG_A")) = none := by
    decide +kernel
  rw [hlast] at hnothing
  rcases h t ht f hf hnamed _ hnode _ hmark hwritten with hfound | hcut
  · cases hfound.symm.trans hnothing
  · rw [hkey] at hcut
    exact absurd hcut (by decide)

end Definition

end MessageCatalog
