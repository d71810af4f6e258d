import MessageCatalog.Proofs.Contexts
import MessageCatalog.Proofs.DuplicateKeys
import MessageCatalog.Proofs.SideBySide

/-! Runs with a source map. All that a run shows to somebody is shown at the place that the map knows
for it, except for one: the earlier definition that a duplicate key is reported with. -/

namespace MessageCatalog

def SourceMap.origin (m : SourceMap) (l : Location) : Location :=
  match m.locate? l.file l.line l.column with
  | some mapped => ⟨mapped.file, mapped.line, l.column⟩
  | none => l

def SourceMap.relocate (m : SourceMap) (context : Context) : Context where
  location := m.origin context.location
  sourceLine :=
    let l := context.location
    if (m.locate? l.file l.line l.column).isSome then none else context.sourceLine

def Issue.relocate (m : SourceMap) (i : Issue) : Issue :=
  match i.context? with
  | some context => i.withContext (m.relocate context)
  | none => i

namespace Definition
open Script (Node Span)

def Settings.unmapped (s : Settings) : Settings := { s with lineMap := {} }

variable {settings : Settings} {c : Compilation}

theorem location_contextAt (env : Surroundings) (span : Span) :
    (env.contextAt span).location = env.settings.lineMap.origin (env.locationAt span) := by
  let p := Text.position env.source.text span.start
  unfold Surroundings.contextAt SourceMap.origin Surroundings.locationAt
  cases h : env.settings.lineMap.locate? env.source.path p.line p.column <;> simp only [p, h]

theorem relocate_contextAt (source : Source) (span : Span) :
    settings.lineMap.relocate (Surroundings.contextAt ⟨settings.unmapped, 0, source⟩ span) =
      Surroundings.contextAt ⟨settings, 0, source⟩ span := by
  let p := Text.position source.text span.start
  have hunmapped : Surroundings.contextAt ⟨settings.unmapped, 0, source⟩ span =
      ⟨⟨source.path, p.line, p.column⟩, some (String.ofList p.lineText)⟩ := rfl
  rw [hunmapped]
  unfold SourceMap.relocate SourceMap.origin Surroundings.contextAt
  cases h : settings.lineMap.locate? source.path p.line p.column <;> simp [p, h]

theorem sourceNameAt_eq (env : Surroundings) (span : Span) :
    env.sourceNameAt span =
      let origin := env.settings.lineMap.origin (env.locationAt span)
      s!"{origin.file}:{origin.line}" := by
  unfold Surroundings.sourceNameAt
  rw [location_contextAt]

theorem previous_of_duplicateKey {context : Context} {key : String} {previous : Location}
    (h : .duplicateKey context key previous ∈ Event.issues (run settings c)) :
    ∃ f ∈ forwarded settings c, f.key = key ∧ f.location = previous := by
  rw [Event.mem_issues, run_eq_moments, List.mem_append, List.mem_flatMap] at h
  rcases h with ⟨t, ht, h⟩ | h
  · have hduplicate : Issue.duplicateKey context key previous ∈
        (Event.issues t.emitted).filter (·.isDuplicateOf key) :=
      List.mem_filter.2 ⟨Event.mem_issues.2 h, by simp [Issue.isDuplicateOf]⟩
    obtain ⟨earlier, later, hmoments⟩ := List.append_of_mem ht
    rw [duplicates_emitted, List.mem_flatMap] at hduplicate
    obtain ⟨f, -, hf⟩ := hduplicate
    split_ifs at hf
    · obtain ⟨location, hlocation, hissue⟩ := List.mem_map.1 hf
      obtain ⟨-, -, rfl⟩ := Issue.duplicateKey.inj hissue
      rw [Option.mem_toList, Registry.locationOf?, named_moments hmoments, Option.map_map,
        Option.map_eq_some_iff] at hlocation
      obtain ⟨d, hlatest, hd⟩ := hlocation
      obtain ⟨hmem, hnamed⟩ := mem_of_latest hlatest
      have hkey : key = d.source.key := by
        simp only [Defined.isNamed, Bool.and_eq_true, beq_iff_eq] at hnamed
        exact hnamed.2
      refine ⟨d.source, ?_, hkey.symm, hd⟩
      have hsource : d.source ∈ (definedIn earlier).map Defined.source := List.mem_map_of_mem hmem
      rw [map_source_definedIn] at hsource
      rw [forwarded, ← map_visit_moments, hmoments, List.map_append, List.flatMap_append]
      exact List.mem_append_left _ hsource
    · cases hf
  · obtain ⟨i, hi, hrule⟩ := rule_of_mem_orphanEvents h
    cases hi
    cases hrule

theorem relocate_of_paired {i i' : Issue} (h : Issue.Paired settings.unmapped settings i i') :
    i' = i.relocate settings.lineMap := by
  obtain ⟨source, span, hi, rfl⟩ := h
  unfold Issue.relocate
  rw [hi]
  dsimp only
  rw [relocate_contextAt]

theorem issues_relocate {P : Message → Message → Prop} {events events' : List Event}
    (h : List.Forall₂ (Event.Paired settings.unmapped settings P) events events') :
    Event.issues events' = (Event.issues events).map (Issue.relocate settings.lineMap) := by
  induction h with
  | nil => rfl
  | cons he _ ih =>
    next e e' es es' _ =>
    cases e <;> cases e' <;> try exact he.elim
    · exact ih
    · exact ih
    · next i i' =>
      have hi : i' = i.relocate settings.lineMap := relocate_of_paired he
      subst hi
      exact congrArg _ ih

theorem sourceName_of_mem_forwarded {f : Forwarded} (h : f ∈ forwarded settings c) :
    f.message.sourceName = f.env.sourceNameAt f.site.span := by
  obtain ⟨-, -, houtcome⟩ := mem_forwarded h
  have hverdict := verdict_outcome f.env f.site
  rw [houtcome] at hverdict
  obtain ⟨value, -, -, d, hd, hmessage⟩ := hverdict
  rw [← hmessage, Draft.build]
  exact (Site.draft_extends hd).2.1

/-- An issue is shown where the source map says that its place comes from, and a message is named
for the place that it comes from; if the map knows nothing of a place, the generated place stands.
The place of the earlier definition of a duplicate key is always the generated one. -/
theorem sourceMap_run (settings : Settings) (c : Compilation) :
    (Event.issues (run settings c) =
      (Event.issues (run settings.unmapped c)).map (Issue.relocate settings.lineMap)) ∧
    (∀ i ∈ Event.issues (run settings.unmapped c), ∃ file, ∃ source ∈ c.sources, ∃ span,
      i.location = Surroundings.locationAt ⟨settings, file, source⟩ span) ∧
    (∀ f ∈ forwarded settings c,
      let origin := settings.lineMap.origin (f.env.locationAt f.site.span)
      f.message.sourceName = s!"{origin.file}:{origin.line}") ∧
    ∀ context key previous,
      .duplicateKey context key previous ∈ Event.issues (run settings c) →
        ∃ f ∈ forwarded settings c, f.key = key ∧ f.location = previous := by
  have hkin : settings.unmapped.Kin settings := ⟨rfl, rfl⟩
  refine ⟨issues_relocate (run_paired hkin c).2, fun i hi => ?_, fun f hf => ?_,
    fun _ _ _ => previous_of_duplicateKey⟩
  · obtain ⟨file, source, hsource, span, hspan⟩ := shows_of_mem_run hi
    exact ⟨file, source, hsource, span, location_of_context? hspan⟩
  · rw [sourceName_of_mem_forwarded hf, sourceNameAt_eq, settings_of_mem_forwarded hf]

def twoLines : Settings :=
  { lineMap := (({} : LineMap).insert "a.js" 1 ⟨"b.js", 11⟩).insert "a.js" 3 ⟨"b.js", 13⟩ }

/-- The map knows where the first definition comes from, and the report of the second one does not
tell it. -/
theorem sourceMap_run_repeatedKey :
    (Event.issues (run twoLines ⟨[], [repeatedKey], []⟩)).filter (·.isDuplicateOf "MSG_A") =
      [.duplicateKey ⟨⟨"b.js", 13, 13⟩, none⟩ "MSG_A" ⟨"a.js", 1, 13⟩] ∧
    twoLines.lineMap.origin ⟨"a.js", 1, 13⟩ = ⟨"b.js", 11, 13⟩ := by
  constructor <;> decide +kernel

end Definition
end MessageCatalog
