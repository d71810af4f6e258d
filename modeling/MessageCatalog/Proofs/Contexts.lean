import MessageCatalog.Proofs.Moments

/-! Where the issues of a run are reported: each of them in one of its files, at the start of a
span. -/

namespace MessageCatalog.Definition
open Script (Node Span)

def Surroundings.Shows (env : Surroundings) (i : Issue) : Prop :=
  ∃ span, i.context? = some (env.contextAt span)

variable {settings : Settings} {c : Compilation}

theorem location_of_context? {i : Issue} {context : Context} (hcontext : i.context? = some context) :
    i.location = context.location := by
  cases i with
  | unreadable => cases hcontext
  | _ => simp_all [Issue.location, Issue.context?]

inductive Surroundings.Reports (env : Surroundings) : Issue → Prop
  | step {i : Issue} (raises : env.Raises i) : env.Reports i
  | orphan (span : Span) :
    env.Reports (.orphanedCall (env.contextAt span) env.settings.style.checkLevel)

theorem reports_of_mem_run {i : Issue} (h : i ∈ Event.issues (run settings c)) :
    ∃ file, ∃ source ∈ c.sources, Surroundings.Reports ⟨settings, file, source⟩ i := by
  rw [Event.mem_issues, run_eq_moments, List.mem_append, List.mem_flatMap, List.mem_flatMap] at h
  rcases h with ⟨t, ht, h⟩ | ⟨call, -, h⟩
  · have hvisit : (t.env, t.step) ∈ visits settings c := by
      rw [← map_visit_moments]
      exact List.mem_map_of_mem ht
    obtain ⟨hsettings, hsource, -⟩ := mem_visitsFrom hvisit
    refine ⟨t.env.file, t.env.source, hsource, ?_⟩
    rw [← hsettings]
    exact .step (raises_of_mem_emitted h)
  · obtain ⟨source, hsource, h⟩ := eq_of_mem_orphanEvents h
    cases h
    exact ⟨call.file, source, hsource, .orphan call.span⟩

theorem shows_of_mem_run {i : Issue} (h : i ∈ Event.issues (run settings c)) :
    ∃ file, ∃ source ∈ c.sources, Surroundings.Shows ⟨settings, file, source⟩ i := by
  obtain ⟨file, source, hsource, hreports⟩ := reports_of_mem_run h
  refine ⟨file, source, hsource, ?_⟩
  cases hreports with
  | step raises => cases raises <;> exact ⟨_, rfl⟩
  | orphan span => exact ⟨span, rfl⟩

end MessageCatalog.Definition
