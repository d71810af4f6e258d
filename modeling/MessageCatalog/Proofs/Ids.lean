import Mathlib.Algebra.Group.Nat.Defs
import MessageCatalog.Proofs.Fallbacks
import MessageCatalog.Proofs.Fingerprints
import MessageCatalog.Proofs.SourceMaps

/-! Ids made from keys. An id tells the key of its message, so that messages can share one only if
they have the same key, or no key and the same fingerprint. -/

namespace MessageCatalog

namespace Message

def fingerprint (m : Message) : UInt64 := Fingerprint.ofParts m.metadata.meaning m.parts

def keyOfId (id : String) : Option String :=
  if Name.unnamedMark <+: id.toList then none
  else if Name.messageMark <+: id.toList then some id
  else some (String.ofList (Name.externalMark ++ id.toList))

end Message

theorem Name.externalId?_eq_some {key digits : List Char} (h : externalId? key = some digits) :
    key = externalMark ++ digits ∧ ∃ d ds, digits = d :: ds ∧ isDigit d := by
  unfold externalId? at h
  split at h
  · next d ds hlead =>
    split_ifs at h with hdigits
    obtain rfl := Option.some.inj h
    rw [List.all_cons, Bool.and_eq_true] at hdigits
    exact ⟨Text.eq_append_of_dropLead? hlead, d, ds, rfl, hdigits.1⟩
  · cases h

namespace Definition
open Script (Node Span)

def Settings.byKey (s : Settings) : Settings := { s with strategy := .key }

variable {settings : Settings} {c : Compilation} {f f' : Forwarded}

theorem id_of_mem_forwarded (hf : f ∈ forwarded settings.byKey c) :
    f.message.id =
      match f.message.key.bind fun key => Name.externalId? key.toList with
      | some digits => String.ofList digits
      | none => IdStrategy.key.makeId f.message.key f.message.parts f.message.metadata := by
  obtain ⟨-, -, houtcome⟩ := mem_forwarded hf
  have hverdict := verdict_outcome f.env f.site
  rw [houtcome] at hverdict
  obtain ⟨value, -, -, d, -, hmessage⟩ := hverdict
  rw [settings_of_mem_forwarded hf] at hmessage
  rw [← hmessage]
  rfl

theorem id_of_unnamed (hf : f ∈ forwarded settings.byKey c) (hnone : f.message.key = none) :
    f.message.id =
      "MSG_UNNAMED_" ++ String.ofList (Fingerprint.hex 16 f.message.fingerprint.toNat) := by
  have hid := id_of_mem_forwarded hf
  rw [hnone] at hid
  exact hid

theorem key_eq_keyOfId (hf : f ∈ forwarded settings.byKey c) :
    f.message.key = Message.keyOfId f.message.id := by
  have hid := id_of_mem_forwarded hf
  obtain ⟨v, -, hfv⟩ := List.mem_flatMap.1 hf
  obtain ⟨hnamed, -⟩ := key_of_mem_forwardedAt hfv
  obtain ⟨hmark, -⟩ := exists_append_oldName hfv
  unfold Message.keyOfId
  by_cases hunnamed : f.isUnnamed
  · rw [if_pos hunnamed] at hnamed
    rw [id_of_unnamed hf hnamed, hnamed, if_pos]
    rw [String.toList_append]
    exact List.IsPrefix.trans (by decide) (List.prefix_append _ _)
  · rw [if_neg hunnamed] at hnamed
    rw [hnamed, Option.bind_some] at hid
    rw [hnamed]
    cases hexternal : Name.externalId? f.key.toList with
    | none =>
      rw [hexternal] at hid
      have hsame : f.message.id = f.key := hid
      have hstart : ¬ Name.unnamedMark <+: f.key.toList := fun h =>
        hunnamed (Name.startsWith_iff.2 h)
      rw [hsame, if_neg hstart, if_pos hmark]
    | some digits =>
      rw [hexternal] at hid
      have hdigits : f.message.id.toList = digits := by rw [hid, String.toList_ofList]
      obtain ⟨happend, d, ds, rfl, hdigit⟩ := Name.externalId?_eq_some hexternal
      have hno : ∀ mark : List Char, ¬ 'M' :: mark <+: d :: ds := by
        rintro mark h
        obtain ⟨rfl, -⟩ := List.cons_prefix_cons.1 h
        exact absurd hdigit (by decide)
      have hunnamedMark : ¬ Name.unnamedMark <+: d :: ds := hno _
      have hmessageMark : ¬ Name.messageMark <+: d :: ds := hno _
      rw [hdigits, if_neg hunnamedMark, if_neg hmessageMark, ← happend, String.ofList_toList]

theorem key_eq_of_id_eq (hf : f ∈ forwarded settings.byKey c)
    (hf' : f' ∈ forwarded settings.byKey c) (hid : f.message.id = f'.message.id) :
    f.message.key = f'.message.key ∧
      (f.message.key = none → f.message.fingerprint = f'.message.fingerprint) := by
  have hsame : f.message.key = f'.message.key := by
    rw [key_eq_keyOfId hf, key_eq_keyOfId hf', hid]
  refine ⟨hsame, fun hnone => ?_⟩
  rw [id_of_unnamed hf hnone, id_of_unnamed hf' (hsame ▸ hnone), String.append_right_inj,
    String.ofList_inj] at hid
  exact Fingerprint.hex_toNat_inj.1 hid

theorem event_of_mem_emitted {t : Moment} {m : Message} {kind : Kind} {span : Span}
    {location : Location} (h : .message m kind span location ∈ t.emitted) :
    ∃ f ∈ forwardedAt t.visit, f.event = .message m kind span location := by
  have hevent : .message m kind span location ∈ t.emitted.filterMap Event.message? :=
    List.mem_filterMap.2 ⟨_, h, rfl⟩
  rw [Moment.emitted, filterMap_message_emitted (t.env, t.step)] at hevent
  exact List.mem_map.1 hevent

theorem emitted_eq_issues {t : Moment} {done rest : List Event} {m : Message} {kind : Kind}
    {span : Span} {location : Location}
    (h : t.emitted = done ++ .message m kind span location :: rest) :
    ∃ f ∈ forwardedAt t.visit, f.event = .message m kind span location ∧ rest = [] ∧
      ∃ issues : List Issue, done = issues.map .issue := by
  have hmem : .message m kind span location ∈ t.emitted := by
    rw [h]
    exact List.mem_append_right _ List.mem_cons_self
  obtain ⟨f, hf, hevent⟩ := event_of_mem_emitted hmem
  obtain ⟨issues, hissues⟩ : ∃ issues : List Issue, t.emitted = issues.map .issue ++ [f.event] := by
    obtain ⟨env, step, before⟩ := t
    obtain ⟨hvisit, -, -⟩ := mem_forwardedAt hf
    obtain ⟨rfl, rfl⟩ := Prod.mk.inj hvisit
    rcases outcomeEvents_cases f.env before.registry f.site with ⟨g, hg, hevents⟩ | ⟨hnone, -⟩
    · obtain rfl : f = g := by simpa [Moment.visit, hg] using hf
      refine ⟨legacyIssues f.env (candidateOf f.env f.site) ++
        messageIssues f.env before.registry (candidateOf f.env f.site) f.value f.message, ?_⟩
      rw [Moment.emitted, emitted, hevents, List.map_append, List.append_assoc]
    · rw [Moment.visit, hnone] at hf
      cases hf
  have hissues' : issues.map .issue = done ++ (.message m kind span location :: rest).dropLast := by
    rw [← List.dropLast_append_cons, ← h, hissues, List.dropLast_concat]
  cases rest with
  | nil => exact ⟨f, hf, hevent, rfl, issues, by simpa using hissues'.symm⟩
  | cons event rest =>
    have hmem : .message m kind span location ∈ issues.map Event.issue := hissues' ▸ by simp
    obtain ⟨i, -, hi⟩ := List.mem_map.1 hmem
    cases hi

theorem duplicate_mem_emitted {earlier later : List Moment} {t : Moment} {d : Defined}
    (h : moments settings c = earlier ++ t :: later) (hd : d ∈ definedIn earlier)
    (hf : f ∈ forwardedAt t.visit) (hkey : d.source.key = f.key) (hunique : MustBeUnique f.key) :
    ∃ previous, .issue (f.duplicate previous) ∈ t.emitted := by
  have hnamed : d.isNamed f.key := by
    have hunnamed : d.source.isUnnamed = Name.isUnnamed d.source.key.toList := rfl
    simp [Defined.isNamed, hunnamed, hkey, hunique.1]
  obtain ⟨e, he⟩ : ∃ e, latest (·.isNamed f.key) (definedIn earlier) = some e := by
    rw [← Option.ne_none_iff_exists']
    intro hnone
    exact latest_eq_none.1 hnone d hd hnamed
  have hlocation : t.before.registry.locationOf? f.key = some e.entry.location := by
    rw [Registry.locationOf?, named_moments h, he]
    rfl
  refine ⟨e.entry.location, Event.mem_issues.1 (List.mem_of_mem_filter (p := (·.isDuplicateOf f.key)) ?_)⟩
  rw [duplicates_emitted, List.mem_flatMap]
  refine ⟨f, List.mem_filter.2 ⟨hf, by simp⟩, ?_⟩
  rw [if_pos hunique, hlocation]
  exact List.mem_singleton_self _

theorem exists_moments_of_sublist {m m' : Message} {kind kind' : Kind} {span span' : Span}
    {location location' : Location}
    (h : [.message m kind span location, .message m' kind' span' location'].Sublist
      (run settings c)) :
    ∃ earlier t later u, moments settings c = earlier ++ t :: later ∧ u ∈ earlier ∧
      (∃ f ∈ forwardedAt u.visit, f.event = .message m kind span location) ∧
      (∃ f ∈ forwardedAt t.visit, f.event = .message m' kind' span' location') ∧
      ∀ i, .issue i ∈ t.emitted → [.message m kind span location, .issue i,
        .message m' kind' span' location'].Sublist (run settings c) := by
  obtain ⟨before, after, hrun, hfirst, hsecond⟩ := List.cons_sublist_iff.1 h
  obtain ⟨between, after, rfl⟩ := List.append_of_mem (List.singleton_sublist.1 hsecond)
  have hsplit : run settings c =
      (before ++ between) ++ .message m' kind' span' location' :: after := by simpa using hrun
  obtain ⟨earlier, t, later, done, rest, hmoments, hemitted, hbefore⟩ :=
    exists_moment_of_run hsplit fun _ => Event.noConfusion
  obtain ⟨f', hf', hevent', rfl, issues, rfl⟩ := emitted_eq_issues hemitted
  -- The moment of the second message has no other one, so that the first is of an earlier moment.
  have hmem : .message m kind span location ∈ earlier.flatMap Moment.emitted := by
    have hor := List.mem_append_left between hfirst
    rw [hbefore, List.mem_append] at hor
    refine hor.resolve_right fun hissue => ?_
    obtain ⟨i, -, hi⟩ := List.mem_map.1 hissue
    cases hi
  obtain ⟨u, hu, hemitted'⟩ := List.mem_flatMap.1 hmem
  refine ⟨earlier, t, later, u, hmoments, hu, event_of_mem_emitted hemitted', ⟨f', hf', hevent'⟩,
    fun i hi => ?_⟩
  have hissue : .issue i ∈ issues.map Event.issue := by
    rw [hemitted, List.mem_append] at hi
    exact hi.resolve_right (by simp)
  have hlast : [Event.message m' kind' span' location'].Sublist
      (.message m' kind' span' location' :: after) := List.singleton_sublist.2 List.mem_cons_self
  rw [hsplit, hbefore, List.append_assoc]
  exact (List.singleton_sublist.2 hmem).append ((List.singleton_sublist.2 hissue).append hlast)

theorem shared_id {m m' : Message} {kind kind' : Kind} {span span' : Span}
    {location location' : Location}
    (h : [.message m kind span location, .message m' kind' span' location'].Sublist
      (run settings.byKey c)) (hid : m.id = m'.id) :
    (∃ key, m.key = some key ∧ m'.key = some key ∧
      ((Name.externalId? key.toList).isSome ∨ ∃ context previous,
        context.location = settings.lineMap.origin location' ∧
        [.message m kind span location, .issue (.duplicateKey context key previous),
          .message m' kind' span' location'].Sublist (run settings.byKey c))) ∨
    (m.key = none ∧ m'.key = none ∧ m.fingerprint = m'.fingerprint) := by
  obtain ⟨earlier, t, later, u, hmoments, hu, ⟨f, hf, hevent⟩, ⟨f', hf', hevent'⟩, hbetween⟩ :=
    exists_moments_of_sublist h
  obtain ⟨rfl, rfl, rfl, rfl⟩ := Event.message.inj hevent
  obtain ⟨rfl, rfl, rfl, rfl⟩ := Event.message.inj hevent'
  have hmem : f ∈ forwarded settings.byKey c := mem_forwarded_of_moment (by simp [hmoments, hu]) hf
  have hmem' : f' ∈ forwarded settings.byKey c := mem_forwarded_of_moment (by simp [hmoments]) hf'
  obtain ⟨hkeys, hprints⟩ := key_eq_of_id_eq hmem hmem' hid
  obtain ⟨hnamed, -⟩ := key_of_mem_forwardedAt hf
  obtain ⟨hnamed', -⟩ := key_of_mem_forwardedAt hf'
  by_cases hunnamed : f'.isUnnamed
  · rw [if_pos hunnamed] at hnamed'
    exact .inr ⟨hkeys.trans hnamed', hnamed', hprints (hkeys.trans hnamed')⟩
  · rw [if_neg hunnamed] at hnamed'
    refine .inl ⟨f'.key, hkeys.trans hnamed', hnamed', ?_⟩
    by_cases hexternal : (Name.externalId? f'.key.toList).isSome
    · exact .inl hexternal
    · have hkey : f.key = f'.key := by
        rw [hkeys, hnamed'] at hnamed
        split_ifs at hnamed
        exact (Option.some.inj hnamed).symm
      have hunique : MustBeUnique f'.key :=
        ⟨Bool.eq_false_iff.2 hunnamed, by simpa using hexternal⟩
      have hdefined : ⟨f, u.before.scopes.resolve f.site.name⟩ ∈ definedIn earlier :=
        mem_definedIn.2 ⟨u, hu, hf, rfl⟩
      obtain ⟨previous, hissue⟩ := duplicate_mem_emitted hmoments hdefined hf' hkey hunique
      refine .inr ⟨f'.env.contextAt f'.value.span, previous, ?_, hbetween _ hissue⟩
      rw [location_contextAt, settings_of_mem_forwarded hmem', Settings.byKey]

theorem key_eq_of_mem_messages {m m' : Message} (hm : m ∈ Event.messages (run settings.byKey c))
    (hm' : m' ∈ Event.messages (run settings.byKey c)) (hid : m.id = m'.id) :
    m.key = m'.key ∧ m.isExternal = m'.isExternal := by
  rw [messages_run, List.mem_map] at hm hm'
  obtain ⟨f, hf, rfl⟩ := hm
  obtain ⟨f', hf', rfl⟩ := hm'
  have hkeys := (key_eq_of_id_eq hf hf' hid).1
  obtain ⟨v, -, hv⟩ := List.mem_flatMap.1 hf
  obtain ⟨v', -, hv'⟩ := List.mem_flatMap.1 hf'
  exact ⟨hkeys, by rw [(key_of_mem_forwardedAt hv).2, (key_of_mem_forwardedAt hv').2, hkeys]⟩

theorem named_ids_nodup (h : ∀ i ∈ Event.issues (run settings.byKey c), i.rule ≠ .duplicateKey) :
    (((Event.messages (run settings.byKey c)).filter fun m =>
      m.key.isSome && !m.isExternal).map Message.id).Nodup := by
  rw [messages_run, List.filter_map, List.map_map, List.Nodup, List.pairwise_map,
    List.pairwise_iff_forall_sublist]
  intro f f' hsublist hid
  have hmem : f' ∈ (forwarded settings.byKey c).filter fun f =>
      f.message.key.isSome && !f.message.isExternal :=
    hsublist.subset (List.mem_cons_of_mem f (List.mem_singleton_self f'))
  obtain ⟨hf', hnamed⟩ := List.mem_filter.1 hmem
  rw [Bool.and_eq_true, Bool.not_eq_true'] at hnamed
  have hevents : [f.event, f'.event].Sublist (run settings.byKey c) :=
    ((hsublist.trans List.filter_sublist).map Forwarded.event).trans (forwarded_sublist_run _ c)
  rcases shared_id hevents hid with
    ⟨key, -, hkey, hexternal | ⟨context, previous, -, hissue⟩⟩ | ⟨-, hnone, -⟩
  · obtain ⟨v, -, hv⟩ := List.mem_flatMap.1 hf'
    rw [(key_of_mem_forwardedAt hv).2, hkey, Option.bind_some, hexternal] at hnamed
    exact absurd hnamed.2 (by simp)
  · have hreported := Event.mem_issues.2 (hissue.subset (List.mem_cons_of_mem _ List.mem_cons_self))
    exact h _ hreported rfl
  · rw [hnone] at hnamed
    cases hnamed.1

/-- Ids that are made from keys clash only where keys do: two messages share an id only if they have
the same key, which is then external or reported as a duplicate for the second, or if both are
unnamed and have the same fingerprint. -/
theorem ids_run (settings : Settings) (c : Compilation) :
    (∀ m kind span location m' kind' span' location',
      [.message m kind span location, .message m' kind' span' location'].Sublist
        (run settings.byKey c) → m.id = m'.id →
      (∃ key, m.key = some key ∧ m'.key = some key ∧
        ((Name.externalId? key.toList).isSome ∨ ∃ context previous,
          context.location = settings.lineMap.origin location' ∧
          [.message m kind span location, .issue (.duplicateKey context key previous),
            .message m' kind' span' location'].Sublist (run settings.byKey c))) ∨
      (m.key = none ∧ m'.key = none ∧ m.fingerprint = m'.fingerprint)) ∧
    (∀ m ∈ Event.messages (run settings.byKey c), ∀ m' ∈ Event.messages (run settings.byKey c),
      m.id = m'.id → m.key = m'.key ∧ m.isExternal = m'.isExternal) ∧
    ((∀ i ∈ Event.issues (run settings.byKey c), i.rule ≠ .duplicateKey) →
      (((Event.messages (run settings.byKey c)).filter fun m =>
        m.key.isSome && !m.isExternal).map Message.id).Nodup) :=
  ⟨fun _ _ _ _ _ _ _ _ => shared_id, fun _ hm _ hm' => key_eq_of_mem_messages hm hm',
    named_ids_nodup⟩

end Definition

end MessageCatalog
