import Montage.Proofs.Json.ReadNumber
import Montage.Proofs.Project.Records

/-!
Contract: what is read of a record is what the program can hold.

Whatever the text, its layout, its defaults and the order of its fields: numbers
that were read are finite, whole numbers have 32 bits, dates exist, and no two
files stand under one id.

Owns: the range of read clips, files, timelines and projects.
Does not own: that they are read back once they are written, in
`Proofs.Project.Records`.
-/

namespace Montage

open Montage.Media
open Montage.Json (Slot ReadsOnly float?_readsOnly nat?_readsOnly)

theorem Clip.readsOnly : ReadsOnly Clip.ofJson? fun clip =>
    clip.Fits ∧ ∀ x ∈ clip.numbers, x.isFinite = true := by
  intro v clip read
  obtain ⟨slots, -, read⟩ := Option.bind_eq_some_iff.mp read
  unfold ofSlots? at read
  split at read
  · simp only [Option.bind_eq_bind, Option.bind_eq_some_iff, Option.pure_def,
      Option.some.injEq] at read
    obtain ⟨fileId, -, offset, atOffset, trimStart, atStart, trimEnd, atEnd, speed, atSpeed, volume,
      atVolume, track, onTrack, rfl⟩ := read
    refine ⟨(nat?_readsOnly wordLimit).withDefault onTrack (Nat.zero_le _), ?_⟩
    simp only [numbers, List.forall_mem_cons, List.forall_mem_append, Option.mem_toList]
    exact ⟨float?_readsOnly.withDefault atOffset (by decide),
      float?_readsOnly.withDefault atSpeed (by decide),
      float?_readsOnly.withDefault atVolume (by decide),
      float?_readsOnly.nullable.withDefault atStart (by simp),
      float?_readsOnly.nullable.withDefault atEnd (by simp)⟩
  · cases read

theorem Media.Asset.readsOnly : ReadsOnly Asset.ofJson? fun asset =>
    asset.Fits ∧ asset.duration.isFinite = true := by
  intro v asset read
  obtain ⟨slots, -, read⟩ := Option.bind_eq_some_iff.mp read
  unfold ofSlots? at read
  split at read
  · simp only [Option.bind_eq_bind, Option.bind_eq_some_iff, Option.pure_def,
      Option.some.injEq] at read
    obtain ⟨id, -, path, -, name, -, duration, lasts, hasVideo, -, hasAudio, -, width, wide, height,
      high, rfl⟩ := read
    exact ⟨⟨(nat?_readsOnly wordLimit).withDefault wide (Nat.zero_le _),
      (nat?_readsOnly wordLimit).withDefault high (Nat.zero_le _)⟩,
      float?_readsOnly.required lasts⟩
  · cases read

/-- The fields of a timeline give finite numbers, whatever may stand beside its format. -/
theorem Timeline.ofSlots?_readsOnly (isEmpty : Json → Bool) :
    ReadsOnly (Timeline.ofSlots? isEmpty) fun timeline =>
      timeline.Fits ∧ ∀ x ∈ timeline.numbers, x.isFinite = true := by
  intro slots timeline read
  unfold ofSlots? at read
  split at read
  · simp only [Option.bind_eq_bind, Option.bind_eq_some_iff, Option.pure_def,
      Option.some.injEq] at read
    obtain ⟨clips, listed, duration, lasts, format, -, rfl⟩ := read
    have each := Clip.readsOnly.list?.required listed
    refine ⟨fun clip member => (each clip member).1, ?_⟩
    simp only [numbers, List.forall_mem_append, List.mem_flatMap, Option.mem_toList]
    refine ⟨?_, float?_readsOnly.nullable.withDefault lasts (by simp)⟩
    rintro x ⟨clip, member, inClip⟩
    exact (each clip member).2 x inClip
  · cases read

theorem Timeline.readsOnly : ReadsOnly Timeline.ofJson? fun timeline =>
    timeline.Fits ∧ ∀ x ∈ timeline.numbers, x.isFinite = true := by
  intro v timeline read
  obtain ⟨slots, -, read⟩ := Option.bind_eq_some_iff.mp read
  exact ofSlots?_readsOnly isNull slots timeline read

/-- A date is checked last, when all of its parts have been taken. -/
theorem Instant.isValid_of_read {cs : List Char} {t : Instant} (read : Instant.read? cs = some t) :
    t.isValid = true := by
  unfold read? at read
  iterate 13 obtain ⟨_, -, read⟩ := Option.bind_eq_some_iff.mp read
  simp only [Option.ite_none_right_eq_some, Bool.and_eq_true, Option.pure_def,
    Option.some.injEq] at read
  obtain ⟨⟨⟨-, valid⟩, -⟩, rfl⟩ := read
  exact valid

namespace Project

theorem instantOfJson?_readsOnly : ReadsOnly instantOfJson? fun t => t.isValid = true := by
  intro v t read
  obtain ⟨s, -, instant⟩ := Option.bind_eq_some_iff.mp read
  exact Instant.isValid_of_read instant

theorem filesOfJson?_readsOnly : ReadsOnly filesOfJson? fun files =>
    IdMap.Sorted files ∧ ∀ entry ∈ files, entry.2.Fits ∧ entry.2.duration.isFinite = true := by
  have member : ReadsOnly fileOfMember? fun entry =>
      entry.2.Fits ∧ entry.2.duration.isFinite = true := by
    intro m entry read
    obtain ⟨key, -, keyed⟩ := Option.bind_eq_some_iff.mp read
    obtain ⟨asset, valued, rfl⟩ := Option.map_eq_some_iff.mp keyed
    exact Asset.readsOnly m.2 asset valued
  intro v files read
  cases v with
  | object members =>
      obtain ⟨entries, each, rfl⟩ := Option.map_eq_some_iff.mp read
      refine ⟨IdMap.sorted_ofList entries, fun entry inFiles => ?_⟩
      exact member.mapM members entries each entry (IdMap.mem_of_mem_ofList inFiles)
  | _ => cases read

theorem ofSlots?_fits {now : Instant} (valid : now.isValid = true) {timeline : Timeline Float}
    (fits : timeline.Fits) (finite : ∀ x ∈ timeline.numbers, x.isFinite = true) :
    ReadsOnly (ofSlots? now timeline) fun project =>
      project.Fits ∧ ∀ x ∈ project.numbers, x.isFinite = true := by
  intro slots project read
  unfold ofSlots? at read
  split at read
  · simp only [Option.bind_eq_bind, Option.bind_eq_some_iff, Option.pure_def,
      Option.some.injEq] at read
    obtain ⟨version, numbered, name, -, savedAt, dated, files, listed, tracks, counted, rfl⟩ := read
    have filed := filesOfJson?_readsOnly.withDefault listed ⟨List.Pairwise.nil, by simp⟩
    refine ⟨?_, ?_⟩
    · exact
        { version := (nat?_readsOnly wordLimit).required numbered
          savedAt := instantOfJson?_readsOnly.withDefault dated valid
          sorted := filed.1
          files := fun entry member => (filed.2 entry member).1
          timeline := fits
          tracks := (nat?_readsOnly wordLimit).withDefault counted (by decide) }
    · simp only [numbers, List.forall_mem_append]
      refine ⟨finite, ?_⟩
      intro x inFiles
      obtain ⟨asset, inAssets, rfl⟩ := List.mem_map.mp inFiles
      obtain ⟨entry, member, rfl⟩ := List.mem_map.mp inAssets
      exact (filed.2 entry member).2
  · cases read

theorem readsOnly {now : Instant} (valid : now.isValid = true) :
    ReadsOnly (ofJson? now) fun project =>
      project.Fits ∧ ∀ x ∈ project.numbers, x.isFinite = true := by
  intro v project read
  cases v with
  | object members =>
      simp only [ofJson?, Option.bind_eq_bind, Option.bind_eq_some_iff,
        Option.ite_none_right_eq_some] at read
      obtain ⟨slots, -, timelineSlots, -, timeline, timelineRead, -, projectRead⟩ := read
      obtain ⟨fits, finite⟩ := Timeline.ofSlots?_readsOnly isEmptyValue _ _ timelineRead
      exact ofSlots?_fits valid fits finite slots project projectRead
  | _ => cases read

end Project

end Montage
