import Montage.Project.SettingsStore
import Montage.Proofs.Project.Stability

/-!
Contract: what the text of a settings file says.

A text is an overlay when it is a record whose fields are texts, null or
missing. A field that is a text other than the empty one counts, and every other
field keeps its default. A text that is no overlay says nothing.

Owns: overlays by their fields, and reading back what was written.
Does not own: the file the text is in, in `Proofs.CommandLine.ChangingSettings`.
-/

namespace Montage.Settings

open Montage.Json (Slot)

variable {workspace text : String} {overlay : Overlay} {settings : Settings}

/-! ## Overlays -/

/-- What a field tells: a text, or nothing where it is null or missing. -/
inductive Tells : Slot → Option String → Prop where
  | text (path : String) : Tells (.given (.string (some path))) (some path)
  | null : Tells (.given .null) none
  | missing : Tells .absent none

theorem tells_iff {slot : Slot} {said : Option String} :
    slot.optional Json.text? = some said ↔ Tells slot said := by
  constructor
  · intro read
    cases slot with
    | given v =>
        cases v with
        | null =>
            cases read
            exact .null
        | string q =>
            cases q with
            | none => cases read
            | some path =>
                cases read
                exact .text path
        | _ => cases read
    | absent =>
        cases read
        exact .missing
    | beyondEnd => cases read
  · intro tells
    cases tells <;> rfl

/-- A text that is a record of settings, of which any may be missing. -/
def IsOverlay (text : String) (overlay : Overlay) : Prop :=
  ∃ v projectDir exportDir ffmpegPath, Json.read? text = some v ∧
    v.slots? fieldNames = some [projectDir, exportDir, ffmpegPath] ∧
    Tells projectDir overlay.projectDir ∧ Tells exportDir overlay.exportDir ∧
    Tells ffmpegPath overlay.ffmpegPath

theorem Overlay.ofSlots?_eq_some_iff {slots : List Slot} :
    Overlay.ofSlots? slots = some overlay ↔
      ∃ projectDir exportDir ffmpegPath, slots = [projectDir, exportDir, ffmpegPath] ∧
        Tells projectDir overlay.projectDir ∧ Tells exportDir overlay.exportDir ∧
        Tells ffmpegPath overlay.ffmpegPath := by
  constructor
  · intro read
    unfold Overlay.ofSlots? at read
    split at read
    · next projectDir exportDir ffmpegPath =>
        simp only [Option.pure_def, Option.bind_eq_bind, Option.bind_eq_some_iff,
          Option.some.injEq, tells_iff] at read
        obtain ⟨first, isFirst, second, isSecond, third, isThird, rfl⟩ := read
        exact ⟨projectDir, exportDir, ffmpegPath, rfl, isFirst, isSecond, isThird⟩
    · cases read
  · rintro ⟨projectDir, exportDir, ffmpegPath, rfl, isFirst, isSecond, isThird⟩
    rw [← tells_iff] at isFirst isSecond isThird
    simp [Overlay.ofSlots?, isFirst, isSecond, isThird]

theorem isOverlay_iff :
    IsOverlay text overlay ↔ (Json.read? text).bind Overlay.ofJson? = some overlay := by
  simp only [IsOverlay, Option.bind_eq_some_iff, Overlay.ofJson?, Overlay.ofSlots?_eq_some_iff]
  constructor
  · rintro ⟨v, projectDir, exportDir, ffmpegPath, read, slots, tells⟩
    exact ⟨v, read, _, slots, projectDir, exportDir, ffmpegPath, rfl, tells⟩
  · rintro ⟨v, read, _, slots, projectDir, exportDir, ffmpegPath, rfl, tells⟩
    exact ⟨v, projectDir, exportDir, ffmpegPath, read, slots, tells⟩

/-! ## Falling back -/

/-- A value is what was said, unless nothing was said or the text is empty. -/
inductive FallsBack {β : Type} (wrap : String → β) (default : β) : Option String → β → Prop where
  | said {path : String} (filled : path ≠ "") : FallsBack wrap default (some path) (wrap path)
  | blank : FallsBack wrap default (some "") default
  | nothing : FallsBack wrap default none default

/-- Settings of which each is what an overlay says or else its default. -/
structure Overlaid (workspace : String) (overlay : Overlay) (settings : Settings) : Prop where
  projectDir : FallsBack id (defaults workspace).projectDir overlay.projectDir settings.projectDir
  exportDir : FallsBack id (defaults workspace).exportDir overlay.exportDir settings.exportDir
  ffmpegPath : FallsBack some (defaults workspace).ffmpegPath overlay.ffmpegPath settings.ffmpegPath

theorem fallsBack_getD (default : String) (said : Option String) :
    FallsBack id default said ((Overlay.given? said).getD default) := by
  cases said with
  | none => exact .nothing
  | some path =>
      by_cases blank : path = ""
      · subst blank
        exact .blank
      · have kept : Overlay.given? (some path) = some path := by
          simp [Overlay.given?, Option.filter, blank]
        rw [kept]
        exact .said blank

theorem fallsBack_orElse (default said : Option String) :
    FallsBack some default said (Overlay.given? said <|> default) := by
  cases said with
  | none => cases default <;> exact .nothing
  | some path =>
      by_cases blank : path = ""
      · subst blank
        cases default <;> exact .blank
      · have kept : Overlay.given? (some path) = some path := by
          simp [Overlay.given?, Option.filter, blank]
        rw [kept]
        exact .said blank

theorem overlaid_apply (workspace : String) (overlay : Overlay) :
    Overlaid workspace overlay (overlay.apply (defaults workspace)) where
  projectDir := fallsBack_getD _ _
  exportDir := fallsBack_getD _ _
  ffmpegPath := fallsBack_orElse _ _

theorem overlaid_ofText (isOverlay : IsOverlay text overlay) :
    Overlaid workspace overlay (ofText workspace text) := by
  rw [ofText, isOverlay_iff.mp isOverlay]
  exact overlaid_apply workspace overlay

theorem ofText_of_not_overlay (noOverlay : ∀ overlay, ¬ IsOverlay text overlay) :
    ofText workspace text = defaults workspace := by
  cases read : (Json.read? text).bind Overlay.ofJson? with
  | none => rw [ofText, read]
  | some overlay => exact absurd (isOverlay_iff.mpr read) (noOverlay overlay)

/-! ## Written settings -/

/-- The overlay that written settings are read as. -/
def toOverlay (settings : Settings) : Overlay :=
  ⟨some settings.projectDir, some settings.exportDir, settings.ffmpegPath⟩

theorem isOverlay_indented (settings : Settings) :
    IsOverlay settings.toJson.indented settings.toOverlay := by
  have found : settings.toJson.slots? fieldNames =
      some (settings.fields.map fun field => Slot.ofOption field.2) := by
    rw [toJson_eq]
    exact Json.slots?_written rfl (by decide)
  have ffmpegPath : Tells (Slot.ofOption (settings.ffmpegPath.map Json.ofText)) settings.ffmpegPath := by
    cases settings.ffmpegPath with
    | none => exact .missing
    | some path => exact .text path
  exact ⟨_, _, _, _, Json.read?_indented settings.isWritten_toJson, found, .text _, .text _,
    ffmpegPath⟩

/-- Settings that say as much when they are written: no path is empty, unless it is the default. -/
structure IsKept (workspace : String) (settings : Settings) : Prop where
  projectDir : settings.projectDir = "" → settings.projectDir = (defaults workspace).projectDir
  exportDir : settings.exportDir = "" → settings.exportDir = (defaults workspace).exportDir
  ffmpegPath : settings.ffmpegPath ≠ some ""

/-- None of the paths is empty. -/
structure IsFilled (settings : Settings) : Prop where
  projectDir : settings.projectDir ≠ ""
  exportDir : settings.exportDir ≠ ""
  ffmpegPath : settings.ffmpegPath ≠ some ""

theorem IsFilled.isKept (filled : settings.IsFilled) (workspace : String) :
    settings.IsKept workspace :=
  ⟨fun blank => absurd blank filled.projectDir, fun blank => absurd blank filled.exportDir,
    filled.ffmpegPath⟩

theorem isKept_defaults (workspace : String) : (defaults workspace).IsKept workspace :=
  ⟨fun _ => rfl, fun _ => rfl, by simp [defaults]⟩

theorem FallsBack.eq {β : Type} {wrap : String → β} {default value : β} {path : String}
    (fallsBack : FallsBack wrap default (some path) value) (kept : path = "" → wrap path = default) :
    value = wrap path := by
  cases fallsBack with
  | said _ => rfl
  | blank => exact (kept rfl).symm

/-- Written settings are read back. -/
theorem ofText_indented (kept : IsKept workspace settings) :
    ofText workspace settings.toJson.indented = settings := by
  have overlaid : Overlaid workspace settings.toOverlay
      (ofText workspace settings.toJson.indented) :=
    overlaid_ofText (isOverlay_indented settings)
  obtain ⟨projectDir, exportDir, ffmpegPath⟩ := overlaid
  generalize ofText workspace settings.toJson.indented = again at *
  obtain ⟨first, second, third⟩ := again
  obtain ⟨projects, exports, ffmpeg⟩ := settings
  obtain rfl : first = projects := projectDir.eq kept.projectDir
  obtain rfl : second = exports := exportDir.eq kept.exportDir
  have same : third = ffmpeg := by
    cases ffmpeg with
    | none =>
        cases ffmpegPath
        rfl
    | some path =>
        exact ffmpegPath.eq fun blank => absurd (congrArg some blank) kept.ffmpegPath
  rw [same]

end Montage.Settings
