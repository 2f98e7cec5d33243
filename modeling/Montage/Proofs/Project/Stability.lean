import Montage.Project.Settings
import Montage.Proofs.Project.ReadRecords

/-!
Contract: the JSON form of the records is stable.

A record that was written is read back as it was, in either layout and at any
later time. Whatever text a record was first read from, with its keys in any
order, unknown keys, defaults or as an array, writing it puts it into a form
that further reading and writing leave alone.

Owns: the forms of the five records and `records_stable`.
Does not own: which number a literal stands for; that the numbers of a record
are read back is a condition on each of them.
-/

namespace Montage

open Montage.Media
open Montage.Json (Slot ReadsOnly IsKept memberIfSome written)

/-! ## Forms -/

/-- A kind of record and how it is written and read. Reading may ask for the time. -/
structure RecordForm (β : Type) where
  toJson : β → Json
  ofJson? : Instant → Json → Option β
  /-- Whether the fields of the program can hold a value. -/
  Fits : β → Prop
  numbers : β → List Float

namespace RecordForm

variable {β : Type}

def layouts : List (Json → String) := [Json.compact, Json.indented]

def write (form : RecordForm β) (layout : Json → String) (value : β) : String :=
  layout (form.toJson value)

def read? (form : RecordForm β) (now : Instant) (text : String) : Option β :=
  (Json.read? text).bind (form.ofJson? now)

/-- The finite numbers of a value are read back from their literals. -/
def KeepsNumbers (form : RecordForm β) (value : β) : Prop :=
  ∀ x ∈ form.numbers value, x.isFinite = true → IsKept x

structure Stable (form : RecordForm β) : Prop where
  /-- A value with finite numbers is read back as it was written. -/
  readBack : ∀ value, form.Fits value → (∀ x ∈ form.numbers value, x.isFinite = true) →
    form.KeepsNumbers value → ∀ layout ∈ layouts, ∀ now,
      form.read? now (form.write layout value) = some value
  /-- What was read of any text is read again from its written text, which is written again. -/
  normalised : ∀ now text value, now.isValid = true → form.read? now text = some value →
    form.KeepsNumbers value → ∀ layout ∈ layouts, ∀ later,
      form.read? later (form.write layout value) = some value ∧
        (form.read? later (form.write layout value)).map (form.write layout) =
          some (form.write layout value)

/-- A form is stable when its values are read back and only values that fit are read. -/
theorem stable_of {form : RecordForm β} (isWritten : ∀ value, (form.toJson value).IsWritten)
    (back : ∀ value now, form.Fits value → (∀ x ∈ form.numbers value, IsKept x) →
      form.ofJson? now (form.toJson value) = some value)
    (only : ∀ now, now.isValid = true → ReadsOnly (form.ofJson? now) fun value =>
      form.Fits value ∧ ∀ x ∈ form.numbers value, x.isFinite = true) : form.Stable := by
  have readBack : ∀ value, form.Fits value → (∀ x ∈ form.numbers value, x.isFinite = true) →
      form.KeepsNumbers value → ∀ layout ∈ layouts, ∀ now,
        form.read? now (form.write layout value) = some value := by
    intro value fits finite keeps layout isLayout now
    have parsed : Json.read? (form.write layout value) = some (form.toJson value) := by
      rcases List.mem_pair.mp isLayout with rfl | rfl
      · exact Json.read?_compact (isWritten value)
      · exact Json.read?_indented (isWritten value)
    rw [read?, parsed, Option.bind_some]
    exact back value now fits fun x member => keeps x member (finite x member)
  refine ⟨readBack, ?_⟩
  intro now text value valid read keeps layout isLayout later
  obtain ⟨v, -, ofValue⟩ := Option.bind_eq_some_iff.mp read
  obtain ⟨fits, finite⟩ := only now valid v value ofValue
  have again := readBack value fits finite keeps layout isLayout later
  refine ⟨again, ?_⟩
  rw [again, Option.map_some]

end RecordForm

/-! ## Settings -/

namespace Settings

variable {settings : Settings}

def fields (settings : Settings) : List (String × Option Json) :=
  [("projectDir", some (Json.ofText settings.projectDir)),
    ("exportDir", some (Json.ofText settings.exportDir)),
    ("ffmpegPath", settings.ffmpegPath.map Json.ofText)]

theorem toJson_eq (settings : Settings) : settings.toJson = .object (written settings.fields) := by
  simp [toJson, fields, memberIfSome]

theorem isWritten_toJson (settings : Settings) : settings.toJson.IsWritten := by
  rw [toJson_eq]
  apply Json.isWritten_written
  simp [fields, Json.isWritten_ofText]

theorem ofJson?_toJson (settings : Settings) : ofJson? settings.toJson = some settings := by
  have found : settings.toJson.slots? fieldNames =
      some (settings.fields.map fun field => Slot.ofOption field.2) := by
    rw [toJson_eq]
    exact Json.slots?_written rfl (by decide)
  have path : (Slot.ofOption (settings.ffmpegPath.map Json.ofText)).withDefault none
      (Json.nullable Json.text?) = some settings.ffmpegPath := by
    cases settings.ffmpegPath <;> rfl
  rw [ofJson?, found, Option.bind_some]
  simp [fields, ofSlots?, path]

end Settings

/-! ## The records -/

namespace RecordForm

def clip : RecordForm (Clip Float) where
  toJson := Clip.toJson
  ofJson? _ := Clip.ofJson?
  Fits := Clip.Fits
  numbers := Clip.numbers

def asset : RecordForm (Asset Float) where
  toJson := Asset.toJson
  ofJson? _ := Asset.ofJson?
  Fits := Asset.Fits
  numbers asset := [asset.duration]

def timeline : RecordForm (Timeline Float) where
  toJson := Timeline.toJson
  ofJson? _ := Timeline.ofJson?
  Fits := Timeline.Fits
  numbers := Timeline.numbers

def project : RecordForm Project where
  toJson := Project.toJson
  ofJson? := Project.ofJson?
  Fits := Project.Fits
  numbers := Project.numbers

def settings : RecordForm Settings where
  toJson := Settings.toJson
  ofJson? _ := Settings.ofJson?
  Fits _ := True
  numbers _ := []

theorem clip_stable : clip.Stable :=
  stable_of Clip.isWritten_toJson
    (fun _ _ fits kept => Clip.ofJson?_toJson (Clip.isStored_of_fits fits kept))
    (fun _ _ => Clip.readsOnly)

theorem asset_stable : asset.Stable := by
  refine stable_of Asset.isWritten_toJson ?_ ?_
  · intro value _ fits kept
    exact Asset.ofJson?_toJson (Asset.isStored_of_fits fits (kept _ List.mem_cons_self))
  · intro _ _ v value read
    obtain ⟨fits, finite⟩ := Asset.readsOnly v value read
    exact ⟨fits, List.forall_mem_singleton.mpr finite⟩

theorem timeline_stable : timeline.Stable :=
  stable_of Timeline.isWritten_toJson
    (fun _ _ fits kept => Timeline.ofJson?_toJson (Timeline.isStored_of_fits fits kept))
    (fun _ _ => Timeline.readsOnly)

theorem project_stable : project.Stable :=
  stable_of Project.isWritten_toJson
    (fun _ now fits kept => Project.ofJson?_toJson (Project.isStored_of_fits fits kept) now)
    (fun _ valid => Project.readsOnly valid)

theorem settings_stable : settings.Stable :=
  stable_of Settings.isWritten_toJson (fun value _ _ _ => Settings.ofJson?_toJson value)
    (fun _ _ _ _ _ => ⟨trivial, by simp [settings]⟩)

end RecordForm

/-- Every record is read back as it was written, and one reading and writing settles its text. -/
theorem records_stable : RecordForm.clip.Stable ∧ RecordForm.asset.Stable ∧
    RecordForm.timeline.Stable ∧ RecordForm.project.Stable ∧ RecordForm.settings.Stable :=
  ⟨RecordForm.clip_stable, RecordForm.asset_stable, RecordForm.timeline_stable,
    RecordForm.project_stable, RecordForm.settings_stable⟩

/-! A project without a date whose members are out of order, with a key nobody knows, a whole number
for an offset, an escape in a name and a clip that is an array. -/

def roughText : String :=
  "\x7b\"tracks\":2,\"clips\":[\x7b\"offset\":3,\"fileId\":\"a\\u0062\"\x7d,[\"c\",0.5,null,2]],\n" ++
    " \"lens\":[null],\"name\":\"Cut \\\"7\\\"\",\"format\":\"mp3\",\"version\":1\x7d"

def rough : Project where
  version := 1
  name := "Cut \"7\""
  savedAt := .epoch
  files := []
  timeline :=
    { clips := [⟨⟨"ab"⟩, 3.0, none, none, 1.0, 100.0, 0⟩, ⟨⟨"c"⟩, 0.5, none, some 2.0, 1.0, 100.0, 0⟩]
      duration := none
      format := .mp3 }
  tracks := 2

theorem rough_settles : RecordForm.project.read? .epoch roughText = some rough ∧
    ∀ layout ∈ RecordForm.layouts, ∀ later,
      RecordForm.project.read? later (RecordForm.project.write layout rough) = some rough ∧
        (RecordForm.project.read? later (RecordForm.project.write layout rough)).map
            (RecordForm.project.write layout) = some (RecordForm.project.write layout rough) := by
  have read : RecordForm.project.read? .epoch roughText = some rough := by decide +kernel
  have keeps : ∀ x ∈ rough.numbers, x.isFinite = true → IsKept x := by decide +kernel
  exact ⟨read, records_stable.2.2.2.1.normalised .epoch roughText rough (by decide) read keeps⟩

end Montage
