import Montage.Compile.Basic

/-!
Contract: compiling looks at no file that no clip uses.

A catalog is asked for the ids of clips only, so two catalogs that answer alike
for these compile a timeline to the same graph, or refuse it for the same reason.
-/

namespace Montage

open Montage.Number
open Montage.Media

variable {α : Type} [Seconds α] {catalog other : IdMap (Asset α)}

theorem placeFrom_congr {clips : List (Clip α)}
    (alike : ∀ clip ∈ clips, IdMap.get? clip.fileId catalog = IdMap.get? clip.fileId other)
    (index : Nat) (used : List (FileId × String)) :
    placeFrom catalog index used clips = placeFrom other index used clips := by
  induction clips generalizing index used with
  | nil => rfl
  | cons clip rest inductionHypothesis =>
      have behind := inductionHypothesis fun later member =>
        alike later (List.mem_cons_of_mem clip member)
      simp only [placeFrom, alike clip List.mem_cons_self, behind]

theorem placeClips_congr {clips : List (Clip α)}
    (alike : ∀ clip ∈ clips, IdMap.get? clip.fileId catalog = IdMap.get? clip.fileId other) :
    placeClips catalog clips = placeClips other clips := by
  rw [placeClips, placeClips, placeFrom_congr alike]

/-- Catalogs that answer alike for the ids of clips compile a timeline alike. -/
theorem compile_congr {timeline : Timeline α} (alike : ∀ clip ∈ timeline.clips,
    IdMap.get? clip.fileId catalog = IdMap.get? clip.fileId other) :
    compile timeline catalog = compile timeline other := by
  rw [compile, compile, placeClips_congr alike]

end Montage
