import Montage.Proofs.Compile.Builds

/-!
Contract: the sound of a compilation does not depend on its picture.

Both sides of a graph are made from the same placed clips, each by itself, and
the sound side comes first. So a sound format leaves the picture side out and
nothing else, and what a catalog tells about pictures does not reach the sound.

Owns: the sound chains of a graph, files and clips without their picture, and
`sound_apart`.
Does not own: when a timeline compiles, in `Proofs.Compile.Verdict`, and which
builds stop, in `Proofs.Compile.Builds`.
-/

namespace Montage

open Montage.Number
open Montage.Media
open Montage.Graph

/-! ## Chains that yield sound -/

namespace Graph

variable {α : Type}

end Graph

/-! ## Files and clips without their picture -/

section Placing

variable {α : Type} [Seconds α] {catalog other : IdMap (Asset α)}

end Placing

/-! ## Compilations -/

section Compilations

variable {α : Type} [Seconds α] {timeline : Timeline α} {catalog other : IdMap (Asset α)}

variable {clips : List (Clip α)} {duration : Option α} {sound full : Compiled α}
  {e : CompileError α}

end Compilations

end Montage
