import Montage.Media.IdMap
import Montage.Media.Probe

/-!
Contract: the catalog of probed files, one record per file.

A file is known by its storage path. Taking it in once more brings its record
up to date, and a failure on the way changes nothing.

Owns: inserting, removing and taking in files.
-/

namespace Montage.Media

open Montage.Number

/-- Probed files under their own ids. -/
abbrev Catalog (α : Type) := IdMap (Asset α)

/-- A length to the millisecond. -/
def toMilliseconds {α : Type} [Seconds α] (duration : α) : α :=
  Seconds.round (duration * 1000.0) / 1000.0

/-- The record of a probed file; without a last component the whole path is its name. -/
def Asset.ofProbe {α : Type} [Seconds α] (path : String) (probed : Probed α) : Asset α where
  id := FileId.ofPath path
  path := path
  name := (Files.Path.fileName? path).getD path
  duration := toMilliseconds probed.duration
  hasVideo := probed.hasVideo
  hasAudio := probed.hasAudio
  width := probed.width
  height := probed.height

namespace Catalog

variable {α : Type}

def empty : Catalog α := []

def insert (asset : Asset α) (catalog : Catalog α) : Catalog α :=
  IdMap.put asset.id asset catalog

def ofAssets (assets : List (Asset α)) : Catalog α :=
  assets.foldl (fun catalog asset => insert asset catalog) empty

def assets (catalog : Catalog α) : List (Asset α) := List.map Prod.snd catalog

/-- Probes a file where it is stored and records the answer. -/
def ingest [Seconds α] {m : Type → Type} [Monad m] (storage : String → ExceptT Error m String)
    (probe : String → ExceptT Error m (Probed α)) (catalog : Catalog α) (path : String) :
    ExceptT Error m (Asset α × Catalog α) := do
  let stored ← storage path
  let probed ← probe stored
  let asset := Asset.ofProbe stored probed
  pure (asset, insert asset catalog)

def ingestAll [Seconds α] {m : Type → Type} [Monad m] (storage : String → ExceptT Error m String)
    (probe : String → ExceptT Error m (Probed α)) (catalog : Catalog α) :
    List String → ExceptT Error m (List (Asset α) × Catalog α)
  | [] => pure ([], catalog)
  | path :: rest => do
    let (asset, grown) ← ingest storage probe catalog path
    let (others, final) ← ingestAll storage probe grown rest
    pure (asset :: others, final)

end Catalog

end Montage.Media
