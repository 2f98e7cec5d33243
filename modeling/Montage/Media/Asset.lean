import Montage.Media.Sha256
import Montage.Number.Seconds

/-!
Contract: media files as the catalog knows them.

Owns: the identifier of a file, derived from its storage path, and the facts
recorded about it.
-/

namespace Montage.Media

/-- Identifies a file by a short fingerprint of its storage path. -/
structure FileId where
  text : String
deriving DecidableEq, Repr

namespace FileId

def length : Nat := 12

/-- The first characters of the SHA-256 digest of the path text. -/
def ofPath (path : String) : FileId :=
  ⟨String.ofList ((Sha256.hexDigest path.toUTF8.toList).take length)⟩

end FileId

structure Asset (α : Type) where
  id : FileId
  path : String
  /-- Shown to users; the last component of the path. -/
  name : String
  duration : α
  hasVideo : Bool
  hasAudio : Bool
  width : Nat
  height : Nat
deriving DecidableEq, Repr

namespace Asset

/-- True when there is a picture with a size. -/
def hasDimensions {α : Type} (asset : Asset α) : Bool :=
  asset.hasVideo && 0 < asset.width && 0 < asset.height

end Asset

end Montage.Media
