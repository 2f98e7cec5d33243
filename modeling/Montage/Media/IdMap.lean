import Montage.Media.Asset

/-!
Contract: values kept under file ids, in increasing order of the ids.

Owns: look-up, replacement and removal on a list of pairs.
-/

namespace Montage.Media

/-- Pairs in strictly increasing order of their ids. -/
abbrev IdMap (β : Type) := List (FileId × β)

namespace IdMap

variable {β : Type}

def get? (id : FileId) (entries : IdMap β) : Option β :=
  (List.find? (fun entry => entry.1 == id) entries).map Prod.snd

def contains (id : FileId) (entries : IdMap β) : Bool :=
  (get? id entries).isSome

def put (id : FileId) (value : β) : IdMap β → IdMap β
  | [] => [(id, value)]
  | entry :: rest =>
    if id.text < entry.1.text then (id, value) :: entry :: rest
    else if entry.1 = id then (id, value) :: rest
    else entry :: put id value rest

def erase (id : FileId) (entries : IdMap β) : IdMap β :=
  List.filter (fun entry => entry.1 != id) entries

/-- Stores pairs in turn; a later pair replaces an earlier one under the same id. -/
def ofList (pairs : List (FileId × β)) : IdMap β :=
  pairs.foldl (fun entries pair => put pair.1 pair.2 entries) []

end IdMap

end Montage.Media
