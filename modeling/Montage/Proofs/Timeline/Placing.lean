import Montage.Proofs.Timeline.ValidClip

/-!
Contract: what placing all clips of a timeline returns.

Owns: how a clip is resolved against its file, that clips come back in order and
valid, and that files are listed once each in the order of their first use.
Does not own: what a valid clip is, in `Proofs.Timeline.ValidClip`.
-/

namespace Montage

open Montage.Number
open Montage.Media

/-! ## Files met on the way -/

section Files

/-- Where a file stands among those met so far; behind the last one when it is new. -/
def inputOf (id : FileId) (used : List (FileId × String)) : Nat :=
  used.findIdx fun file => file.1 == id

/-- The files met after one more use. -/
def noteFile (id : FileId) (path : String) (used : List (FileId × String)) :
    List (FileId × String) :=
  if inputOf id used < used.length then used else used ++ [(id, path)]

variable {id : FileId} {path : String} {used : List (FileId × String)}

theorem inputOf_lt_iff : inputOf id used < used.length ↔ id ∈ used.map Prod.fst := by
  simp only [inputOf, List.findIdx_lt_length, List.mem_map, beq_iff_eq]

theorem inputOf_eq_length (unmet : ¬ inputOf id used < used.length) :
    inputOf id used = used.length :=
  Nat.le_antisymm List.findIdx_le_length (Nat.le_of_not_lt unmet)

theorem prefix_noteFile : used <+: noteFile id path used := by
  unfold noteFile
  split
  · exact List.prefix_refl used
  · exact List.prefix_append used [(id, path)]

theorem noteFile_ids {met : List FileId} (listed : used.map Prod.fst = met.eraseDups) :
    (noteFile id path used).map Prod.fst = (met ++ [id]).eraseDups := by
  have member : id ∈ used.map Prod.fst ↔ id ∈ met := by
    rw [listed]
    exact List.mem_eraseDups
  rw [List.eraseDups_append, ← listed]
  unfold noteFile
  by_cases seen : id ∈ met
  · rw [if_pos (inputOf_lt_iff.mpr (member.mpr seen))]
    simp [List.removeAll, seen]
  · rw [if_neg (fun met => seen (member.mp (inputOf_lt_iff.mp met)))]
    have kept : [id].removeAll met = [id] := by simp [List.removeAll, seen]
    rw [List.map_append, kept]
    rfl

variable {α : Type}

def FilesKnown (catalog : IdMap (Asset α)) (used : List (FileId × String)) : Prop :=
  ∀ file ∈ used, ∃ asset, IdMap.get? file.1 catalog = some asset ∧ asset.path = file.2

variable {catalog : IdMap (Asset α)} {asset : Asset α}

theorem FilesKnown.noteFile (known : FilesKnown catalog used)
    (found : IdMap.get? id catalog = some asset) :
    FilesKnown catalog (noteFile id asset.path used) := by
  intro file member
  unfold Montage.noteFile at member
  split at member
  · exact known file member
  · rcases List.mem_append.mp member with old | new
    · exact known file old
    · rw [List.mem_singleton] at new
      subst new
      exact ⟨asset, found, rfl⟩

/-- The file of a use stands where `inputOf` says. -/
theorem FilesKnown.getElem?_noteFile (known : FilesKnown catalog used)
    (found : IdMap.get? id catalog = some asset) :
    (Montage.noteFile id asset.path used)[inputOf id used]? = some (id, asset.path) := by
  unfold Montage.noteFile
  by_cases met : inputOf id used < used.length
  · rw [if_pos met, List.getElem?_eq_getElem met]
    have sameId : (used[inputOf id used]).1 = id := by
      have holds := List.findIdx_getElem (p := fun file : FileId × String => file.1 == id) (w := met)
      exact beq_iff_eq.mp holds
    obtain ⟨listed, lookedUp, samePath⟩ := known _ (List.getElem_mem met)
    rw [sameId, found, Option.some.injEq] at lookedUp
    rw [lookedUp, samePath, Option.some.injEq]
    exact Prod.ext sameId rfl
  · rw [if_neg met, inputOf_eq_length met]
    simp

end Files

/-! ## Clips -/

section Clips

variable {α : Type} [Seconds α] {catalog : IdMap (Asset α)}

/-- The placed form of a faultless clip, its file found in the catalog and among the inputs. -/
def Clip.ResolvesTo (catalog : IdMap (Asset α)) (files : List (FileId × String)) (clip : Clip α)
    (index : Nat) (placed : PlacedClip α) : Prop :=
  ∃ asset input, IdMap.get? clip.fileId catalog = some asset ∧ clip.fault? asset = none ∧
    files[input]? = some (clip.fileId, asset.path) ∧ placed = clip.placed asset index input

/-- Placed clips that match the clips of a timeline one to one, counted from `index` on. -/
inductive Resolved (catalog : IdMap (Asset α)) (files : List (FileId × String)) :
    Nat → List (Clip α) → List (PlacedClip α) → Prop where
  | nil (index : Nat) : Resolved catalog files index [] []
  | cons {index : Nat} {clip : Clip α} {clips : List (Clip α)} {first : PlacedClip α}
      {others : List (PlacedClip α)}
      (head : clip.ResolvesTo catalog files index first)
      (rest : Resolved catalog files (index + 1) clips others) :
      Resolved catalog files index (clip :: clips) (first :: others)

/-- Placing succeeds on a clip and those behind it exactly when the file is known, the clip has no
fault and the rest is placed. -/
theorem placeFrom_cons_eq_ok {index : Nat} {used files : List (FileId × String)} {clip : Clip α}
    {rest : List (Clip α)} {placed : List (PlacedClip α)} :
    placeFrom catalog index used (clip :: rest) = .ok (placed, files) ↔
      ∃ asset others, IdMap.get? clip.fileId catalog = some asset ∧ clip.fault? asset = none ∧
        placeFrom catalog (index + 1) (noteFile clip.fileId asset.path used) rest =
          .ok (others, files) ∧
        placed = clip.placed asset index (inputOf clip.fileId used) :: others := by
  rw [placeFrom]
  unfold Clip.place noteFile inputOf
  cases found : IdMap.get? clip.fileId catalog with
  | none => simp
  | some asset =>
      cases faults : clip.fault? asset with
      | some fault => simp [faults]
      | none =>
          simp only [Option.some.injEq, exists_and_left, exists_eq_left', faults, true_and]
          split
          · next e refused => simp [refused]
          · next others noted accepted =>
              simp only [accepted, Except.ok.injEq, Prod.mk.injEq]
              constructor
              · rintro ⟨rfl, rfl⟩
                exact ⟨others, ⟨rfl, rfl⟩, rfl⟩
              · rintro ⟨_, ⟨rfl, rfl⟩, rfl⟩
                exact ⟨rfl, rfl⟩

theorem placeFrom_prefix {index : Nat} {used files : List (FileId × String)}
    {clips : List (Clip α)} {placed : List (PlacedClip α)}
    (accepted : placeFrom catalog index used clips = .ok (placed, files)) : used <+: files := by
  induction clips generalizing index used placed with
  | nil =>
      cases accepted
      exact List.prefix_refl _
  | cons clip rest inductionHypothesis =>
      obtain ⟨asset, others, _, _, placedRest, _⟩ := placeFrom_cons_eq_ok.mp accepted
      exact prefix_noteFile.trans (inductionHypothesis placedRest)

/-- Files come back once each, in the order in which clips first use them. -/
theorem placeFrom_ids {index : Nat} {used files : List (FileId × String)} {met : List FileId}
    {clips : List (Clip α)} {placed : List (PlacedClip α)}
    (accepted : placeFrom catalog index used clips = .ok (placed, files))
    (listed : used.map Prod.fst = met.eraseDups) :
    files.map Prod.fst = (met ++ clips.map (·.fileId)).eraseDups := by
  induction clips generalizing index used met placed with
  | nil =>
      cases accepted
      simpa using listed
  | cons clip rest inductionHypothesis =>
      obtain ⟨asset, others, _, _, placedRest, _⟩ := placeFrom_cons_eq_ok.mp accepted
      have restIds := inductionHypothesis placedRest (noteFile_ids listed)
      rw [restIds, List.append_assoc]
      rfl

theorem placeFrom_resolved {index : Nat} {used files : List (FileId × String)}
    {clips : List (Clip α)} {placed : List (PlacedClip α)}
    (accepted : placeFrom catalog index used clips = .ok (placed, files))
    (known : FilesKnown catalog used) : Resolved catalog files index clips placed := by
  induction clips generalizing index used placed with
  | nil =>
      cases accepted
      exact .nil index
  | cons clip rest inductionHypothesis =>
      obtain ⟨asset, others, found, faultless, placedRest, rfl⟩ := placeFrom_cons_eq_ok.mp accepted
      refine .cons ?_ (inductionHypothesis placedRest (known.noteFile found))
      -- The file was noted at its place, and later clips only append files.
      have noted := known.getElem?_noteFile found
      obtain ⟨later, rfl⟩ := placeFrom_prefix placedRest
      obtain ⟨inRange, _⟩ := List.getElem?_eq_some_iff.mp noted
      refine ⟨asset, _, found, faultless, ?_, rfl⟩
      rw [List.getElem?_append_left inRange]
      exact noted

theorem placeFrom_known {index : Nat} {used files : List (FileId × String)}
    {clips : List (Clip α)} {placed : List (PlacedClip α)}
    (accepted : placeFrom catalog index used clips = .ok (placed, files))
    (known : FilesKnown catalog used) : FilesKnown catalog files := by
  induction clips generalizing index used placed with
  | nil =>
      cases accepted
      exact known
  | cons clip rest inductionHypothesis =>
      obtain ⟨asset, others, found, _, placedRest, _⟩ := placeFrom_cons_eq_ok.mp accepted
      exact inductionHypothesis placedRest (known.noteFile found)

/-- What a successful placing of a timeline's clips returns. -/
theorem placeClips_eq_ok {files : List (FileId × String)} {clips : List (Clip α)}
    {placed : List (PlacedClip α)} (accepted : placeClips catalog clips = .ok (placed, files)) :
    clips ≠ [] ∧ files.map Prod.fst = (clips.map (·.fileId)).eraseDups ∧
      Resolved catalog files 0 clips placed := by
  unfold placeClips at accepted
  split at accepted
  · cases accepted
  · next nonempty =>
      have noneMet : ([] : List (FileId × String)).map Prod.fst = ([] : List FileId).eraseDups := rfl
      refine ⟨by simpa using nonempty, ?_, ?_⟩
      · exact placeFrom_ids accepted noneMet
      · exact placeFrom_resolved accepted (fun _ member => absurd member List.not_mem_nil)

/-- Files come back with the paths the catalog has for them. -/
theorem placeClips_known {files : List (FileId × String)} {clips : List (Clip α)}
    {placed : List (PlacedClip α)} (accepted : placeClips catalog clips = .ok (placed, files)) :
    FilesKnown catalog files := by
  unfold placeClips at accepted
  split at accepted
  · cases accepted
  · exact placeFrom_known accepted (fun _ member => absurd member List.not_mem_nil)

namespace Resolved

variable {files : List (FileId × String)} {index : Nat} {clips : List (Clip α)}
  {placed : List (PlacedClip α)}

theorem indices (resolved : Resolved catalog files index clips placed) :
    placed.map (·.index) = List.range' index clips.length := by
  induction resolved with
  | nil index => rfl
  | cons head rest inductionHypothesis =>
      obtain ⟨asset, input, _, _, _, rfl⟩ := head
      rw [List.map_cons, inductionHypothesis, List.length_cons, List.range'_succ]
      rfl

theorem indices_nodup (resolved : Resolved catalog files index clips placed) :
    (placed.map (·.index)).Nodup := by
  rw [resolved.indices]
  exact List.nodup_range'

/-- The clip at a position of the timeline is placed under that position. -/
theorem exists_placed (resolved : Resolved catalog files index clips placed) {position : Nat}
    {clip : Clip α} (listed : clips[position]? = some clip) :
    ∃ placedClip ∈ placed, clip.ResolvesTo catalog files (index + position) placedClip := by
  induction resolved generalizing position with
  | nil => cases listed
  | @cons index first clips firstPlaced others head rest inductionHypothesis =>
      cases position with
      | zero =>
          cases listed
          exact ⟨firstPlaced, List.mem_cons_self, head⟩
      | succ position =>
          obtain ⟨placedClip, member, resolves⟩ := inductionHypothesis listed
          have samePosition : index + 1 + position = index + (position + 1) := by omega
          rw [samePosition] at resolves
          exact ⟨placedClip, List.mem_cons_of_mem firstPlaced member, resolves⟩

/-- Every placed clip comes from a clip of the timeline. -/
theorem exists_of_mem (resolved : Resolved catalog files index clips placed)
    {placedClip : PlacedClip α} (member : placedClip ∈ placed) :
    ∃ clip ∈ clips, ∃ position : Nat, clip.ResolvesTo catalog files position placedClip := by
  induction resolved with
  | nil => cases member
  | cons head rest inductionHypothesis =>
      rcases List.mem_cons.mp member with rfl | inRest
      · exact ⟨_, List.mem_cons_self, _, head⟩
      · obtain ⟨clip, listed, resolves⟩ := inductionHypothesis inRest
        exact ⟨clip, List.mem_cons_of_mem _ listed, resolves⟩

/-- Only valid clips are placed. -/
theorem valid_of_mem (resolved : Resolved catalog files index clips placed)
    {placedClip : PlacedClip α} (member : placedClip ∈ placed) : placedClip.Valid := by
  obtain ⟨clip, _, position, asset, input, _, faultless, _, rfl⟩ := resolved.exists_of_mem member
  exact Clip.valid_of_faultless faultless position input

end Resolved

end Clips

end Montage
