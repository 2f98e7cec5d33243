import Montage.Proofs.Compile.Builds
import Montage.Proofs.Media.Milliseconds

/-!
Contract: files laid end to end compile when all of them have a length.

Every clip is a whole file, so its numbers are in order as soon as the file is
not empty. The places of the clips are sums of lengths. However many there are,
the sums stop growing where a length is less than half a unit in the last place,
so they stay finite.

Owns: the places of clips laid end to end, and when such a timeline compiles in a
build.
Does not own: where the lengths come from, in `Proofs.Media.Milliseconds`.
-/

namespace Montage

open Montage.Number
open Montage.Number.Binary64
open Montage.Media

/-! ## Places -/

/-- A place that sums of lengths can reach. -/
structure IsPlace (x : Float) : Prop where
  decoded : ∃ m e, ofFloat x = .finite false m e
  le : (ofFloat x).value ≤ 2 ^ 84

theorem isPlace_zero : IsPlace 0.0 where
  decoded := ⟨0, leastExponent, ofFloat_zero⟩
  le := by
    rw [value_ofFloat_zero]
    norm_num

/-- At the highest place a length no longer counts. -/
theorem IsPlace.add {place length : Float} (isPlace : IsPlace place) (isShort : IsShort length) :
    IsPlace (place + length) := by
  obtain ⟨⟨m₁, e₁, first⟩, low⟩ := isPlace
  obtain ⟨⟨m₂, e₂, second⟩, short⟩ := isShort
  have top : Canonical (2 ^ 52) 32 := canonical_full (by decide)
  have topValue : ((2 ^ 52 : Nat) : Rat) * 2 ^ (32 : Int) = 2 ^ 84 := by norm_num
  have twice : Representable (2 ^ 85) := ⟨2 ^ 52, 33, canonical_full (by decide), by decide, by norm_num⟩
  have sum := rounds_add first second twice (by
    norm_num at low short ⊢
    linarith)
  refine ⟨sum.decoded, ?_⟩
  rw [← topValue] at low ⊢
  refine value_add_le_of_half first second top le_rfl (by decide) low ?_ ?_
  · norm_num at short ⊢
    linarith
  · norm_num at low short ⊢
    linarith

/-! ## Whole files -/

section Whole

variable {asset : Asset Float} {place : Float}

theorem Media.IsShort.not_beyond {length : Float} (isShort : IsShort length) :
    ¬ length + trimTolerance < length := by
  obtain ⟨⟨m, e, decoded⟩, short⟩ := isShort
  have tolerance : ofFloat trimTolerance = .finite false 4611686018427388 (-62) := by decide
  have value := value_of_decoded tolerance
  have sum := rounds_add decoded tolerance (representable_tenTo 10 (by decide)) (by
    norm_num at value short ⊢
    linarith)
  have above := sum.ge _ (representable_value decoded) (by
    norm_num at value ⊢
    linarith)
  rw [lt_iff_value_lt (isFinite_iff.mp sum.isFinite) (by rw [decoded]; rfl)]
  exact not_lt.mpr above

theorem not_lt_zero {x : Float} {m : Nat} {e : Int} (decoded : ofFloat x = .finite false m e) :
    ¬ x < (0.0 : Float) := by
  have nonneg : (0 : Rat) ≤ m * 2 ^ e := by positivity
  rw [lt_iff_value_lt (by rw [decoded]; rfl) (by decide), value_ofFloat_zero,
    value_of_decoded decoded]
  exact not_lt.mpr nonneg

/-- A clip of a whole file has its numbers in order unless the file is empty. -/
theorem Clip.whole_isFaulty_iff (isPlace : IsPlace place) (isShort : IsShort asset.duration) :
    (Clip.whole asset place).IsFaulty asset ↔ ¬ 0 < (ofFloat asset.duration).value := by
  obtain ⟨m, e, decoded⟩ := isShort.decoded
  obtain ⟨m', e', placed⟩ := isPlace.decoded
  have trimOrder : asset.duration ≤ (0.0 : Float) ↔ ¬ 0 < (ofFloat asset.duration).value := by
    rw [le_iff_value_le (by rw [decoded]; rfl) (by decide), value_ofFloat_zero, not_lt]
  constructor
  · intro faulty
    cases faulty with
    | @notFinite number filled unbounded =>
        have finite : number.isFinite = true := by
          simp only [filledNumbers, whole, Option.getD_some, List.mem_cons, List.not_mem_nil,
            or_false] at filled
          rcases filled with rfl | rfl | rfl | rfl | rfl
          · exact isFinite_of_decoded placed
          · decide
          · exact isFinite_of_decoded decoded
          · decide
          · decide
        have infinite : number.isFinite = false := unbounded
        rw [finite] at infinite
        cases infinite
    | offset negative => exact absurd negative (not_lt_zero placed)
    | trimStart negative => exact absurd negative (by decide : ¬ (0.0 : Float) < 0.0)
    | trimOrder reversed => exact trimOrder.mp reversed
    | beyondFile beyond => exact absurd beyond isShort.not_beyond
    | speed notPositive => exact absurd notPositive (by decide : ¬ (1.0 : Float) ≤ 0.0)
    | volume negative => exact absurd negative (by decide : ¬ (unityVolume : Float) < 0.0)
  · intro empty
    exact .trimOrder (trimOrder.mpr empty)

end Whole

section Laid

variable {catalog : IdMap (Asset Float)} {assets : List (Asset Float)}

/-- Clips laid end to end are sound just when none of the files is empty. -/
theorem clipsFrom_isSound_iff (known : ∀ asset ∈ assets, IdMap.get? asset.id catalog = some asset)
    (isShort : ∀ asset ∈ assets, IsShort asset.duration) {place : Float} (isPlace : IsPlace place) :
    (∀ clip ∈ clipsFrom place assets, clip.IsSound catalog) ↔
      ∀ asset ∈ assets, 0 < (ofFloat asset.duration).value := by
  induction assets generalizing place with
  | nil => simp [clipsFrom]
  | cons asset rest inductionHypothesis =>
      rw [List.forall_mem_cons] at known isShort ⊢
      rw [clipsFrom, List.forall_mem_cons,
        inductionHypothesis known.2 isShort.2 (isPlace.add isShort.1)]
      have sound : (Clip.whole asset place).IsSound catalog ↔
          0 < (ofFloat asset.duration).value := by
        rw [Clip.isSound_iff known.1, Clip.fault?_eq_none_iff,
          Clip.whole_isFaulty_iff isPlace isShort.1, not_not]
      rw [sound]

theorem map_fileId_clipsFrom (place : Float) (assets : List (Asset Float)) :
    (clipsFrom place assets).map (·.fileId) = assets.map (·.id) := by
  induction assets generalizing place with
  | nil => rfl
  | cons asset rest inductionHypothesis =>
      rw [clipsFrom, List.map_cons, List.map_cons, inductionHypothesis]
      rfl

/-- The files of the clips are the files laid end to end. -/
theorem exists_clip_iff {id : FileId} :
    (∃ clip ∈ (backToBack assets).clips, clip.fileId = id) ↔ ∃ asset ∈ assets, asset.id = id := by
  rw [← List.mem_map, ← List.mem_map, backToBack, map_fileId_clipsFrom]

theorem clips_backToBack_ne_nil (nonempty : assets ≠ []) : (backToBack assets).clips ≠ [] := by
  cases assets with
  | nil => exact absurd rfl nonempty
  | cons asset rest => exact List.cons_ne_nil _ _

/-- Files laid end to end compile, unless they have nothing to put out, just when none of them is
empty. -/
theorem compile_backToBack_iff (nonempty : assets ≠ [])
    (known : ∀ asset ∈ assets, IdMap.get? asset.id catalog = some asset)
    (isShort : ∀ asset ∈ assets, IsShort asset.duration) :
    ((∃ compiled, compile (backToBack assets) catalog = .ok compiled) ∨
        compile (backToBack assets) catalog = .error .noOutputStreams) ↔
      ∀ asset ∈ assets, 0 < (ofFloat asset.duration).value := by
  rw [← clipsFrom_isSound_iff known isShort isPlace_zero]
  constructor
  · rintro (accepted | silent)
    · exact (compile_eq_ok_iff.mp accepted).2.1
    · cases compile_eq_error_iff.mp silent with
      | clip found refused => cases refused
      | noOutputStreams nonempty sound nothing => exact sound
  · intro sound
    obtain ⟨heard, silent⟩ := compile_of_sound (clips_backToBack_ne_nil nonempty) sound
    by_cases output : (backToBack assets).HasOutput catalog
    · exact Or.inl (heard output)
    · exact Or.inr (silent output)

/-- An empty file at the front is refused because its clip ends where it begins. -/
theorem compile_backToBack_of_empty {asset : Asset Float}
    (known : IdMap.get? asset.id catalog = some asset) (empty : asset.duration = 0.0)
    (others : List (Asset Float)) :
    compile (backToBack (asset :: others)) catalog =
      .error (.invalidClip 0 (.trimOrder 0.0 0.0)) := by
  have fault : (Clip.whole asset 0.0).fault? asset = some (.trimOrder 0.0 0.0) := by
    have count : isCount (0.0 : Float) = true := by decide
    have reversed : (0.0 : Float) ≤ 0.0 := by decide
    simp [Clip.fault?, Clip.whole, empty, count, reversed]
  have unsound : ¬ (Clip.whole asset 0.0).IsSound catalog := by
    rw [Clip.isSound_iff known, fault]
    exact Option.some_ne_none _
  exact compile_of_refused (.head unsound) (.invalidClip known fault)

theorem compile_backToBack_ne_noClips (nonempty : assets ≠ []) :
    compile (backToBack assets) catalog ≠ .error .noClips := by
  intro refused
  cases compile_eq_error_iff.mp refused with
  | noClips none => exact clips_backToBack_ne_nil nonempty none
  | clip found refusedClip => cases refusedClip

theorem compile_backToBack_ne_unknownFile
    (known : ∀ asset ∈ assets, IdMap.get? asset.id catalog = some asset) (index : Nat)
    (id : FileId) : compile (backToBack assets) catalog ≠ .error (.unknownFile index id) := by
  intro refused
  cases compile_eq_error_iff.mp refused with
  | @clip position clip _ found refusedClip =>
      cases refusedClip with
      | unknownFile unknown =>
          obtain ⟨asset, inAssets, same⟩ :=
            exists_clip_iff.mp ⟨clip, List.mem_of_getElem? found.here, rfl⟩
          rw [← same, known asset inAssets] at unknown
          cases unknown

/-! ## Builds -/

/-- Some file has a picture of these sides. -/
def ShowsSize (assets : List (Asset Float)) (width height : Nat) : Prop :=
  ∃ asset ∈ assets, asset.hasVideo = true ∧ asset.width = width ∧ asset.height = height

theorem showsSize_backToBack (known : ∀ asset ∈ assets, IdMap.get? asset.id catalog = some asset) :
    (backToBack assets).ShowsSize catalog = ShowsSize assets := by
  funext width height
  apply propext
  constructor
  · rintro ⟨clip, member, asset, found, seen⟩
    obtain ⟨other, inAssets, same⟩ := exists_clip_iff.mp ⟨clip, member, rfl⟩
    rw [← same, known other inAssets] at found
    obtain rfl := Option.some.inj found
    exact ⟨other, inAssets, seen⟩
  · rintro ⟨asset, inAssets, seen⟩
    obtain ⟨clip, member, same⟩ := exists_clip_iff.mpr ⟨asset, inAssets, rfl⟩
    exact ⟨clip, member, asset, same ▸ known asset inAssets, seen⟩

/-- A checked build stops at files without an empty one just when their frame has no room. -/
theorem stops_backToBack_iff (known : ∀ asset ∈ assets, IdMap.get? asset.id catalog = some asset)
    (sound : ∀ clip ∈ (backToBack assets).clips, clip.IsSound catalog) :
    (backToBack assets).Stops catalog ↔ Overflows (ShowsSize assets) := by
  rw [← showsSize_backToBack known]
  constructor
  · exact Timeline.Stops.overflows
  · intro overflows
    refine ⟨?_, sound, overflows⟩
    rw [showsSize_backToBack known] at overflows
    obtain ⟨_, _, ⟨asset, inAssets, seen, -⟩, -⟩ := overflows.someWidth
    exact if_pos (List.any_eq_true.mpr ⟨asset, inAssets, seen⟩)

/-- In a build that checks its sums the frame needs room as well. -/
theorem compileIn_backToBack_iff (build : Build) (nonempty : assets ≠ [])
    (known : ∀ asset ∈ assets, IdMap.get? asset.id catalog = some asset)
    (isShort : ∀ asset ∈ assets, IsShort asset.duration) :
    ((∃ compiled, compileIn build (backToBack assets) catalog = some (.ok compiled)) ∨
        compileIn build (backToBack assets) catalog = some (.error .noOutputStreams)) ↔
      (∀ asset ∈ assets, 0 < (ofFloat asset.duration).value) ∧
        (build = .checked → ¬ Overflows (ShowsSize assets)) := by
  have made := compileIn_unless build (backToBack assets) catalog
  simp only [made.eq_some_iff, exists_and_left, ← and_or_left]
  rw [compile_backToBack_iff nonempty known isShort, and_comm]
  apply and_congr_right
  intro positive
  rw [stops_backToBack_iff known ((clipsFrom_isSound_iff known isShort isPlace_zero).mpr positive),
    not_and]

end Laid

end Montage
