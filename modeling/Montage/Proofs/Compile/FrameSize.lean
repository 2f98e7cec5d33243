import Mathlib.Algebra.Group.Even
import Mathlib.Order.Bounds.Basic
import Montage.Proofs.Compile.Playing

/-!
Contract: all that is concatenated has one legal frame size.

The largest width and the largest height are folds of maxima, so a bound holds
of them exactly when it holds of every picture, whatever the order. Rounding up
gives the least even bound. Each segment of the lane gets one chain of its own,
which ends in frames of that size; fillers are numbered by the fillers before.

Owns: legal and least sizes, the chain of each segment, and
`one_legal_frame_size`.
Does not own: the order of the segments, in `Proofs.Timeline.LaneSet`.
-/

namespace Montage.Compile.Video

open Montage.Number
open Montage.Graph

/-! ## Sizes -/

/-- The least even number that is not smaller than a number, as long as it is a word. -/
theorem isLeast_roundUpEven {n : Nat} (short : n < 2 ^ 32 - 1) :
    IsLeast {k | Even k ∧ n ≤ k} (roundUpEven n) := by
  have fits : n + n % 2 ≤ wordLimit := by
    unfold wordLimit
    omega
  rw [roundUpEven, wordOf_of_le fits]
  constructor
  · refine ⟨?_, Nat.le_add_right ..⟩
    rw [Nat.even_iff]
    omega
  · rintro k ⟨even, above⟩
    rw [Nat.even_iff] at even
    omega

section Sizes

variable {α : Type} {clips others : List (PlacedClip α)}

theorem foldl_max_le_iff (side : PlacedClip α → Nat) (clips : List (PlacedClip α))
    (most bound : Nat) : clips.foldl (fun most clip => max most (side clip)) most ≤ bound ↔
      most ≤ bound ∧ ∀ clip ∈ clips, side clip ≤ bound := by
  induction clips generalizing most with
  | nil => simp
  | cons clip rest inductionHypothesis =>
      rw [List.foldl_cons, inductionHypothesis, Nat.max_le, List.forall_mem_cons, and_assoc]

theorem most_le_iff (side : PlacedClip α → Nat) (bound : Nat) : most side clips ≤ bound ↔
    ∀ clip ∈ clips, clip.hasVideo = true → side clip ≤ bound := by
  rw [most, foldl_max_le_iff]
  simp

theorem le_most_iff {side : PlacedClip α → Nat} {bound : Nat} (positive : 0 < bound) :
    bound ≤ most side clips ↔ ∃ clip ∈ clips, clip.hasVideo = true ∧ bound ≤ side clip := by
  rw [← not_iff_not, not_le, Nat.lt_iff_le_pred positive, most_le_iff]
  simp only [not_exists, not_and, not_le, Nat.lt_iff_le_pred positive]

/-- The largest side depends on which pictures there are, and on nothing else. -/
theorem most_congr (same : ∀ clip : PlacedClip α, clip.hasVideo = true →
    (clip ∈ others ↔ clip ∈ clips)) (side : PlacedClip α → Nat) :
    most side others = most side clips := by
  have bounds (bound : Nat) : most side others ≤ bound ↔ most side clips ≤ bound := by
    rw [most_le_iff, most_le_iff]
    constructor
    · intro within clip member seen
      exact within clip ((same clip seen).mpr member) seen
    · intro within clip member seen
      exact within clip ((same clip seen).mp member) seen
  exact le_antisymm ((bounds _).mpr le_rfl) ((bounds _).mp le_rfl)

/-- Some picture has a width, and some has a height. -/
def Measured (clips : List (PlacedClip α)) : Prop :=
  (∃ clip ∈ clips, clip.hasVideo = true ∧ 0 < clip.width) ∧
    ∃ clip ∈ clips, clip.hasVideo = true ∧ 0 < clip.height

/-- The even numbers that no picture's side exceeds. -/
def evenBounds (side : PlacedClip α → Nat) (clips : List (PlacedClip α)) : Set Nat :=
  {k | Even k ∧ ∀ clip ∈ clips, clip.hasVideo = true → side clip ≤ k}

theorem isLeast_evenBounds {side : PlacedClip α → Nat} (short : most side clips < 2 ^ 32 - 1) :
    IsLeast (evenBounds side clips) (roundUpEven (most side clips)) := by
  have set : evenBounds side clips = {k | Even k ∧ most side clips ≤ k} := by
    simp only [evenBounds, most_le_iff]
  rw [set]
  exact isLeast_roundUpEven short

theorem measured_iff : Measured clips ↔
    ¬ (most (·.width) clips = 0 ∨ most (·.height) clips = 0) := by
  rw [not_or, ← ne_eq, ← ne_eq, ← Nat.pos_iff_ne_zero, ← Nat.pos_iff_ne_zero]
  exact and_congr (le_most_iff Nat.one_pos).symm (le_most_iff Nat.one_pos).symm

theorem most_filter (side : PlacedClip α → Nat) (clips : List (PlacedClip α)) :
    most side (clips.filter (·.hasVideo)) = most side clips := by
  simp only [most, List.filter_filter, Bool.and_self]

theorem resolution_filter (clips : List (PlacedClip α)) :
    resolution (clips.filter (·.hasVideo)) = resolution clips := by
  rw [resolution, resolution, most_filter, most_filter]

theorem resolution_congr (same : ∀ clip : PlacedClip α, clip.hasVideo = true →
    (clip ∈ others ↔ clip ∈ clips)) : resolution others = resolution clips := by
  rw [resolution, resolution, most_congr same, most_congr same]

/-- A size that every stage accepts: two even numbers of 32 bits, and neither is zero. -/
structure Legal (size : Resolution) : Prop where
  evenWidth : Even size.width
  evenHeight : Even size.height
  width_pos : 0 < size.width
  height_pos : 0 < size.height
  width_lt : size.width < 2 ^ 32
  height_lt : size.height < 2 ^ 32

/-- A size that fits all pictures and is no larger than it has to be. -/
structure Fits (clips : List (PlacedClip α)) (size : Resolution) : Prop where
  measured : Measured clips →
    IsLeast (evenBounds (·.width) clips) size.width ∧
      IsLeast (evenBounds (·.height) clips) size.height
  unmeasured : ¬ Measured clips → size = ⟨1920, 1080⟩

/-- Sides below the largest word, which leave room for rounding up. -/
def Short (clips : List (PlacedClip α)) : Prop :=
  ∀ clip ∈ clips, clip.hasVideo = true → clip.width < 2 ^ 32 - 1 ∧ clip.height < 2 ^ 32 - 1

theorem most_lt {side : PlacedClip α → Nat}
    (short : ∀ clip ∈ clips, clip.hasVideo = true → side clip < 2 ^ 32 - 1) :
    most side clips < 2 ^ 32 - 1 := by
  refine Nat.lt_of_le_pred (by decide) ((most_le_iff _ _).mpr ?_)
  intro clip member seen
  exact Nat.le_pred_of_lt (short clip member seen)

theorem Short.width (short : Short clips) : most (·.width) clips < 2 ^ 32 - 1 :=
  most_lt fun clip member seen => (short clip member seen).1

theorem Short.height (short : Short clips) : most (·.height) clips < 2 ^ 32 - 1 :=
  most_lt fun clip member seen => (short clip member seen).2

theorem resolution_fits (short : Short clips) : Fits clips (resolution clips) where
  measured := by
    intro someSize
    rw [resolution, if_neg (measured_iff.mp someSize)]
    exact ⟨isLeast_evenBounds short.width, isLeast_evenBounds short.height⟩
  unmeasured := by
    intro noSize
    rw [measured_iff, not_not] at noSize
    rw [resolution, if_pos noSize]
    rfl

/-- A side that is rounded up is even, and a word that is not zero. -/
theorem roundUpEven_legal {n : Nat} (nonzero : n ≠ 0) (short : n < 2 ^ 32 - 1) :
    Even (roundUpEven n) ∧ 0 < roundUpEven n ∧ roundUpEven n < 2 ^ 32 := by
  obtain ⟨⟨even, above⟩, -⟩ := isLeast_roundUpEven short
  exact ⟨even, lt_of_lt_of_le (Nat.pos_of_ne_zero nonzero) above,
    Nat.lt_succ_of_le (wordOf_le _)⟩

theorem resolution_legal (short : Short clips) : Legal (resolution clips) := by
  rw [resolution]
  split
  · exact ⟨by decide, by decide, by decide, by decide, by decide, by decide⟩
  · next measured =>
      obtain ⟨someWidth, someHeight⟩ := not_or.mp measured
      obtain ⟨evenWidth, width_pos, width_lt⟩ := roundUpEven_legal someWidth short.width
      obtain ⟨evenHeight, height_pos, height_lt⟩ := roundUpEven_legal someHeight short.height
      exact ⟨evenWidth, evenHeight, width_pos, height_pos, width_lt, height_lt⟩

end Sizes

/-! ## Chains of segments -/

section Chains

variable {α : Type}

/-- How many fillers a lane has before a position. -/
def fillersBefore (segments : List (Lane.Segment α)) (position : Nat) : Nat :=
  (segments.take position).countP fun segment => segment.clip?.isNone

/-- A chain that plays a segment in frames of a size, with so many fillers before it. -/
inductive Frames (size : Resolution) (fillers : Nat) : Lane.Segment α → Chain α → Prop where
  | clip {clip : PlacedClip α} {chain : Chain α}
      (sources : chain.sources = [.input clip.input .video])
      (framed : [.scaleToFit size.width size.height, .padCentered size.width size.height,
        .sampleAspect 1] <:+ chain.filters)
      (label : chain.output = numbered "v" clip.index) : Frames size fillers (.clip clip) chain
  | filler {duration : α} {chain : Chain α} (sources : chain.sources = [])
      (framed : chain.filters = [.black size.width size.height duration 30, .sampleAspect 1])
      (label : chain.output = numbered "blk" fillers) : Frames size fillers (.filler duration) chain

/-- A side is a single part, or parts that are all concatenated in their order. -/
inductive Concatenates (parts : List (Chain α)) : Side α → Prop where
  | single {only : Chain α} (one : parts = [only]) :
      Concatenates parts ⟨[only], some only.output⟩
  | several (many : 2 ≤ parts.length) :
      Concatenates parts
        ⟨parts ++ [⟨parts.map fun part => .label part.output, [.concat parts.length], ⟨"outv"⟩⟩],
          some ⟨"outv"⟩⟩

theorem concatenates_joined {parts : List (Chain α)} (nonempty : parts ≠ []) :
    Concatenates parts (joined parts concatLabel .concat) := by
  rcases joined_cases parts concatLabel .concat with
    ⟨none, -⟩ | ⟨only, one, shape⟩ | ⟨several, shape⟩
  · exact absurd none nonempty
  · rw [shape]
    exact .single one
  · rw [shape]
    exact .several several

variable [Seconds α]

/-- The chain of a segment is framed and numbered by its place on the lane. -/
theorem laneChains_frames (size : Resolution) (segments : List (Lane.Segment α)) (ordinal : Nat)
    {position : Nat} {segment : Lane.Segment α} (here : segments[position]? = some segment) :
    ∃ chain, (laneChains size ordinal segments)[position]? = some chain ∧
      Frames size (ordinal + fillersBefore segments position) segment chain := by
  induction segments generalizing position ordinal with
  | nil => cases here
  | cons first rest inductionHypothesis =>
      cases position with
      | zero =>
          obtain rfl := Option.some.inj here
          cases first with
          | filler duration => exact ⟨_, rfl, .filler rfl rfl rfl⟩
          | clip clip => exact ⟨_, rfl, .clip rfl (List.suffix_append _ _) rfl⟩
      | succ position =>
          cases first with
          | filler duration =>
              have counted : fillersBefore (.filler duration :: rest) (position + 1) =
                  fillersBefore rest position + 1 := by
                simp [fillersBefore, Lane.Segment.clip?]
              obtain ⟨chain, listed, frames⟩ := inductionHypothesis (ordinal + 1) here
              refine ⟨chain, listed, ?_⟩
              rwa [counted, Nat.add_comm _ 1, ← Nat.add_assoc]
          | clip clip =>
              have counted : fillersBefore (.clip clip :: rest) (position + 1) =
                  fillersBefore rest position := by
                simp [fillersBefore, Lane.Segment.clip?]
              rw [counted]
              exact inductionHypothesis ordinal here

theorem length_laneChains (size : Resolution) (ordinal : Nat) (segments : List (Lane.Segment α)) :
    (laneChains size ordinal segments).length = segments.length := by
  induction segments generalizing ordinal with
  | nil => rfl
  | cons first rest inductionHypothesis =>
      cases first <;> simp [laneChains, inductionHypothesis]

/-- A picture side in which every part has the same size, and the size is as it should be. -/
structure OneFrameSize (clips : List (PlacedClip α)) (total : α) (side : Side α)
    (size : Resolution) : Prop where
  legal : Legal size
  fits : Fits clips size
  /-- The parts are the segments of the lane, in order. -/
  parts : ∃ parts, Concatenates parts side ∧
    parts.length = (Lane.segments (clips.filter (·.hasVideo)) total).length ∧
    ∀ position segment,
      (Lane.segments (clips.filter (·.hasVideo)) total)[position]? = some segment →
        ∃ chain, parts[position]? = some chain ∧
          Frames size (fillersBefore (Lane.segments (clips.filter (·.hasVideo)) total) position)
            segment chain

/-- Clips with a picture make a side of one legal frame size, which neither the order nor the
repetition of clips nor clips without a picture have any influence on. -/
theorem one_legal_frame_size {clips : List (PlacedClip α)} (total : α)
    (pictured : ∃ clip ∈ clips, clip.hasVideo = true)
    (bounded : ∀ clip ∈ clips, clip.hasVideo = true →
      clip.width < 2 ^ 32 - 1 ∧ clip.height < 2 ^ 32 - 1) :
    ∃ side size, assemble? clips total = some (side, size) ∧ OneFrameSize clips total side size ∧
      ∀ others otherTotal otherSide otherSize,
        (∀ clip : PlacedClip α, clip.hasVideo = true → (clip ∈ others ↔ clip ∈ clips)) →
        assemble? others otherTotal = some (otherSide, otherSize) → otherSize = size := by
  obtain ⟨clip, member, seen⟩ := pictured
  have inPicture : clip ∈ clips.filter (·.hasVideo) := List.mem_filter.mpr ⟨member, seen⟩
  have assembled (total : α) {clips : List (PlacedClip α)}
      (some : (clips.filter (·.hasVideo)).isEmpty = false) : assemble? clips total =
        Option.some (joined (laneChains (resolution clips) 0
          (Lane.segments (clips.filter (·.hasVideo)) total)) concatLabel .concat,
            resolution clips) := by
    simp only [assemble?, framed, some, Bool.false_eq_true, ↓reduceIte, resolution_filter]
  have nonempty : (clips.filter (·.hasVideo)).isEmpty = false :=
    List.isEmpty_eq_false_iff.mpr (List.ne_nil_of_mem inPicture)
  refine ⟨_, _, assembled total nonempty, ?_, ?_⟩
  · have parts : laneChains (resolution clips) 0
        (Lane.segments (clips.filter (·.hasVideo)) total) ≠ [] :=
      List.ne_nil_of_mem
        (clipChain_mem_laneChains _ 0 (Lane.clip_mem_segments inPicture total))
    refine ⟨resolution_legal bounded, resolution_fits bounded, _, concatenates_joined parts,
      length_laneChains _ _ _, ?_⟩
    intro position segment here
    obtain ⟨chain, listed, frames⟩ := laneChains_frames (resolution clips) _ 0 here
    rw [Nat.zero_add] at frames
    exact ⟨chain, listed, frames⟩
  · intro others otherTotal otherSide otherSize same other
    cases some : (others.filter (·.hasVideo)).isEmpty with
    | true => simp [assemble?, some] at other
    | false =>
        rw [assembled otherTotal some] at other
        obtain ⟨-, rfl⟩ := Prod.mk.inj (Option.some.inj other)
        exact resolution_congr same

end Chains

/-- A wide picture late, a tall one early, and a sound whose cover is larger than both. -/
def wideAndTall : List (PlacedClip Rat) :=
  [⟨0, ⟨"wide"⟩, 0, 5, 0, 2, 1, 100, 0, true, true, 1281, 720⟩,
    ⟨1, ⟨"tall"⟩, 1, 1, 0, 3, 1, 100, 0, false, true, 719, 1280⟩,
    ⟨2, ⟨"song"⟩, 2, 0, 0, 8, 1, 100, 0, true, false, 3000, 3000⟩]

theorem one_legal_frame_size_wide_and_tall :
    ∃ side, assemble? wideAndTall 8 = some (side, ⟨1282, 1280⟩) ∧
      OneFrameSize wideAndTall 8 side ⟨1282, 1280⟩ ∧
      outputs side.chains = [⟨"blk0"⟩, ⟨"v1"⟩, ⟨"blk1"⟩, ⟨"v0"⟩, ⟨"blk2"⟩, ⟨"outv"⟩] := by
  have pictured : ∃ clip ∈ wideAndTall, clip.hasVideo = true := by decide
  have bounded : ∀ clip ∈ wideAndTall, clip.hasVideo = true →
      clip.width < 2 ^ 32 - 1 ∧ clip.height < 2 ^ 32 - 1 := by decide
  have computed : (assemble? wideAndTall 8).map (fun made => (outputs made.1.chains, made.2)) =
      some ([⟨"blk0"⟩, ⟨"v1"⟩, ⟨"blk1"⟩, ⟨"v0"⟩, ⟨"blk2"⟩, ⟨"outv"⟩], ⟨1282, 1280⟩) := by
    decide +kernel
  obtain ⟨side, size, assembled, framed, -⟩ := one_legal_frame_size 8 pictured bounded
  rw [assembled] at computed
  obtain ⟨labels, rfl⟩ := Prod.mk.inj (Option.some.inj computed)
  exact ⟨side, assembled, framed, labels⟩

end Montage.Compile.Video
