import Montage.Proofs.Compile.Labels
import Montage.Proofs.Graph.Linking
import Montage.Proofs.Timeline.LaneOrder

/-!
Contract: the sound side and the picture side of a compiled graph.

Each side is made of leaves, which read files only, and at most one chain that
joins them. `Side.WellFormed` says what that gives: labels that link up, stages
of one kind, joins that count their sources, and streams of clips that have them.

Owns: the kinds of stages, leaves, and that both sides are well formed.
Does not own: the graph both sides make together.
-/

namespace Montage

open Montage.Number
open Montage.Graph

/-! ## Kinds of stages -/

namespace Graph

variable {α : Type}

/-- The kind of stream a stage works on. -/
def Filter.kind : Filter α → StreamKind
  | .audioTrim _ _ | .audioSetPts _ | .tempo _ | .delay _ | .volume _ | .mix _ => .audio
  | .trim _ _ | .setPts _ | .scaleToFit _ _ | .padCentered _ _ | .sampleAspect _
  | .black _ _ _ _ | .concat _ => .video

/-- The number of streams a stage joins, if it joins any. -/
def Filter.joins? : Filter α → Option Nat
  | .mix inputs => some inputs
  | .concat segments => some segments
  | _ => none

/-- A chain yields a kind of stream when all its stages work on that kind. -/
def Chain.Yields (kind : StreamKind) (chain : Chain α) : Prop :=
  chain.filters ≠ [] ∧ ∀ stage ∈ chain.filters, stage.kind = kind

/-- Joining stages state the number of sources, which is two at least. -/
def Chain.CountsSources (chain : Chain α) : Prop :=
  ∀ stage ∈ chain.filters, ∀ count ∈ stage.joins?, count = chain.sources.length ∧ 2 ≤ count

end Graph

/-- Whether the file of a clip has a kind of stream. -/
def PlacedClip.has {α : Type} (clip : PlacedClip α) : StreamKind → Bool
  | .audio => clip.hasAudio
  | .video => clip.hasVideo

/-- Streams of files are taken only where a clip says that there are such. -/
def Graph.Chain.TakesFrom {α : Type} (clips : List (PlacedClip α)) (chain : Chain α) : Prop :=
  ∀ index kind, Source.input index kind ∈ chain.sources →
    ∃ clip ∈ clips, clip.input = index ∧ clip.has kind = true

namespace Compile

variable {α : Type}

/-- What every chain of a side is. -/
structure Proper (kind : StreamKind) (clips : List (PlacedClip α)) (chain : Chain α) : Prop where
  yields : chain.Yields kind
  counts : chain.CountsSources
  takes : chain.TakesFrom clips

/-- One side of a graph over some clips. -/
structure Side.WellFormed (kind : StreamKind) (clips : List (PlacedClip α)) (side : Side α) :
    Prop where
  linked : WellLinked side.chains side.output.toList
  proper : ∀ chain ∈ side.chains, Proper kind clips chain

/-- A chain that reads no other chain and joins nothing. -/
structure Leaf (kind : StreamKind) (clips : List (PlacedClip α)) (chain : Chain α) : Prop where
  unlinked : chain.reads = []
  nonempty : chain.filters ≠ []
  stages : ∀ stage ∈ chain.filters, stage.kind = kind ∧ stage.joins? = none
  takes : chain.TakesFrom clips

theorem Leaf.proper {kind : StreamKind} {clips : List (PlacedClip α)} {chain : Chain α}
    (leaf : Leaf kind clips chain) : Proper kind clips chain where
  yields := ⟨leaf.nonempty, fun stage inFilters => (leaf.stages stage inFilters).1⟩
  counts := by
    intro stage inFilters count joins
    rw [(leaf.stages stage inFilters).2] at joins
    cases joins
  takes := leaf.takes

/-! ## Joining leaves -/

/-- The chain that joins others by one stage. -/
def joining (chains : List (Chain α)) (label : Label) (join : Nat → Graph.Filter α) : Chain α :=
  ⟨chains.map fun chain => Source.label chain.output, [join chains.length], label⟩

section Joining

variable {kind : StreamKind} {clips : List (PlacedClip α)} {chains : List (Chain α)}
  {label : Label} {join : Nat → Graph.Filter α}

/-- No chain is joined by nothing, one stands alone, and several get one more chain. -/
theorem joined_cases (chains : List (Chain α)) (label : Label) (join : Nat → Graph.Filter α) :
    chains = [] ∧ joined chains label join = ⟨[], none⟩ ∨
      (∃ only, chains = [only] ∧ joined chains label join = ⟨[only], some only.output⟩) ∨
      2 ≤ chains.length ∧
        joined chains label join = ⟨chains ++ [joining chains label join], some label⟩ := by
  rcases chains with _ | ⟨first, _ | ⟨second, rest⟩⟩
  · exact Or.inl ⟨rfl, rfl⟩
  · exact Or.inr (Or.inl ⟨first, rfl, rfl⟩)
  · exact Or.inr (Or.inr ⟨by simp, rfl⟩)

theorem reads_joining : (joining chains label join).reads = outputs chains := by
  have named : Source.label? ∘ (fun chain : Chain α => Source.label chain.output) =
      some ∘ fun chain => chain.output := rfl
  simp only [joining, Chain.reads, outputs]
  rw [List.filterMap_map, named, List.filterMap_eq_map]

theorem joining_proper (several : 2 ≤ chains.length)
    (joins : ∀ count, (join count).joins? = some count)
    (joinKind : ∀ count, (join count).kind = kind) :
    Proper kind clips (joining chains label join) where
  yields := by
    refine ⟨List.cons_ne_nil _ _, ?_⟩
    intro stage inFilters
    rw [List.mem_singleton.mp inFilters]
    exact joinKind chains.length
  counts := by
    intro stage inFilters count counted
    rw [List.mem_singleton.mp inFilters, joins, Option.mem_some] at counted
    subst counted
    exact ⟨(List.length_map _).symm, several⟩
  takes := by
    intro index kind member
    simp [joining] at member

theorem reads_of_leaves (leaves : ∀ chain ∈ chains, Leaf kind clips chain) : reads chains = [] :=
  List.flatMap_eq_nil_iff.mpr fun chain member => (leaves chain member).unlinked

/-- A chain of a joined side is one of the chains, or the one that joins them. -/
theorem mem_joined_cases {chain : Chain α} (member : chain ∈ (joined chains label join).chains) :
    chain ∈ chains ∨ chain = joining chains label join := by
  rcases joined_cases chains label join with
    ⟨_, shape⟩ | ⟨only, rfl, shape⟩ | ⟨_, shape⟩ <;> rw [shape] at member
  · cases member
  · exact Or.inl member
  · exact (List.mem_append.mp member).imp_right List.mem_singleton.mp

theorem output_joined {output : Label}
    (member : output ∈ outputs (joined chains label join).chains) :
    output ∈ outputs chains ∨ output = label := by
  obtain ⟨chain, isChain, rfl⟩ := List.mem_map.mp member
  rcases mem_joined_cases isChain with inChains | rfl
  · exact Or.inl (List.mem_map_of_mem inChains)
  · exact Or.inr rfl

/-- Leaves with labels of their own make a well formed side, however many they are. -/
theorem joined_wellFormed (leaves : ∀ chain ∈ chains, Leaf kind clips chain)
    (distinct : (outputs chains).Nodup) (fresh : label ∉ outputs chains)
    (joins : ∀ count, (join count).joins? = some count)
    (joinKind : ∀ count, (join count).kind = kind) :
    (joined chains label join).WellFormed kind clips := by
  have leavesProper : ∀ chain ∈ chains, Proper kind clips chain :=
    fun chain member => (leaves chain member).proper
  rcases joined_cases chains label join with
    ⟨_, shape⟩ | ⟨only, rfl, shape⟩ | ⟨several, shape⟩ <;> rw [shape]
  · exact ⟨.nil, by simp⟩
  · exact ⟨.single (leaves only (List.mem_singleton_self only)).unlinked, leavesProper⟩
  · refine ⟨.joining distinct (reads_of_leaves leaves) reads_joining fresh, ?_⟩
    intro chain member
    rcases List.mem_append.mp member with inChains | isJoining
    · exact leavesProper chain inChains
    · rw [List.mem_singleton.mp isJoining]
      exact joining_proper several joins joinKind

end Joining

/-! ## Sound -/

section Sound

variable [Seconds α]

theorem Audio.leaf_clipChain {clips : List (PlacedClip α)} {clip : PlacedClip α}
    (member : clip ∈ clips) (heard : clip.hasAudio = true) :
    Leaf .audio clips (Audio.clipChain clip) where
  unlinked := rfl
  nonempty := by simp [Audio.clipChain]
  stages := by
    intro stage inFilters
    simp only [Audio.clipChain, List.mem_append, Option.mem_toList] at inFilters
    rcases inFilters with ((first | retimed) | delayed) | amplified
    · rcases List.mem_pair.mp first with rfl | rfl <;> exact ⟨rfl, rfl⟩
    · obtain ⟨factor, _, rfl⟩ := List.mem_map.mp retimed
      exact ⟨rfl, rfl⟩
    · simp only [Audio.delay?, Option.ite_none_right_eq_some, Option.some.injEq] at delayed
      obtain ⟨_, rfl⟩ := delayed
      exact ⟨rfl, rfl⟩
    · simp only [Audio.gain?, Option.ite_none_left_eq_some, Option.some.injEq] at amplified
      obtain ⟨_, rfl⟩ := amplified
      exact ⟨rfl, rfl⟩
  takes := by
    intro index kind taken
    rcases List.mem_singleton.mp taken with rfl | _
    exact ⟨clip, member, rfl, heard⟩

def Audio.Names (label : Label) : Prop := label.initial? = some 'a' ∨ label = Audio.mixLabel

theorem Audio.outputs_clipChains {clips : List (PlacedClip α)} :
    outputs (clips.map Audio.clipChain) = (clips.map (·.index)).map (numbered "a") := by
  rw [outputs, List.map_map, List.map_map]
  rfl

theorem Audio.assemble_names {clips : List (PlacedClip α)} {label : Label}
    (member : label ∈ outputs (Audio.assemble clips).chains) : Audio.Names label := by
  rcases output_joined member with leaf | isMix
  · rw [Audio.outputs_clipChains] at leaf
    obtain ⟨index, _, rfl⟩ := List.mem_map.mp leaf
    exact Or.inl (initial_numbered index rfl)
  · exact Or.inr isMix

theorem Audio.assemble_wellFormed {clips : List (PlacedClip α)}
    (distinct : (clips.map (·.index)).Nodup) :
    (Audio.assemble clips).WellFormed .audio clips := by
  refine joined_wellFormed ?_ ?_ ?_ (fun _ => rfl) (fun _ => rfl)
  · intro chain isChain
    obtain ⟨clip, heard, rfl⟩ := List.mem_map.mp isChain
    obtain ⟨member, hasAudio⟩ := List.mem_filter.mp heard
    exact Audio.leaf_clipChain member hasAudio
  · rw [Audio.outputs_clipChains]
    have heard : ((clips.filter (·.hasAudio)).map (·.index)).Sublist (clips.map (·.index)) :=
      List.filter_sublist.map _
    exact (distinct.sublist heard).map fun _ _ same => numbered_injective same
  · rw [Audio.outputs_clipChains]
    intro isLeaf
    obtain ⟨index, _, same⟩ := List.mem_map.mp isLeaf
    refine Label.ne_of_initial ?_ same
    rw [initial_numbered index rfl]
    decide

end Sound

/-! ## Picture -/

section Picture

variable [Seconds α]

theorem Video.leaf_clipChain {size : Resolution} {clips : List (PlacedClip α)}
    {clip : PlacedClip α} (member : clip ∈ clips) (seen : clip.hasVideo = true) :
    Leaf .video clips (Video.clipChain size clip) where
  unlinked := rfl
  nonempty := by simp [Video.clipChain]
  stages := by
    intro stage inFilters
    simp only [Video.clipChain, List.mem_append, Option.mem_toList] at inFilters
    rcases inFilters with (first | stretched) | last
    · rcases List.mem_pair.mp first with rfl | rfl <;> exact ⟨rfl, rfl⟩
    · simp only [Video.stretch?, Option.ite_none_left_eq_some, Option.some.injEq] at stretched
      obtain ⟨_, rfl⟩ := stretched
      exact ⟨rfl, rfl⟩
    · simp only [List.mem_cons, List.not_mem_nil, or_false] at last
      rcases last with rfl | rfl | rfl <;> exact ⟨rfl, rfl⟩
  takes := by
    intro index kind taken
    rcases List.mem_singleton.mp taken with rfl | _
    exact ⟨clip, member, rfl, seen⟩

omit [Seconds α] in
theorem Video.leaf_fillerChain {size : Resolution} {clips : List (PlacedClip α)} {ordinal : Nat}
    {duration : α} : Leaf .video clips (Video.fillerChain size ordinal duration) where
  unlinked := rfl
  nonempty := List.cons_ne_nil _ _
  stages := by
    intro stage inFilters
    rcases List.mem_pair.mp inFilters with rfl | rfl <;> exact ⟨rfl, rfl⟩
  takes := by
    intro index kind taken
    cases taken

/-- The chains of a lane are those of its clips, and those of its fillers, numbered from `ordinal`. -/
theorem Video.mem_laneChains {size : Resolution} {ordinal : Nat}
    {segments : List (Lane.Segment α)} {chain : Chain α}
    (member : chain ∈ Video.laneChains size ordinal segments) :
    (∃ clip, .clip clip ∈ segments ∧ chain = Video.clipChain size clip) ∨
      ∃ number gap, ordinal ≤ number ∧ .filler gap ∈ segments ∧
        chain = Video.fillerChain size number gap := by
  induction segments generalizing ordinal with
  | nil => cases member
  | cons segment rest inductionHypothesis =>
      have later {first : Nat} (after : ordinal ≤ first)
          (inRest : chain ∈ Video.laneChains size first rest) :
          (∃ clip, .clip clip ∈ segment :: rest ∧ chain = Video.clipChain size clip) ∨
            ∃ number gap, ordinal ≤ number ∧ .filler gap ∈ segment :: rest ∧
              chain = Video.fillerChain size number gap := by
        rcases inductionHypothesis inRest with
          ⟨clip, listed, shape⟩ | ⟨number, gap, reached, listed, shape⟩
        · exact Or.inl ⟨clip, List.mem_cons_of_mem segment listed, shape⟩
        · exact Or.inr
            ⟨number, gap, after.trans reached, List.mem_cons_of_mem segment listed, shape⟩
      cases segment with
      | filler gap =>
          rcases List.mem_cons.mp member with rfl | inRest
          · exact Or.inr ⟨ordinal, gap, Nat.le_refl ordinal, List.mem_cons_self, rfl⟩
          · exact later (Nat.le_succ ordinal) inRest
      | clip clip =>
          rcases List.mem_cons.mp member with rfl | inRest
          · exact Or.inl ⟨clip, List.mem_cons_self, rfl⟩
          · exact later (Nat.le_refl ordinal) inRest

theorem Video.leaf_laneChains {size : Resolution} {ordinal : Nat}
    {segments : List (Lane.Segment α)} {clips : List (PlacedClip α)}
    (pictured : ∀ clip ∈ segments.filterMap Lane.Segment.clip?, clip ∈ clips ∧ clip.hasVideo = true) :
    ∀ chain ∈ Video.laneChains size ordinal segments, Leaf .video clips chain := by
  intro chain isChain
  rcases Video.mem_laneChains isChain with ⟨clip, listed, rfl⟩ | ⟨number, gap, _, _, rfl⟩
  · obtain ⟨member, seen⟩ := pictured clip (List.mem_filterMap.mpr ⟨_, listed, rfl⟩)
    exact Video.leaf_clipChain member seen
  · exact Video.leaf_fillerChain

/-- A lane labels its clips by their positions and its fillers from `ordinal` on. -/
theorem Video.output_laneChains {size : Resolution} {ordinal : Nat}
    {segments : List (Lane.Segment α)} {label : Label}
    (member : label ∈ outputs (Video.laneChains size ordinal segments)) :
    (∃ clip ∈ segments.filterMap Lane.Segment.clip?, label = numbered "v" clip.index) ∨
      ∃ number, ordinal ≤ number ∧ label = numbered "blk" number := by
  obtain ⟨chain, isChain, rfl⟩ := List.mem_map.mp member
  rcases Video.mem_laneChains isChain with ⟨clip, listed, rfl⟩ | ⟨number, gap, after, _, rfl⟩
  · exact Or.inl ⟨clip, List.mem_filterMap.mpr ⟨_, listed, rfl⟩, rfl⟩
  · exact Or.inr ⟨number, after, rfl⟩

theorem Video.clip_ne_filler {index ordinal : Nat} :
    numbered "v" index ≠ numbered "blk" ordinal := by
  refine Label.ne_of_initial ?_
  rw [initial_numbered index rfl, initial_numbered ordinal rfl]
  decide

theorem Video.outputs_laneChains_nodup {size : Resolution} {ordinal : Nat}
    {segments : List (Lane.Segment α)}
    (distinct : ((segments.filterMap Lane.Segment.clip?).map (·.index)).Nodup) :
    (outputs (Video.laneChains size ordinal segments)).Nodup := by
  induction segments generalizing ordinal with
  | nil => exact List.nodup_nil
  | cons segment rest inductionHypothesis =>
      cases segment with
      | filler duration =>
          refine List.nodup_cons.mpr ⟨?_, inductionHypothesis distinct⟩
          intro repeated
          rcases Video.output_laneChains repeated with ⟨clip, _, same⟩ | ⟨number, after, same⟩
          · exact Video.clip_ne_filler same.symm
          · have sameNumber := numbered_injective same
            omega
      | clip clip =>
          obtain ⟨unused, restDistinct⟩ := List.nodup_cons.mp distinct
          refine List.nodup_cons.mpr ⟨?_, inductionHypothesis restDistinct⟩
          intro repeated
          rcases Video.output_laneChains repeated with ⟨later, isClip, same⟩ | ⟨number, _, same⟩
          · apply unused
            rw [List.mem_map]
            exact ⟨later, isClip, (numbered_injective same).symm⟩
          · exact Video.clip_ne_filler same

def Video.Names (label : Label) : Prop :=
  label.initial? = some 'v' ∨ label.initial? = some 'b' ∨ label = Video.concatLabel

theorem Video.concat_ne {label : Label}
    (numberedLabel : label.initial? = some 'v' ∨ label.initial? = some 'b') :
    label ≠ Video.concatLabel := by
  refine Label.ne_of_initial ?_
  rcases numberedLabel with initial | initial <;> rw [initial] <;> decide

theorem Video.initial_laneChains {size : Resolution} {ordinal : Nat}
    {segments : List (Lane.Segment α)} {label : Label}
    (member : label ∈ outputs (Video.laneChains size ordinal segments)) :
    label.initial? = some 'v' ∨ label.initial? = some 'b' := by
  rcases Video.output_laneChains member with ⟨clip, _, rfl⟩ | ⟨number, _, rfl⟩
  · exact Or.inl (initial_numbered clip.index rfl)
  · exact Or.inr (initial_numbered number rfl)

/-- A picture side is the lane of the clips with a picture, joined by one concatenation. -/
theorem Video.assemble?_eq_some {clips : List (PlacedClip α)} {total : α} {side : Side α}
    {size : Resolution} (assembled : Video.assemble? clips total = some (side, size)) :
    side = joined (Video.laneChains size 0 (Lane.segments (clips.filter (·.hasVideo)) total))
      Video.concatLabel .concat := by
  simp only [Video.assemble?, Video.framed, Option.ite_none_left_eq_some, Option.some.injEq,
    Prod.mk.injEq] at assembled
  obtain ⟨_, rfl, rfl⟩ := assembled
  rfl

theorem Video.assemble?_names {clips : List (PlacedClip α)} {total : α} {side : Side α}
    {size : Resolution} (assembled : Video.assemble? clips total = some (side, size))
    {label : Label} (member : label ∈ outputs side.chains) : Video.Names label := by
  rw [Video.assemble?_eq_some assembled] at member
  rcases output_joined member with leaf | isConcat
  · rcases Video.initial_laneChains leaf with isClip | isFiller
    · exact Or.inl isClip
    · exact Or.inr (Or.inl isFiller)
  · exact Or.inr (Or.inr isConcat)

/-- The chains of the lane of clips with a picture have labels of their own. -/
theorem Video.outputs_lane_nodup {clips : List (PlacedClip α)} (size : Resolution) (total : α)
    (distinct : (clips.map (·.index)).Nodup) :
    (outputs (Video.laneChains size 0
      (Lane.segments (clips.filter (·.hasVideo)) total))).Nodup := by
  apply Video.outputs_laneChains_nodup
  rw [Lane.segments_clips]
  have pictured : ((clips.filter (·.hasVideo)).map (·.index)).Sublist (clips.map (·.index)) :=
    List.filter_sublist.map _
  exact ((Lane.order_perm _).map _).nodup_iff.mpr (distinct.sublist pictured)

theorem Video.leaf_lane (size : Resolution) (clips : List (PlacedClip α)) (total : α) :
    ∀ chain ∈ Video.laneChains size 0 (Lane.segments (clips.filter (·.hasVideo)) total),
      Leaf .video clips chain := by
  refine Video.leaf_laneChains fun clip member => ?_
  rw [Lane.segments_clips, Lane.mem_order] at member
  exact List.mem_filter.mp member

theorem Video.assemble?_wellFormed {clips : List (PlacedClip α)} {total : α} {side : Side α}
    {size : Resolution} (assembled : Video.assemble? clips total = some (side, size))
    (distinct : (clips.map (·.index)).Nodup) : side.WellFormed .video clips := by
  rw [Video.assemble?_eq_some assembled]
  refine joined_wellFormed (Video.leaf_lane _ clips total) ?_ ?_ (fun _ => rfl) (fun _ => rfl)
  · exact Video.outputs_lane_nodup _ _ distinct
  · intro isLeaf
    exact Video.concat_ne (Video.initial_laneChains isLeaf) rfl

end Picture

/-- No label belongs to both sides. -/
theorem names_apart {label : Label} (sound : Audio.Names label) (picture : Video.Names label) :
    False := by
  rcases sound with isA | rfl
  · rcases picture with isV | isB | rfl
    · rw [isA] at isV
      cases isV
    · rw [isA] at isB
      cases isB
    · exact absurd isA (by decide)
  · rcases picture with isV | isB | isConcat
    · exact absurd isV (by decide)
    · exact absurd isB (by decide)
    · exact absurd isConcat (by decide)

end Compile

end Montage
