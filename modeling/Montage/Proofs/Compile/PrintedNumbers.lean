import Montage.Proofs.Compile.Retiming
import Montage.Proofs.Export.Arguments
import Montage.Proofs.Graph.Parts
import Montage.Proofs.Number.Reciprocal
import Montage.Proofs.Timeline.FiniteGaps

/-!
Contract: when the numbers of an export command can be used as they are printed.

Whatever compiles has finite trims and gains, and tempo factors that stay legal
when they are cut to six places. A length may be infinite or cut to zero, and so
may be the reciprocal of a speed. `printsSound_iff` says that nothing else goes
wrong: the numbers of a command are sound exactly when its length is neither,
and no picture is slowed down or sped up beyond what six places can say.

Owns: sound commands, and the exact condition for them.
Does not own: what a printed number is read back as, in `Proofs.Number.Printing`.
-/

namespace Montage

open Montage.Number
open Montage.Number.Binary64
open Montage.Media
open Montage.Graph
open Montage.Compile (Resolution)
open Montage.Export (Plan)
open Montage.Speed (valueOf IsLegal)

/-! ## Sound numbers -/

/-- The ranges of printed numbers that the engine demands. -/
def Graph.Filter.InRange : Graph.Filter Float → Prop
  | .setPts (.scale factor) => IsPositiveDecimal (fixed 6 factor)
  | .tempo factor => ∃ v, textValue? (fixed 6 factor) = some v ∧ IsLegal v
  | .black _ _ duration _ => IsPositiveDecimal (fixed 6 duration)
  | _ => True

/-- All numbers of the command of an export are finite decimals, and in range as they are printed. -/
structure Compiled.PrintsSound (compiled : Compiled Float) : Prop where
  rendered : compiled.graph.text? = some (Part.joined compiled.graph.parts)
  decimals : ∀ number ∈ Part.numbers compiled.graph.parts, IsDecimal number
  inRange : ∀ chain ∈ compiled.graph.chains, ∀ stage ∈ chain.filters, stage.InRange
  length : ∀ destination program, ∃ front length,
    (Plan.mk compiled destination).command program =
      .ok ⟨program, front ++ ["-t", length, destination]⟩ ∧ IsPositiveDecimal length

/-- The length is finite, and more than half of the last place it is printed with. -/
def Compiled.LengthPrintable (compiled : Compiled Float) : Prop :=
  compiled.duration.isFinite = true ∧ 1 / 2000000 < valueOf compiled.duration

/-- A film shows no picture whose timestamps would be stretched to nothing or without end. -/
def Timeline.StretchesPrintable (timeline : Timeline Float) (catalog : IdMap (Asset Float)) :
    Prop :=
  timeline.format = .mp4 → ∀ clip ∈ timeline.clips, ∀ asset,
    IdMap.get? clip.fileId catalog = some asset → asset.hasVideo = true →
      (2 : Rat) ^ (-1024 : Int) < valueOf clip.speed ∧ valueOf clip.speed < 2000000

/-! ## Stages -/

/-- A speed that counts as one is not far from one. -/
theorem Speed.near_of_isUnity {speed : Float} (isPositive : IsPositive speed)
    (unity : isUnity speed = true) : |(ofFloat speed).value - 1| < 1 / 2 := by
  have half : Representable (1 / 2) := by
    have kept : Representable ((1 : Nat) * 2 ^ (-1 : Int)) :=
      representable_grid (by decide) (by decide) (by decide)
    norm_num at kept ⊢
    exact kept
  have oneValue : (ofFloat 1.0).value = 1 := valueOf_one
  have finite : (speed - 1.0).isFinite = true :=
    isFinite_sub isPositive.1 (by decide) isPositive.2.le (by rw [oneValue]; norm_num)
  have rounds := signedRounds_sub isPositive.1 (by decide : (1.0 : Float).isFinite = true)
  rw [oneValue] at rounds
  by_contra far
  have reached := rounds.le_abs finite half (not_lt.mp far)
  have tolerated : ofFloat (tolerance : Float) = .finite false 4611686018427388 (-62) := by
    decide +kernel
  have near : magnitude (speed - 1.0) < (tolerance : Float) := of_decide_eq_true unity
  rw [lt_iff_value_lt (isFinite_iff.mp (isFinite_magnitude finite)) (by rw [tolerated]; rfl),
    value_magnitude finite, value_of_decoded tolerated] at near
  norm_num at near
  linarith

/-- A positive speed has a printable stretch, or none, exactly when its reciprocal is printable. -/
theorem Compile.Video.stretch_inRange_iff {speed : Float} (isPositive : IsPositive speed) :
    (∀ stage ∈ Video.stretch? speed, stage.InRange) ↔
      (2 : Rat) ^ (-1024 : Int) < valueOf speed ∧ valueOf speed < 2000000 := by
  cases unity : Speed.isUnity speed with
  | true =>
      have near := abs_lt.mp (Speed.near_of_isUnity isPositive unity)
      have tiny : (2 : Rat) ^ (-1024 : Int) < 1 / 2 := by
        calc (2 : Rat) ^ (-1024 : Int) < 2 ^ (-1 : Int) :=
              zpow_lt_zpow_right₀ one_lt_two (by decide)
          _ = 1 / 2 := by norm_num
      refine iff_of_true (by simp [Video.stretch?, unity]) ?_
      unfold valueOf
      constructor <;> linarith
  | false =>
      rw [valueOf, ← isPositive.printable_reciprocal_iff]
      simp [Video.stretch?, unity, Graph.Filter.InRange]

/-- A stage whose numbers are finite and, as they are printed, in range. -/
def Graph.Filter.IsSound (stage : Graph.Filter Float) : Prop :=
  (∀ x ∈ stage.reals, x.isFinite = true) ∧ stage.InRange

theorem isFinite_of_value_pos {x : Float} (positive : 0 < (ofFloat x).value) :
    x.isFinite = true := by
  rw [isFinite_iff]
  cases decoded : ofFloat x with
  | finite negative m e => rfl
  | _ =>
      rw [decoded] at positive
      exact absurd positive (lt_irrefl 0)

theorem Speed.sound_tempo {speed factor : Float} (isPositive : IsPositive speed)
    (stage : factor ∈ stages speed) : (Graph.Filter.tempo factor).IsSound := by
  have legal : IsLegal (valueOf factor) :=
    (exactRetiming_float.decomposed isPositive).legal factor stage
  obtain ⟨low, high⟩ := legal
  unfold valueOf at low high
  have finite : factor.isFinite = true := isFinite_of_value_pos (by linarith)
  have lowest : ((500000 : Nat) : Rat) / 10 ^ 6 = 1 / 2 := by norm_num
  have highest : ((2000000 : Nat) : Rat) / 10 ^ 6 = 2 := by norm_num
  obtain ⟨v, reading, above, below⟩ := exists_textValue_fixed 6 finite
    (lowest.trans_le low) (high.trans_eq highest.symm) (by decide)
  refine ⟨by simpa [Graph.Filter.reals] using finite, v, reading, ?_, ?_⟩
  · exact lowest.ge.trans above
  · exact below.trans highest.le

/-- A wide gap is printed above zero. -/
theorem sound_black {gap : Float} (finite : gap.isFinite = true)
    (wide : (gapTolerance : Float) < gap) (width height rate : Nat) :
    (Graph.Filter.black width height gap rate).IsSound := by
  have tolerated : ofFloat (gapTolerance : Float) = .finite false 5764607523034235 (-59) := by
    decide +kernel
  rw [lt_iff_value_lt (by rw [tolerated]; rfl) (isFinite_iff.mp finite),
    value_of_decoded tolerated] at wide
  norm_num at wide
  exact ⟨by simpa [Graph.Filter.reals] using finite,
    isPositiveDecimal_fixed_iff.mpr ⟨finite, by linarith⟩⟩

theorem sound_whole {stage : Graph.Filter Float} (none : stage.reals = [])
    (inRange : stage.InRange) : stage.IsSound := by
  refine ⟨?_, inRange⟩
  rw [none]
  exact List.forall_mem_nil _

/-! ## Chains -/

section Chains

variable {clip : PlacedClip Float} {size : Resolution}

theorem isFinite_gain (valid : clip.Valid) : (clip.volume / unityVolume).isFinite = true := by
  have unity : ofFloat (unityVolume : Float) = .finite false 7036874417766400 (-46) := by
    decide +kernel
  exact isFinite_div (nonneg_of_isCount valid.volume).1 unity (by norm_num)

/-- The sound of a valid clip has sound stages, however fast it is. -/
theorem Compile.Audio.sound_clipChain (valid : clip.Valid) :
    ∀ stage ∈ (Audio.clipChain clip).filters, stage.IsSound := by
  intro stage member
  simp only [Audio.clipChain, List.cons_append, List.nil_append, List.mem_cons, List.mem_append,
    Option.mem_toList] at member
  rcases member with rfl | rfl | (retimed | delayed) | amplified
  · have start := (nonneg_of_isCount valid.trimStart).1
    have finish : clip.trimEnd.isFinite = true := valid.trimEnd.1
    exact ⟨by simp [Graph.Filter.reals, start, finish], trivial⟩
  · exact sound_whole rfl trivial
  · obtain ⟨factor, isStage, rfl⟩ := List.mem_map.mp retimed
    exact Speed.sound_tempo valid.isPositive_speed isStage
  · simp only [Audio.delay?, Option.ite_none_right_eq_some, Option.some.injEq] at delayed
    obtain ⟨_, rfl⟩ := delayed
    exact sound_whole rfl trivial
  · simp only [Audio.gain?, Option.ite_none_left_eq_some, Option.some.injEq] at amplified
    obtain ⟨_, rfl⟩ := amplified
    exact ⟨by simpa [Graph.Filter.reals] using isFinite_gain valid, trivial⟩

/-- The picture of a valid clip has sound stages as long as its stretch is printable. -/
theorem Compile.Video.sound_clipChain (valid : clip.Valid)
    (printable : ∀ stage ∈ stretch? clip.speed, stage.InRange) :
    ∀ stage ∈ (Video.clipChain size clip).filters, stage.IsSound := by
  intro stage member
  simp only [Video.clipChain, List.cons_append, List.nil_append, List.mem_cons, List.mem_append,
    Option.mem_toList, List.not_mem_nil, or_false] at member
  rcases member with rfl | rfl | stretched | rfl | rfl | rfl
  · have start := (nonneg_of_isCount valid.trimStart).1
    have finish : clip.trimEnd.isFinite = true := valid.trimEnd.1
    exact ⟨by simp [Graph.Filter.reals, start, finish], trivial⟩
  · exact sound_whole rfl trivial
  · have inRange := printable stage stretched
    simp only [Video.stretch?, Option.ite_none_left_eq_some, Option.some.injEq] at stretched
    obtain ⟨_, rfl⟩ := stretched
    exact ⟨by simpa [Graph.Filter.reals] using (isPositiveDecimal_fixed_iff.mp inRange).1, inRange⟩
  · exact sound_whole rfl trivial
  · exact sound_whole rfl trivial
  · exact sound_whole rfl trivial

theorem Compile.Video.sound_fillerChain {gap : Float} (finite : gap.isFinite = true)
    (wide : (gapTolerance : Float) < gap) (ordinal : Nat) :
    ∀ stage ∈ (Video.fillerChain size ordinal gap).filters, stage.IsSound := by
  intro stage member
  rcases List.mem_pair.mp member with rfl | rfl
  · exact sound_black finite wide _ _ _
  · exact sound_whole rfl trivial

end Chains

/-! ## Graphs -/

section Graphs

variable {timeline : Timeline Float} {catalog : IdMap (Asset Float)} {clips : List (PlacedClip Float)}
  {inputs : List String} {compiled : Compiled Float}

/-- Valid clips make a graph of sound stages when length and stretches are printable. -/
theorem assemble_sound (assembled : assemble timeline clips inputs = .ok compiled)
    (valid : ∀ clip ∈ clips, clip.Valid) (printable : compiled.LengthPrintable)
    (stretches : timeline.format = .mp4 → ∀ clip ∈ clips, clip.hasVideo = true →
      ∀ stage ∈ Compile.Video.stretch? clip.speed, stage.InRange) :
    ∀ chain ∈ compiled.graph.chains, ∀ stage ∈ chain.filters, stage.IsSound := by
  intro chain isChain stage isStage
  obtain ⟨-, chains, -⟩ := assemble_eq_ok assembled
  rw [chains] at isChain
  rcases List.mem_append.mp isChain with inSound | inPicture
  · rcases Compile.mem_joined_cases inSound with isClip | rfl
    · obtain ⟨clip, heard, rfl⟩ := List.mem_map.mp isClip
      exact Compile.Audio.sound_clipChain (valid clip (List.mem_filter.mp heard).1) stage isStage
    · rw [List.mem_singleton.mp isStage]
      exact sound_whole rfl trivial
  · obtain ⟨film, size, inSide⟩ := mem_pictureSide inPicture
    rcases Compile.mem_joined_cases inSide with inLane | rfl
    · have validSeen : ∀ clip ∈ clips.filter (·.hasVideo), clip.Valid :=
        fun clip seen => valid clip (List.mem_filter.mp seen).1
      rcases Compile.Video.mem_laneChains inLane with ⟨clip, listed, rfl⟩ | ⟨_, gap, -, listed, rfl⟩
      · have ordered : clip ∈ Lane.order (clips.filter (·.hasVideo)) := by
          rw [← Lane.segments_clips]
          exact List.mem_filterMap.mpr ⟨_, listed, rfl⟩
        obtain ⟨member, seen⟩ := List.mem_filter.mp (Lane.mem_order.mp ordered)
        exact Compile.Video.sound_clipChain (valid clip member) (stretches film clip member seen)
          stage isStage
      · obtain ⟨lengthFinite, lengthPositive⟩ := printable
        rw [assemble_duration assembled] at lengthFinite lengthPositive
        have nonneg : 0 ≤ valueOf (timelineDuration clips timeline.durationOverride?) :=
          le_trans (by norm_num) lengthPositive.le
        obtain ⟨finite, wide⟩ := Lane.isFinite_filler validSeen lengthFinite nonneg listed
        exact Compile.Video.sound_fillerChain finite wide _ stage isStage
    · rw [List.mem_singleton.mp isStage]
      exact sound_whole rfl trivial

/-- The pictures of a film are printable when those of its placed clips are. -/
theorem stretchesPrintable_iff {files : List (FileId × String)}
    (resolved : Resolved catalog files 0 timeline.clips clips) :
    timeline.StretchesPrintable catalog ↔
      (timeline.format = .mp4 → ∀ clip ∈ clips, clip.hasVideo = true →
        ∀ stage ∈ Compile.Video.stretch? clip.speed, stage.InRange) := by
  refine imp_congr_right fun _ => ⟨fun printable placed member seen => ?_, ?_⟩
  · have isPositive := (resolved.valid_of_mem member).isPositive_speed
    rw [Compile.Video.stretch_inRange_iff isPositive]
    obtain ⟨clip, listed, _, asset, _, known, -, -, rfl⟩ := resolved.exists_of_mem member
    exact printable clip listed asset known seen
  · intro inRange clip listed asset known seen
    obtain ⟨position, here⟩ := List.mem_iff_getElem?.mp listed
    obtain ⟨placed, member, other, _, found, -, -, rfl⟩ := resolved.exists_placed here
    obtain rfl : asset = other := Option.some.inj (known.symm.trans found)
    have isPositive := (resolved.valid_of_mem member).isPositive_speed
    exact (Compile.Video.stretch_inRange_iff isPositive).mp (inRange _ member seen)

theorem Compiled.lengthPrintable_iff (compiled : Compiled Float) :
    compiled.LengthPrintable ↔ IsPositiveDecimal (fixed 6 compiled.duration) := by
  rw [isPositiveDecimal_fixed_iff]
  refine and_congr_right fun _ => ?_
  rw [valueOf, div_lt_iff₀ (by norm_num), div_lt_iff₀ (by norm_num)]
  constructor <;> intro above <;> linarith

/-- The command of an export ends with the length and the destination. -/
theorem exists_commanded (accepted : compile timeline catalog = .ok compiled)
    (destination : String) (program : Option String) :
    ∃ front, (Plan.mk compiled destination).command program =
      .ok ⟨program, front ++ ["-t", fixed 6 compiled.duration, destination]⟩ := by
  obtain ⟨command, commanded⟩ := exists_command accepted destination program
  obtain ⟨graph, rendered⟩ := (compile_wellFormed accepted).exists_text
  obtain rfl := command_eq rendered commanded
  exact ⟨_, commanded⟩

/-- The numbers of a command are sound exactly when the length and all stretches are printable. -/
theorem printsSound_iff (accepted : compile timeline catalog = .ok compiled) :
    compiled.PrintsSound ↔ compiled.LengthPrintable ∧ timeline.StretchesPrintable catalog := by
  obtain ⟨clips, files, placed, assembled⟩ := compile_eq_ok accepted
  obtain ⟨-, -, resolved⟩ := placeClips_eq_ok placed
  rw [stretchesPrintable_iff resolved]
  constructor
  · intro sound
    constructor
    · obtain ⟨front, length, commanded, positive⟩ := sound.length "" none
      obtain ⟨otherFront, other⟩ := exists_commanded accepted "" none
      rw [other] at commanded
      simp only [Except.ok.injEq, Export.Command.mk.injEq, true_and] at commanded
      obtain ⟨-, same⟩ := List.append_inj' commanded rfl
      simp only [List.cons.injEq, true_and, and_true] at same
      rw [Compiled.lengthPrintable_iff, same]
      exact positive
    · intro film clip member seen stage stretched
      obtain ⟨size, isChain⟩ := pictureChain_mem assembled film member seen
      refine sound.inRange _ isChain stage ?_
      simp only [Compile.Video.clipChain, List.mem_append, Option.mem_toList]
      exact Or.inl (Or.inr stretched)
  · rintro ⟨printable, stretches⟩
    have stages := assemble_sound assembled (fun _ member => resolved.valid_of_mem member) printable
      stretches
    refine ⟨?_, ?_, fun chain isChain stage isStage => (stages chain isChain stage isStage).2, ?_⟩
    · obtain ⟨text, rendered⟩ := (compile_wellFormed accepted).exists_text
      rw [rendered, FilterGraph.text?_eq_joined rendered]
    · exact FilterGraph.decimals fun chain isChain stage isStage =>
        (stages chain isChain stage isStage).1
    · intro destination program
      obtain ⟨front, commanded⟩ := exists_commanded accepted destination program
      exact ⟨front, _, commanded, compiled.lengthPrintable_iff.mp printable⟩

theorem narratedScene_prints_sound : ∃ compiled,
    compile narratedScene [(scene.id, scene), (voice.id, voice)] = .ok compiled ∧
      compiled.PrintsSound := by
  have result : (compile narratedScene [(scene.id, scene), (voice.id, voice)]).map
      (fun compiled => ofFloat compiled.duration) = .ok (.finite false 6755399441055744 (-50)) := by
    decide +kernel
  obtain ⟨compiled, accepted, decoded⟩ := exists_compiled result
  refine ⟨compiled, accepted,
    (printsSound_iff accepted).mpr ⟨⟨isFinite_of_decoded decoded, ?_⟩, ?_⟩⟩
  · rw [valueOf, value_of_decoded decoded]
    norm_num
  · intro _ clip listed _ _ _
    have fullOrDouble : valueOf clip.speed = 1 ∨ valueOf clip.speed = 2 := by
      simp only [narratedScene, List.mem_cons, List.not_mem_nil, or_false] at listed
      rcases listed with rfl | rfl | rfl
      · exact Or.inl Speed.valueOf_one
      · exact Or.inr value_two
      · exact Or.inl Speed.valueOf_one
    have tiny : (2 : Rat) ^ (-1024 : Int) < 1 := zpow_lt_one_of_neg₀ one_lt_two (by decide)
    rcases fullOrDouble with same | same <;> rw [same]
    · exact ⟨tiny, by norm_num⟩
    · exact ⟨tiny.trans one_lt_two, by norm_num⟩

/-- The scene, four million times as fast as it was taken. -/
def rushedScene : Timeline Float where
  clips := [⟨scene.id, 0.0, none, none, 4000000.0, 100.0, 0⟩]
  duration := none
  format := .mp4

/-- A speed that validation lets pass, and that the tempo stages of the sound can be split into, makes
every timestamp of the picture zero. -/
theorem rushedScene_stands_still : ∃ compiled,
    compile rushedScene [(scene.id, scene)] = .ok compiled ∧
      (∃ chain ∈ compiled.graph.chains, ∃ stage ∈ chain.filters,
        stage.text = "setpts=0.000000*PTS") ∧
      ¬ compiled.PrintsSound := by
  have result : (compile rushedScene [(scene.id, scene)]).map (fun compiled =>
      compiled.graph.chains.any fun chain =>
        chain.filters.contains (.setPts (.scale (1.0 / 4000000.0)))) = .ok true := by
    decide +kernel
  have printed : fixed 6 (1.0 / 4000000.0) = "0.000000" := by decide +kernel
  obtain ⟨compiled, accepted, stretched⟩ := exists_compiled result
  obtain ⟨chain, isChain, inChain⟩ := List.any_eq_true.mp stretched
  have isStage := List.contains_iff_mem.mp inChain
  refine ⟨compiled, accepted, ⟨chain, isChain, _, isStage, ?_⟩, fun sound => ?_⟩
  · show "setpts=" ++ (fixed 6 (1.0 / 4000000.0) ++ "*PTS") = _
    rw [printed]
    rfl
  · obtain ⟨v, reading, positive⟩ := sound.inRange chain isChain _ isStage
    have zero : textValue? "0.000000" = some 0 := by decide +kernel
    rw [printed, zero, Option.some.injEq] at reading
    exact absurd positive (reading ▸ lt_irrefl 0)

end Graphs

end Montage
