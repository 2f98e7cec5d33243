import Mathlib.Data.List.SplitBy
import Montage.Proofs.Timeline.Accounting

/-!
Contract: the lane of clips that stand end to end.

Clips with a picture stay in their order, and clips without one leave gaps. What
stands between two pictures is a maximal run of clips without one, and the gap
it leaves is as long as the run plays.

Owns: clips end to end, runs, and the lane of a list of runs.
Does not own: which timelines have such clips, in `Proofs.Compile.Seamless`.
-/

namespace Montage.Lane

open Montage.Number

/-! ## Clips end to end -/

/-- Each clip starts where the one before it ends, from one time to another, and plays for some
time. -/
def EndToEnd : Rat → List (PlacedClip Rat) → Rat → Prop
  | start, [], stop => start = stop
  | start, clip :: rest, stop =>
    clip.offset = start ∧ 0 < clip.effectiveDuration ∧ EndToEnd clip.finish rest stop

/-- How long clips play one after another. -/
def playedBy (clips : List (PlacedClip Rat)) : Rat := (clips.map (·.effectiveDuration)).sum

theorem playedBy_cons (clip : PlacedClip Rat) (rest : List (PlacedClip Rat)) :
    playedBy (clip :: rest) = clip.effectiveDuration + playedBy rest := by
  rw [playedBy, List.map_cons, List.sum_cons, playedBy]

namespace EndToEnd

variable {start stop : Rat} {clip : PlacedClip Rat} {clips front rest : List (PlacedClip Rat)}

theorem lt_finish (endToEnd : EndToEnd start (clip :: rest) stop) : start < clip.finish := by
  obtain ⟨rfl, positive, _⟩ := endToEnd
  exact lt_add_of_pos_right _ positive

theorem stop_eq (endToEnd : EndToEnd start clips stop) : stop = start + playedBy clips := by
  induction clips generalizing start with
  | nil =>
      obtain rfl : start = stop := endToEnd
      simp [playedBy]
  | cons clip rest inductionHypothesis =>
      obtain ⟨rfl, _, behind⟩ := endToEnd
      rw [inductionHypothesis behind, playedBy_cons, PlacedClip.finish]
      ring

theorem append_iff :
    EndToEnd start (front ++ rest) stop ↔
      ∃ middle, EndToEnd start front middle ∧ EndToEnd middle rest stop := by
  induction front generalizing start with
  | nil => simp [EndToEnd]
  | cons clip front inductionHypothesis =>
      simp only [List.cons_append, EndToEnd, inductionHypothesis]
      constructor
      · rintro ⟨starts, positive, middle, first, second⟩
        exact ⟨middle, ⟨starts, positive, first⟩, second⟩
      · rintro ⟨middle, ⟨starts, positive, first⟩, second⟩
        exact ⟨starts, positive, middle, first, second⟩

theorem start_le_offset (endToEnd : EndToEnd start clips stop) (member : clip ∈ clips) :
    start ≤ clip.offset := by
  induction clips generalizing start with
  | nil => cases member
  | cons first rest inductionHypothesis =>
      have forward := endToEnd.lt_finish
      obtain ⟨rfl, _, behind⟩ := endToEnd
      rcases List.mem_cons.mp member with rfl | later
      · exact le_refl _
      · exact forward.le.trans (inductionHypothesis behind later)

theorem increasing (endToEnd : EndToEnd start clips stop) :
    clips.Pairwise fun x y => x.offset < y.offset := by
  induction clips generalizing start with
  | nil => exact List.Pairwise.nil
  | cons first rest inductionHypothesis =>
      have forward := endToEnd.lt_finish
      obtain ⟨rfl, _, behind⟩ := endToEnd
      refine List.Pairwise.cons ?_ (inductionHypothesis behind)
      intro later member
      exact forward.trans_le (behind.start_le_offset member)

/-- The last clip ends last. -/
theorem foldl_larger (endToEnd : EndToEnd start clips stop) :
    clips.foldl (fun latest clip => larger latest clip.finish) start = stop := by
  induction clips generalizing start with
  | nil => exact endToEnd
  | cons first rest inductionHypothesis =>
      have forward := endToEnd.lt_finish
      obtain ⟨_, _, behind⟩ := endToEnd
      rw [List.foldl_cons, larger, if_pos forward]
      exact inductionHypothesis behind

end EndToEnd

/-- Clips that start one after another are in lane order already. -/
theorem order_of_increasing {clips : List (PlacedClip Rat)}
    (increasing : clips.Pairwise fun x y => x.offset < y.offset) : order clips = clips := by
  induction clips with
  | nil => rfl
  | cons first rest inductionHypothesis =>
      obtain ⟨before, restIncreasing⟩ := List.pairwise_cons.mp increasing
      have ordered : order (first :: rest) = insert first rest :=
        congrArg (insert first) (inductionHypothesis restIncreasing)
      rw [ordered]
      cases rest with
      | nil => rfl
      | cons second others =>
          have earlier := before second List.mem_cons_self
          have inOrder : notAfter first second = true := by
            rw [notAfter_iff, notAfter_rat_iff, notAfter_rat_iff]
            exact ⟨earlier.le, fun backward => absurd earlier (not_lt.mpr backward)⟩
          rw [insert, if_pos inOrder]

/-! ## Runs -/

/-- Cuts clips into maximal runs with a picture and without one. -/
def runs (clips : List (PlacedClip Rat)) : List (List (PlacedClip Rat)) :=
  clips.splitBy fun x y => x.hasVideo == y.hasVideo

/-- A run with a picture is laid clip by clip; one without leaves a gap as long as it plays. -/
def runSegments (run : List (PlacedClip Rat)) : List (Segment Rat) :=
  if run.any (·.hasVideo) then run.map .clip else bridge (playedBy run)

/-- All clips of a run have a picture, or none has. -/
def IsRun (hasVideo : Bool) (run : List (PlacedClip Rat)) : Prop :=
  run ≠ [] ∧ ∀ clip ∈ run, clip.hasVideo = hasVideo

/-- Runs with a picture and runs without one take turns. -/
def Alternate : List (List (PlacedClip Rat)) → Prop
  | [] => True
  | run :: rest =>
    ∃ hasVideo, IsRun hasVideo run ∧ (∀ next ∈ rest.head?, IsRun (!hasVideo) next) ∧ Alternate rest

theorem isRun_of_isChain {first : PlacedClip Rat} {rest : List (PlacedClip Rat)}
    (chain : (first :: rest).IsChain fun x y => (x.hasVideo == y.hasVideo) = true) :
    IsRun first.hasVideo (first :: rest) := by
  refine ⟨List.cons_ne_nil _ _, ?_⟩
  induction rest generalizing first with
  | nil => simp
  | cons second rest inductionHypothesis =>
      obtain ⟨same, behind⟩ := List.isChain_cons_cons.mp chain
      have sameVideo : first.hasVideo = second.hasVideo := eq_of_beq same
      intro clip member
      rcases List.mem_cons.mp member with rfl | later
      · rfl
      · rw [sameVideo]
        exact inductionHypothesis behind clip later

theorem alternate_runs (clips : List (PlacedClip Rat)) : Alternate (runs clips) := by
  have isRun : ∀ run ∈ runs clips, ∃ hasVideo, IsRun hasVideo run := by
    intro run member
    obtain ⟨first, rest, rfl⟩ := List.exists_cons_of_ne_nil (List.ne_nil_of_mem_splitBy member)
    exact ⟨_, isRun_of_isChain (List.isChain_of_mem_splitBy member)⟩
  have turns := List.isChain_getLast_head_splitBy
    (fun x y : PlacedClip Rat => x.hasVideo == y.hasVideo) clips
  rw [← runs] at turns
  generalize runs clips = all at isRun turns
  induction all with
  | nil => trivial
  | cons run rest inductionHypothesis =>
      obtain ⟨hasVideo, here⟩ := isRun run List.mem_cons_self
      have behind := inductionHypothesis
        (fun later member => isRun later (List.mem_cons_of_mem run member)) turns.tail
      refine ⟨hasVideo, here, ?_, behind⟩
      intro next isNext
      obtain ⟨others, rfl⟩ : ∃ others, rest = next :: others := by
        cases rest with
        | nil => cases isNext
        | cons head others =>
            cases isNext
            exact ⟨others, rfl⟩
      obtain ⟨video, nextRun⟩ := isRun next (by simp)
      obtain ⟨filled, nextFilled, differ⟩ := (List.isChain_cons_cons.mp turns).1
      rw [here.2 _ (List.getLast_mem filled), nextRun.2 _ (List.head_mem nextFilled)] at differ
      have turned : video = !hasVideo := by
        cases video <;> cases hasVideo <;> simp_all
      rw [← turned]
      exact nextRun

/-! ## Laying runs -/

section Laying

variable {start stop total : Rat} {run rest : List (PlacedClip Rat)}

theorem bridge_sub_self (time : Rat) : bridge (time - time) = [] := by
  rw [sub_self, bridge, if_pos (by norm_num)]

theorem lay_nil_self (time : Rat) : lay time time [] = [] := by
  rw [lay, fill_eq_bridge, bridge_sub_self]

/-- Clips laid from where the first of them starts leave no gap. -/
theorem lay_endToEnd (endToEnd : EndToEnd start run stop) :
    lay total start (run ++ rest) = run.map .clip ++ lay total stop rest := by
  induction run generalizing start with
  | nil =>
      obtain rfl : start = stop := endToEnd
      rfl
  | cons clip others inductionHypothesis =>
      obtain ⟨rfl, _, behind⟩ := endToEnd
      rw [List.cons_append, lay, fill_eq_bridge, bridge_sub_self, inductionHypothesis behind]
      rfl

/-- Laying from an earlier position adds the gap up to where the next picture starts. -/
theorem lay_earlier (endToEnd : EndToEnd start rest total)
    (seen : ∀ clip ∈ rest.head?, clip.hasVideo = true) (position : Rat) :
    lay total position (rest.filter (·.hasVideo)) =
      bridge (start - position) ++ lay total start (rest.filter (·.hasVideo)) := by
  cases rest with
  | nil =>
      obtain rfl : start = total := endToEnd
      rw [List.filter_nil, lay_nil_self, lay, fill_eq_bridge, List.append_nil]
  | cons clip others =>
      obtain ⟨rfl, _, _⟩ := endToEnd
      rw [List.filter_cons_of_pos (seen clip rfl), lay, lay, fill_eq_bridge, fill_eq_bridge,
        bridge_sub_self]
      rfl

theorem runSegments_of_isRun_true (isRun : IsRun true run) : runSegments run = run.map .clip := by
  obtain ⟨clip, others, rfl⟩ := List.exists_cons_of_ne_nil isRun.1
  have seen : (clip :: others).any (·.hasVideo) = true :=
    List.any_eq_true.mpr ⟨clip, List.mem_cons_self, isRun.2 clip List.mem_cons_self⟩
  rw [runSegments, if_pos seen]

theorem runSegments_of_isRun_false (isRun : IsRun false run) :
    runSegments run = bridge (playedBy run) := by
  have unseen : ¬ run.any (·.hasVideo) = true := by
    rw [List.any_eq_true]
    rintro ⟨clip, member, seen⟩
    rw [isRun.2 clip member] at seen
    cases seen
  rw [runSegments, if_neg unseen]

/-- The lane of runs that take turns, end to end, is what the runs leave one after another. -/
theorem lay_runs {all : List (List (PlacedClip Rat))} (alternate : Alternate all)
    (endToEnd : EndToEnd start all.flatten total) :
    lay total start (all.flatten.filter (·.hasVideo)) = all.flatMap runSegments := by
  induction all generalizing start with
  | nil =>
      obtain rfl : start = total := endToEnd
      exact lay_nil_self start
  | cons run rest inductionHypothesis =>
      obtain ⟨hasVideo, isRun, next, behind⟩ := alternate
      rw [List.flatten_cons] at endToEnd ⊢
      obtain ⟨middle, here, later⟩ := EndToEnd.append_iff.mp endToEnd
      have laid := inductionHypothesis behind later
      rw [List.filter_append, List.flatMap_cons]
      cases hasVideo with
      | true =>
          have whole : run.filter (·.hasVideo) = run := List.filter_eq_self.mpr isRun.2
          rw [whole, lay_endToEnd here, laid, runSegments_of_isRun_true isRun]
      | false =>
          have nothing : run.filter (·.hasVideo) = [] := by
            apply List.filter_eq_nil_iff.mpr
            intro clip member
            simp [isRun.2 clip member]
          have seen : ∀ clip ∈ rest.flatten.head?, clip.hasVideo = true := by
            intro clip isFirst
            cases rest with
            | nil => cases isFirst
            | cons second others =>
                obtain ⟨filled, pictured⟩ := next second rfl
                obtain ⟨first, more, rfl⟩ := List.exists_cons_of_ne_nil filled
                cases isFirst
                exact pictured clip List.mem_cons_self
          have length : middle - start = playedBy run := by
            rw [here.stop_eq]
            ring
          rw [nothing, List.nil_append, lay_earlier later seen, laid, length,
            runSegments_of_isRun_false isRun]

end Laying

/-- What the lane of clips end to end consists of. -/
theorem segments_endToEnd {clips : List (PlacedClip Rat)} {total : Rat}
    (endToEnd : EndToEnd 0 clips total) :
    segments (clips.filter (·.hasVideo)) total = (runs clips).flatMap runSegments := by
  have joined : (runs clips).flatten = clips := List.flatten_splitBy _ clips
  have increasing := endToEnd.increasing.filter (·.hasVideo)
  have laid := lay_runs (alternate_runs clips) (joined.symm ▸ endToEnd)
  rw [joined] at laid
  rw [segments_eq_lay, order_of_increasing increasing, laid]

/-- Pictures end to end leave nothing to fill. -/
theorem segments_of_pictures {clips : List (PlacedClip Rat)} {total : Rat}
    (endToEnd : EndToEnd 0 clips total) : segments clips total = clips.map .clip := by
  have laid : lay total 0 (clips ++ []) = clips.map .clip ++ lay total total [] :=
    lay_endToEnd endToEnd
  rw [List.append_nil, lay_nil_self, List.append_nil] at laid
  rw [segments_eq_lay, order_of_increasing endToEnd.increasing, laid]

theorem lastFinish_endToEnd {clips : List (PlacedClip Rat)} {total : Rat}
    (endToEnd : EndToEnd 0 clips total) : lastFinish clips = total := by
  have zero : (0.0 : Rat) = 0 := by norm_num
  rw [lastFinish, zero]
  exact endToEnd.foldl_larger

end Montage.Lane
