import Mathlib.Data.List.Basic
import Mathlib.Data.List.TakeWhile
import Montage.Proofs.Text.Occurrences
import Montage.Text.Clock

/-!
Contract: which marker of a status line counts.

A line may say `time=` more than once, and what follows need not be a clock. The
search tries every place from the left, also places inside a token that was no
clock, and stops at the first clock. Markers never overlap, because no end of the
marker is a beginning of it, and a token ends at the first blank; so what stands
behind the token that was read has no say.

Owns: tokens, where a line is marked, and `leftmost_marker_wins`.
Does not own: which tokens are clocks.
-/

namespace Montage.Text

variable {line before after front rest text : List Char} {position : Float}

/-! ## Cutting a line at a marker -/

/-- Past its first character a marker holds no beginning of another one. -/
theorem no_overlap {index : Nat} (inside : 0 < index) (within : index < marker.length) :
    marker[index]? ≠ marker[0]? := by
  have all : ∀ index < marker.length, 0 < index → marker[index]? ≠ marker[0]? := by decide
  exact all index within inside

/-- A marker further left ends before the next one begins. -/
theorem exists_between {earlier later : List Char}
    (same : before ++ marker ++ after = earlier ++ marker ++ later)
    (left : earlier.length < before.length) :
    ∃ between, before = earlier ++ marker ++ between ∧ later = between ++ marker ++ after := by
  rw [List.append_assoc, List.append_assoc] at same
  rcases List.append_eq_append_iff.mp same with ⟨shared, isEarlier, -⟩ | ⟨shared, isBefore, behind⟩
  · rw [isEarlier, List.length_append] at left
    omega
  · have nonempty : 0 < shared.length := by
      rw [isBefore, List.length_append] at left
      omega
    rcases Nat.lt_or_ge shared.length marker.length with short | long
    · -- The later marker would begin inside the earlier one.
      have inEarlier : (marker ++ later)[shared.length]? = marker[shared.length]? :=
        List.getElem?_append_left short
      have inLater : (shared ++ (marker ++ after))[shared.length]? = marker[0]? := by
        rw [List.getElem?_append_right (Nat.le_refl _), Nat.sub_self]
        rfl
      rw [behind, inLater] at inEarlier
      exact absurd inEarlier.symm (no_overlap nonempty short)
    · have inShared : marker <+: shared :=
        List.prefix_of_prefix_length_le (List.prefix_append marker later)
          (behind ▸ List.prefix_append shared (marker ++ after)) long
      obtain ⟨between, rfl⟩ := inShared
      rw [List.append_assoc, List.append_cancel_left_eq] at behind
      refine ⟨between, ?_, ?_⟩
      · rw [isBefore, List.append_assoc]
      · rw [behind, List.append_assoc]

/-! ## Tokens -/

/-- A text without a blank. -/
def Visible (cs : List Char) : Prop := ∀ c ∈ cs, isBlank c = false

theorem Visible.append (first : Visible front) (second : Visible rest) : Visible (front ++ rest) :=
  List.forall_mem_append.mpr ⟨first, second⟩

theorem Visible.cons {c : Char} (first : isBlank c = false) (others : Visible rest) :
    Visible (c :: rest) :=
  List.forall_mem_cons.mpr ⟨first, others⟩

/-- A text that ends the token in front of it: nothing, or something behind a blank. -/
def EndsToken (rest : List Char) : Prop := ∀ c ∈ rest.head?, isBlank c = true

/-- A text begins with a clock: it has one up to its first blank, or up to its end. -/
inductive BeginsWithClock : List Char → Float → Prop where
  | intro {token rest : List Char} {position : Float} (visible : Visible token)
      (ends : EndsToken rest) (clock : readClock? token = some position) :
      BeginsWithClock (token ++ rest) position

/-- What stands behind the first blank is cut off. -/
theorem markedToken_append (visible : Visible front) (ends : EndsToken rest) :
    markedToken (front ++ rest) = front := by
  have none : rest.takeWhile (fun c => !isBlank c) = [] := by
    cases rest with
    | nil => rfl
    | cons c rest => simp [ends c rfl]
  rw [markedToken, List.takeWhile_append_of_pos fun c member => by simp [visible c member], none,
    List.append_nil]

theorem visible_markedToken (after : List Char) : Visible (markedToken after) :=
  fun c member => by simpa using List.mem_takeWhile_imp member

/-- A text is its token and something that ends it. -/
theorem exists_behind_token (after : List Char) :
    ∃ rest, after = markedToken after ++ rest ∧ EndsToken rest := by
  refine ⟨after.dropWhile fun c => !isBlank c, List.takeWhile_append_dropWhile.symm, ?_⟩
  intro c first
  have stops := List.head?_dropWhile_not (fun c => !isBlank c) after
  rw [Option.mem_def] at first
  simpa [first] using stops

theorem beginsWithClock_iff :
    BeginsWithClock after position ↔ readClock? (markedToken after) = some position := by
  constructor
  · rintro ⟨visible, ends, clock⟩
    rw [markedToken_append visible ends, clock]
  · intro clock
    obtain ⟨rest, split, ends⟩ := exists_behind_token after
    rw [split]
    exact .intro (visible_markedToken after) ends clock

theorem not_beginsWithClock_iff :
    (∀ position, ¬ BeginsWithClock after position) ↔ readClock? (markedToken after) = none := by
  simp only [beginsWithClock_iff, Option.eq_none_iff_forall_ne_some, ne_eq]

/-- What ends a token can be replaced. -/
theorem beginsWithClock_append_congr {others : List Char} (ends : EndsToken rest)
    (otherEnds : EndsToken others) :
    BeginsWithClock (front ++ rest) position ↔ BeginsWithClock (front ++ others) position := by
  obtain ⟨behind, split, endsBehind⟩ := exists_behind_token front
  have visible := visible_markedToken front
  have cut {rest : List Char} (ends : EndsToken rest) :
      markedToken (front ++ rest) = markedToken front := by
    have endsBoth : EndsToken (behind ++ rest) := by
      cases behind with
      | nil => exact ends
      | cons c behind => exact endsBehind
    conv_lhs => rw [split, List.append_assoc]
    exact markedToken_append visible endsBoth
  rw [beginsWithClock_iff, beginsWithClock_iff, cut ends, cut otherEnds]

/-! ## The search -/

/-- What is told at the front of a text: the clock behind a marker there. -/
def clockHere? (text : List Char) : Option Float :=
  (stripStart? marker text).bind fun after => readClock? (markedToken after)

theorem clockHere?_marker (after : List Char) :
    clockHere? (marker ++ after) = readClock? (markedToken after) := by
  rw [clockHere?, stripStart?_eq_some_iff.mpr rfl, Option.bind_some]

/-- One step of the search: the front of the text, and everything behind its first character. -/
theorem findMarker?_cons (c : Char) (rest : List Char) :
    findMarker? (c :: rest) = (clockHere? (c :: rest)).or (findMarker? rest) := by
  rw [findMarker?, ← clockHere?]
  cases clockHere? (c :: rest) <;> rfl

/-- A marker stands at the front of a text or behind its first character. -/
theorem marked_cons_iff {c : Char} :
    c :: rest = before ++ marker ++ after ↔
      before = [] ∧ c :: rest = marker ++ after ∨
        ∃ others, before = c :: others ∧ rest = others ++ marker ++ after := by
  cases before with
  | nil => simp
  | cons d others => simp [eq_comm]

theorem clockHere?_eq_none_iff : clockHere? text = none ↔
    ∀ after, text = marker ++ after → readClock? (markedToken after) = none := by
  simp only [clockHere?, Option.bind_eq_none_iff, stripStart?_eq_some_iff]

/-- Where no marker to the left is followed by a clock, the search comes to what is behind. -/
theorem findMarker?_append (none : ∀ earlier later, front ++ rest = earlier ++ marker ++ later →
    earlier.length < front.length → readClock? (markedToken later) = none) :
    findMarker? (front ++ rest) = findMarker? rest := by
  induction front with
  | nil => rfl
  | cons c front inductionHypothesis =>
      have atFront : clockHere? (c :: (front ++ rest)) = .none :=
        clockHere?_eq_none_iff.mpr fun later cut => none [] later cut (Nat.zero_lt_succ _)
      rw [List.cons_append, findMarker?_cons, atFront, Option.none_or]
      refine inductionHypothesis ?_
      intro earlier later cut left
      exact none (c :: earlier) later (congrArg (c :: ·) cut) (Nat.succ_lt_succ left)

/-- The search finds nothing exactly if no marker is followed by a clock. -/
theorem findMarker?_eq_none_iff : findMarker? line = none ↔
    ∀ before after, line = before ++ marker ++ after → readClock? (markedToken after) = none := by
  induction line with
  | nil =>
      refine iff_of_true rfl ?_
      intro before after cut
      have length := congrArg List.length cut
      simp [marker] at length
  | cons c rest inductionHypothesis =>
      rw [findMarker?_cons, Option.or_eq_none_iff, clockHere?_eq_none_iff, inductionHypothesis]
      constructor
      · rintro ⟨atFront, behind⟩ before after cut
        rcases marked_cons_iff.mp cut with ⟨-, here⟩ | ⟨others, -, later⟩
        · exact atFront after here
        · exact behind others after later
      · intro all
        refine ⟨fun after here => all [] after here, fun before after later => ?_⟩
        exact all (c :: before) after (congrArg (c :: ·) later)

/-- A place where a line is marked and a clock stands behind the marker, with no such place further
left. -/
structure LeftmostClock (line before after : List Char) (position : Float) : Prop where
  cut : line = before ++ "time=".toList ++ after
  clock : BeginsWithClock after position
  first : ∀ earlier later, line = earlier ++ "time=".toList ++ later → earlier.length < before.length →
    ∀ other, ¬ BeginsWithClock later other

theorem LeftmostClock.find (leftmost : LeftmostClock line before after position) :
    findMarker? line = some position := by
  obtain ⟨rfl, clock, first⟩ := leftmost
  simp only [not_beginsWithClock_iff] at first
  rw [List.append_assoc] at first ⊢
  rw [findMarker?_append first]
  have here := clockHere?_marker after
  rw [beginsWithClock_iff.mp clock] at here
  change findMarker? ('t' :: ("ime=".toList ++ after)) = some position
  rw [findMarker?_cons]
  change (clockHere? (marker ++ after)).or _ = _
  rw [here, Option.some_or]

theorem exists_leftmostClock (found : findMarker? line = some position) :
    ∃ before after, LeftmostClock line before after position := by
  induction line with
  | nil => cases found
  | cons c rest inductionHypothesis =>
      rw [findMarker?_cons, Option.or_eq_some_iff] at found
      rcases found with here | ⟨notHere, behind⟩
      · obtain ⟨after, stripped, clock⟩ := Option.bind_eq_some_iff.mp here
        refine ⟨[], after, stripStart?_eq_some_iff.mp stripped, beginsWithClock_iff.mpr clock, ?_⟩
        intro earlier later _ left
        exact absurd left (Nat.not_lt_zero _)
      · obtain ⟨before, after, cut, clock, first⟩ := inductionHypothesis behind
        refine ⟨c :: before, after, congrArg (c :: ·) cut, clock, ?_⟩
        intro earlier later cutEarlier left
        rcases marked_cons_iff.mp cutEarlier with ⟨-, atFront⟩ | ⟨others, rfl, cutOthers⟩
        · exact not_beginsWithClock_iff.mpr (clockHere?_eq_none_iff.mp notHere later atFront)
        · exact first others later cutOthers (Nat.lt_of_succ_lt_succ left)

/-- Nothing behind the token of the leftmost clock has a say. -/
theorem LeftmostClock.replace {token others : List Char}
    (leftmost : LeftmostClock line before (token ++ rest) position) (ends : EndsToken rest)
    (otherEnds : EndsToken others) :
    LeftmostClock (before ++ marker ++ (token ++ others)) before (token ++ others) position where
  cut := rfl
  clock := (beginsWithClock_append_congr ends otherEnds).mp leftmost.clock
  first := by
    intro earlier later cut left other tells
    obtain ⟨between, rfl, rfl⟩ := exists_between cut left
    -- The token of the earlier marker ends with that of the leftmost clock at the latest.
    have old := leftmost.first earlier (between ++ marker ++ (token ++ rest))
      (by simp [leftmost.cut, marker]) left other
    rw [← List.append_assoc] at old tells
    exact old ((beginsWithClock_append_congr otherEnds ends).mp tells)

/-- A text without a marker has no marker to the left of the one behind it. -/
theorem leftmostClock_of_unmarked (unmarked : ¬ marker <:+: before)
    (clock : BeginsWithClock after position) :
    LeftmostClock (before ++ marker ++ after) before after position where
  cut := rfl
  clock := clock
  first := by
    intro earlier later cut left
    obtain ⟨between, isBefore, -⟩ := exists_between cut left
    exact absurd ⟨earlier, between, isBefore.symm⟩ unmarked

/-- Behind a first marker without a clock the search goes on inside the token. -/
theorem findMarker?_behind (unmarked : ¬ marker <:+: before)
    (noClock : ∀ position, ¬ BeginsWithClock after position) :
    findMarker? (before ++ marker ++ after) = findMarker? after := by
  refine findMarker?_append ?_
  intro earlier later cut left
  rcases Nat.lt_or_ge earlier.length before.length with further | notFurther
  · obtain ⟨between, isBefore, -⟩ := exists_between cut further
    exact absurd ⟨earlier, between, isBefore.symm⟩ unmarked
  · rcases Nat.lt_or_eq_of_le notFurther with more | same
    · obtain ⟨between, rfl, -⟩ := exists_between cut.symm more
      simp only [List.length_append] at left
      omega
    · rw [List.append_assoc, List.append_assoc] at cut
      obtain ⟨-, behind⟩ := List.append_inj cut same
      rw [List.append_cancel_left_eq] at behind
      rw [← behind]
      exact not_beginsWithClock_iff.mp noClock

/-! ## The leftmost clock -/

/-- What the search reports about a line. -/
structure MarkerSearch (line : List Char) : Prop where
  found_iff : ∀ position,
    findMarker? line = some position ↔ ∃ before after, LeftmostClock line before after position
  none_iff : findMarker? line = none ↔
    ∀ before after, line = before ++ "time=".toList ++ after → ∀ position, ¬ BeginsWithClock after position
  /-- A token that is no clock is searched too. -/
  inside : ∀ before after, line = before ++ "time=".toList ++ after → ¬ "time=".toList <:+: before →
    (∀ position, ¬ BeginsWithClock after position) → findMarker? line = findMarker? after
  /-- What follows the token can be replaced. -/
  behind : ∀ before token rest position, LeftmostClock line before (token ++ rest) position →
    Visible token → EndsToken rest → ∀ others, EndsToken others →
      findMarker? (before ++ "time=".toList ++ (token ++ others)) = some position

theorem leftmost_marker_wins (line : List Char) : MarkerSearch line where
  found_iff := fun position =>
    ⟨exists_leftmostClock, fun ⟨_, _, leftmost⟩ => leftmost.find⟩
  none_iff := by
    simp only [not_beginsWithClock_iff]
    exact findMarker?_eq_none_iff
  inside := by
    rintro before after rfl unmarked noClock
    exact findMarker?_behind unmarked noClock
  behind := fun _ _ _ _ leftmost _ ends _ otherEnds => (leftmost.replace ends otherEnds).find

example :
    findMarker? "time=N/A time=xtime=00:01:00.50 speed=1x time=00:00:09".toList = some 60.5 := by
  decide +kernel

end Montage.Text
