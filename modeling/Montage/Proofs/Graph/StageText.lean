import Mathlib.Data.List.Basic
import Montage.Proofs.Compile.Labels
import Montage.Proofs.Number.Layout

/-!
Contract: the text of a stage tells the stage.

A printed number is made of digits and a few more characters, the ones of `-`,
`.` and the words for numbers that are not finite. None of them is a mark that
stands between two parameters, so the parameters of two stages with one text
agree one by one.

Owns: the characters of numbers, stages with their numbers as they are printed,
and that no stage writes a mark of the graph around it.
Does not own: chains and graphs, in `Proofs.Graph.Decoding`.
-/

namespace Montage.Graph

open Montage.Number

/-- A text is cut in one way only before the first occurrence of a character. -/
theorem cut_unique {mark : Char} {first second firstRest secondRest : List Char}
    (unmarked : mark ∉ first) (alsoUnmarked : mark ∉ second)
    (same : first ++ mark :: firstRest = second ++ mark :: secondRest) :
    first = second ∧ firstRest = secondRest := by
  induction first generalizing second with
  | nil =>
      cases second with
      | nil => exact ⟨rfl, (List.cons.inj same).2⟩
      | cons c second =>
          obtain ⟨rfl, -⟩ := List.cons.inj same
          exact absurd (List.mem_cons_self ..) alsoUnmarked
  | cons c first inductionHypothesis =>
      cases second with
      | nil =>
          obtain ⟨rfl, -⟩ := List.cons.inj same
          exact absurd (List.mem_cons_self ..) unmarked
      | cons d second =>
          obtain ⟨rfl, sameRest⟩ := List.cons.inj same
          obtain ⟨rfl, rfl⟩ := inductionHypothesis (List.not_mem_of_not_mem_cons unmarked)
            (List.not_mem_of_not_mem_cons alsoUnmarked) sameRest
          exact ⟨rfl, rfl⟩

/-! ## Numbers -/

/-- The characters that numbers are printed with. -/
def spellsNumber (c : Char) : Bool := c.isDigit || ['-', '.', 'N', 'a', 'i', 'n', 'f'].contains c

def Numeric (text : String) : Prop := ∀ c ∈ text.toList, spellsNumber c = true

theorem spells_of_allDigits {cs : List Char} (all : AllDigits cs) :
    ∀ c ∈ cs, spellsNumber c = true := by
  intro c member
  rw [spellsNumber, all c member, Bool.true_or]

theorem numeric_natText (n : Nat) : Numeric (natText n) := by
  intro c member
  rw [natText, String.toList_ofList] at member
  exact spells_of_allDigits (allDigits_digits n) c member

theorem spells_infinityText (negative : Bool) :
    ∀ c ∈ infinityText negative, spellsNumber c = true := by
  rw [← List.all_eq_true]
  cases negative <;> decide

theorem spells_nanText : ∀ c ∈ nanText, spellsNumber c = true := by
  rw [← List.all_eq_true]
  decide

theorem spells_point {whole fraction : List Char} (left : AllDigits whole)
    (right : AllDigits fraction) : ∀ c ∈ whole ++ '.' :: fraction, spellsNumber c = true := by
  intro c member
  rw [List.mem_append, List.mem_cons] at member
  rcases member with inWhole | rfl | inFraction
  · exact spells_of_allDigits left c inWhole
  · decide
  · exact spells_of_allDigits right c inFraction

theorem spells_pointText (places scaled : Nat) :
    ∀ c ∈ pointText places scaled, spellsNumber c = true := by
  have all := allDigits_paddedDigits (places + 1) scaled
  unfold pointText
  simp only
  split
  · exact spells_of_allDigits fun c member => all c (List.mem_of_mem_take member)
  · exact spells_point (fun c member => all c (List.mem_of_mem_take member))
      (fun c member => all c (List.mem_of_mem_drop member))

theorem spells_joinPoint (d : Decimal) : ∀ c ∈ joinPoint d.positional, spellsNumber c = true := by
  obtain ⟨whole, fraction⟩ := d.allDigits_positional
  unfold joinPoint
  split
  · exact spells_of_allDigits whole
  · exact spells_point whole fraction

theorem spells_signed {negative : Bool} {cs : List Char}
    (spells : ∀ c ∈ cs, spellsNumber c = true) :
    ∀ c ∈ (if negative then ['-'] else []) ++ cs, spellsNumber c = true := by
  intro c member
  rcases List.mem_append.mp member with isSign | inNumber
  · cases negative with
    | false => cases isSign
    | true =>
        obtain rfl := List.mem_singleton.mp isSign
        decide
  · exact spells c inNumber

theorem numeric_fixed (places : Nat) (x : Float) : Numeric (fixed places x) := by
  rw [Numeric, fixed, String.toList_ofList]
  unfold fixedChars
  split
  · exact spells_nanText
  · exact spells_infinityText _
  · exact spells_signed (spells_pointText _ _)

theorem numeric_shortest (x : Float) : Numeric (shortest x) := by
  rw [Numeric, shortest, String.toList_ofList]
  unfold shortestChars
  split
  · exact spells_nanText
  · exact spells_infinityText _
  · exact spells_signed (spells_joinPoint _)

theorem Numeric.notMem {text : String} (numeric : Numeric text) {mark : Char}
    (apart : spellsNumber mark = false) : mark ∉ text.toList := by
  intro member
  rw [numeric mark member] at apart
  cases apart

/-- A number is cut off a text at the mark behind it. -/
theorem Numeric.cut {first second firstRest secondRest : String} (left : Numeric first)
    (right : Numeric second) {mark : Char} {tail : List Char}
    (apart : spellsNumber mark = false)
    (same : first ++ (String.ofList (mark :: tail) ++ firstRest) =
      second ++ (String.ofList (mark :: tail) ++ secondRest)) :
    first = second ∧ firstRest = secondRest := by
  have sameChars := congrArg String.toList same
  simp only [String.toList_append, String.toList_ofList, List.cons_append] at sameChars
  obtain ⟨sameNumber, sameRest⟩ :=
    cut_unique (left.notMem apart) (right.notMem apart) sameChars
  rw [List.append_cancel_left_eq] at sameRest
  exact ⟨String.toList_inj.mp sameNumber, String.toList_inj.mp sameRest⟩

/-! ## Stages as they are printed -/

def Pts.printed : Pts Float → Pts String
  | .restart => .restart
  | .scale factor => .scale (fixed 6 factor)

/-- A stage with the text of each of its numbers. Whole numbers stay as they are. -/
def Filter.printed : Filter Float → Filter String
  | .trim start finish => .trim (shortest start) (shortest finish)
  | .audioTrim start finish => .audioTrim (shortest start) (shortest finish)
  | .setPts pts => .setPts pts.printed
  | .audioSetPts pts => .audioSetPts pts.printed
  | .tempo factor => .tempo (fixed 6 factor)
  | .delay millis => .delay millis
  | .volume gain => .volume (fixed 2 gain)
  | .scaleToFit width height => .scaleToFit width height
  | .padCentered width height => .padCentered width height
  | .sampleAspect ratio => .sampleAspect ratio
  | .black width height duration rate => .black width height (fixed 6 duration) rate
  | .mix inputs => .mix inputs
  | .concat segments => .concat segments

/-- The name of a stage, which stands before the first `=` of its text. -/
def Filter.keyword {α : Type} : Filter α → String
  | .trim _ _ => "trim"
  | .audioTrim _ _ => "atrim"
  | .setPts _ => "setpts"
  | .audioSetPts _ => "asetpts"
  | .tempo _ => "atempo"
  | .delay _ => "adelay"
  | .volume _ => "volume"
  | .scaleToFit _ _ => "scale"
  | .padCentered _ _ => "pad"
  | .sampleAspect _ => "setsar"
  | .black _ _ _ _ => "color"
  | .mix _ => "amix"
  | .concat _ => "concat"

theorem Filter.exists_parameters (stage : Filter Float) :
    ∃ parameters, stage.text = stage.keyword ++ ("=" ++ parameters) := by
  have begins : ∀ {opening keyword : String} (first : String) {rest : String},
      opening = keyword ++ ("=" ++ first) →
        ∃ parameters, opening ++ rest = keyword ++ ("=" ++ parameters) := by
    rintro _ keyword first rest rfl
    exact ⟨first ++ rest, by simp only [String.append_assoc]⟩
  cases stage <;> unfold Filter.text Filter.keyword <;> simp only [String.append_assoc]
  case trim => exact begins "start=" (by decide)
  case audioTrim => exact begins "start=" (by decide)
  case mix => exact begins "inputs=" (by decide)
  case concat => exact begins "n=" (by decide)
  case black => exact begins "c=black:s=" (by decide)
  all_goals exact begins "" (by decide)

theorem Filter.keyword_eq {first second : Filter Float} (same : first.text = second.text) :
    first.keyword = second.keyword := by
  have unmarked : ∀ stage : Filter Float, '=' ∉ stage.keyword.toList := by
    intro stage
    cases stage <;> dsimp only [keyword] <;> decide
  obtain ⟨firstRest, firstText⟩ := first.exists_parameters
  obtain ⟨secondRest, secondText⟩ := second.exists_parameters
  rw [firstText, secondText] at same
  have sameChars := congrArg String.toList same
  simp only [String.toList_append] at sameChars
  exact String.toList_inj.mp (cut_unique (unmarked first) (unmarked second) sameChars).1

theorem Pts.printed_eq {first second : Pts Float} (same : first.text = second.text) :
    first.printed = second.printed := by
  -- Only a factor is followed by a mark of multiplication.
  have restartApart : ∀ factor : Float, (Pts.scale factor).text ≠ Pts.restart.text := by
    intro factor same
    have marked : '*' ∈ (Pts.scale factor).text.toList := by
      rw [Pts.text, String.toList_append, List.mem_append]
      exact Or.inr (by decide)
    rw [same] at marked
    exact absurd marked (by decide)
  cases first with
  | restart =>
      cases second with
      | restart => rfl
      | scale factor => exact absurd same.symm (restartApart factor)
  | scale factor =>
      cases second with
      | restart => exact absurd same (restartApart factor)
      | scale other =>
          simp only [Pts.text, String.append_left_inj] at same
          rw [Pts.printed, Pts.printed, same]

theorem sizeText_injective {mark : Char} (apart : spellsNumber mark = false)
    {width height otherWidth otherHeight : Nat}
    (same : sizeText (String.ofList [mark]) width height =
      sizeText (String.ofList [mark]) otherWidth otherHeight) :
    width = otherWidth ∧ height = otherHeight := by
  simp only [sizeText, String.append_assoc] at same
  obtain ⟨sameWidth, sameHeight⟩ :=
    (numeric_natText width).cut (numeric_natText otherWidth) apart same
  exact ⟨natText_injective sameWidth, natText_injective sameHeight⟩

/-- The text of a stage tells its kind, its whole numbers and the texts of its other numbers. -/
theorem Filter.printed_eq {first second : Filter Float} (same : first.text = second.text) :
    first.printed = second.printed := by
  have sameKeyword := keyword_eq same
  cases first <;> cases second <;> dsimp only [keyword] at sameKeyword <;>
    first | exact absurd sameKeyword (by decide) | unfold Filter.text at same; dsimp only [printed]
  all_goals simp only [String.append_assoc, String.append_right_inj, String.append_left_inj] at same
  case trim.trim start _ otherStart _ | audioTrim.audioTrim start _ otherStart _ =>
      obtain ⟨sameStart, sameFinish⟩ :=
        (numeric_shortest start).cut (numeric_shortest otherStart) (by decide) same
      rw [sameStart, sameFinish]
  case setPts.setPts | audioSetPts.audioSetPts => rw [Pts.printed_eq same]
  case tempo.tempo | volume.volume => rw [same]
  case delay.delay | sampleAspect.sampleAspect | mix.mix | concat.concat =>
      rw [natText_injective same]
  case scaleToFit.scaleToFit | padCentered.padCentered =>
      obtain ⟨rfl, rfl⟩ := sizeText_injective (by decide) same
      rfl
  case black.black width height duration rate otherWidth otherHeight otherDuration otherRate =>
      simp only [sizeText, String.append_assoc] at same
      obtain ⟨sameWidth, sameRest⟩ :=
        (numeric_natText width).cut (numeric_natText otherWidth) (by decide) same
      obtain ⟨sameHeight, sameRest⟩ :=
        (numeric_natText height).cut (numeric_natText otherHeight) (by decide) sameRest
      obtain ⟨sameDuration, sameRate⟩ :=
        (numeric_fixed 6 duration).cut (numeric_fixed 6 otherDuration) (by decide) sameRest
      rw [natText_injective sameWidth, natText_injective sameHeight, sameDuration,
        natText_injective sameRate]

/-! ## Marks of the graph -/

/-- The characters that a graph puts around stages and names. -/
def isGraphMark (c : Char) : Bool := c = '[' || c = ']' || c = ',' || c = ';'

/-- A text without a mark of the graph. -/
def Plain (text : String) : Prop := ∀ c ∈ text.toList, isGraphMark c = false

@[simp] theorem plain_append {first second : String} :
    Plain (first ++ second) ↔ Plain first ∧ Plain second := by
  simp only [Plain, String.toList_append, List.forall_mem_append]

instance (text : String) : Decidable (Plain text) :=
  decidable_of_iff (text.toList.all fun c => !isGraphMark c) (by simp [Plain])

theorem Numeric.plain {text : String} (numeric : Numeric text) : Plain text := by
  intro c member
  have apart : ∀ mark ∈ ['[', ']', ',', ';'], c ≠ mark := by
    rintro mark isMark rfl
    have spelled := numeric c member
    simp only [List.mem_cons, List.not_mem_nil, or_false] at isMark
    rcases isMark with rfl | rfl | rfl | rfl <;> exact absurd spelled (by decide)
  simp only [List.forall_mem_cons] at apart
  simp [isGraphMark, apart]

@[simp] theorem plain_natText (n : Nat) : Plain (natText n) := (numeric_natText n).plain

@[simp] theorem plain_fixed (places : Nat) (x : Float) : Plain (fixed places x) :=
  (numeric_fixed places x).plain

@[simp] theorem plain_shortest (x : Float) : Plain (shortest x) := (numeric_shortest x).plain

theorem Pts.plain_text (pts : Pts Float) : Plain pts.text := by
  cases pts with
  | restart => exact (by decide : Plain "PTS-STARTPTS")
  | scale factor => exact plain_append.mpr ⟨plain_fixed 6 factor, by decide⟩

/-- No stage writes a mark of the graph. -/
theorem Filter.plain_text (stage : Filter Float) : Plain stage.text := by
  cases stage <;> unfold Filter.text <;>
    simp only [plain_append, sizeText, plain_natText, plain_fixed, plain_shortest, Pts.plain_text,
      and_true] <;>
    decide

end Montage.Graph
