import Montage.Proofs.Export.WorkerProgram
import Montage.Proofs.Text.Occurrences

/-!
Contract: when a failed export can tell what the engine said.

Status lines, log lines and errors count for the diagnostics, except errors that
are notices. The tail keeps texts that are not blank, so its excerpt is empty
exactly when the engine said nothing but blanks.

Owns: which events count, silent streams, and when an excerpt is empty and how
long it may be.
Does not own: which lines an excerpt shows.
-/

namespace Montage.Export

open Montage.Text

/-! ## What counts -/

/-- What the engine reports as an error although the export goes on. -/
def notices : List String :=
  ["No streams found", "deprecated pixel format", "automatically inserted filter",
    "Timestamps are unset", "Queue input is backward"]

/-- A line with a notice anywhere in it. -/
def IsNotice (line : String) : Prop := ∃ notice ∈ notices, notice.toList <:+: line.toList

instance (line : String) : Decidable (IsNotice line) :=
  inferInstanceAs (Decidable (∃ notice ∈ notices, _))

theorem Monitor.isHarmless_iff {line : String} : isHarmless line = true ↔ IsNotice line := by
  simp only [isHarmless, List.any_eq_true, occursIn_iff]
  rfl

/-- The line that an item adds to the diagnostics: what is said by status lines, by log lines of
any level, and by errors that are no notices. -/
def StreamItem.line? : StreamItem → Option String
  | .event (.progress _ line) => some line
  | .event (.log _ line) => some line
  | .event (.error line) => if IsNotice line then none else some line
  | .event (.other _) => none
  | .pause => none

theorem StreamItem.line?_event (said : EngineEvent) :
    (StreamItem.event said).line? = Monitor.lineOf? said := by
  cases said with
  | error line => simp [line?, Monitor.lineOf?, Monitor.isHarmless_iff]
  | _ => rfl

/-! ## Silence -/

/-- No item adds anything but blanks. -/
def Silent (items : List StreamItem) : Prop :=
  ∀ item ∈ items, ∀ line ∈ item.line?, Tail.trimmed line = ""

namespace Tail

def Filled (tail : Tail) : Prop := ∀ line ∈ tail.lines, line ≠ ""

theorem push_of_blank {tail : Tail} {line : String} (blank : trimmed line = "") :
    tail.push line = tail := by
  simp [push, blank]

theorem push_of_text (tail : Tail) {line : String} (text : trimmed line ≠ "") :
    ∃ kept, kept ⊆ tail.lines ∧ (tail.push line).lines = kept ++ [trimmed line] := by
  have shown : ¬ (trimmed line).isEmpty = true := by rwa [String.isEmpty_iff]
  simp only [push, shown, Bool.false_eq_true, ↓reduceIte]
  by_cases full : tail.lines.length = capacity
  · rw [if_pos full]
    exact ⟨tail.lines.drop 1, List.drop_subset 1 tail.lines, rfl⟩
  · rw [if_neg full]
    exact ⟨tail.lines, List.Subset.refl _, rfl⟩

theorem Filled.push {tail : Tail} (filled : tail.Filled) (line : String) :
    (tail.push line).Filled := by
  by_cases blank : trimmed line = ""
  · rw [push_of_blank blank]
    exact filled
  · obtain ⟨kept, old, lines⟩ := push_of_text tail blank
    intro other member
    rw [lines] at member
    rcases List.mem_append.mp member with inKept | isNew
    · exact filled other (old inKept)
    · rw [List.mem_singleton.mp isNew]
      exact blank

theorem joinWith_eq_nil {pieces : List (List Char)} (filled : ∀ piece ∈ pieces, piece ≠ []) :
    joinWith ['\n'] pieces = [] ↔ pieces = [] := by
  cases pieces with
  | nil => simp [joinWith]
  | cons piece rest =>
      have shown := filled piece (List.mem_cons_self ..)
      cases rest <;> simp [joinWith, shown]

/-- A filled tail has an empty excerpt only when it has no lines. -/
theorem excerpt_isEmpty_iff {tail : Tail} (filled : tail.Filled) :
    tail.excerpt.isEmpty = true ↔ tail.lines = [] := by
  have pieces : ∀ piece ∈ tail.lines.map String.toList, piece ≠ [] := by
    intro piece member
    obtain ⟨line, isLine, rfl⟩ := List.mem_map.mp member
    simpa using filled line isLine
  have joined := joinWith_eq_nil pieces
  rw [List.map_eq_nil_iff] at joined
  rw [String.isEmpty_iff, ← joined]
  simp only [excerpt, lastChars, excerptLength]
  rw [String.ofList_eq_empty_iff, List.drop_eq_nil_iff]
  rw [← List.length_eq_zero_iff]
  omega

theorem excerpt_length_le (tail : Tail) : tail.excerpt.length ≤ 200 := by
  simp only [excerpt, lastChars, excerptLength, String.length_ofList, List.length_drop]
  omega

end Tail

namespace Monitor

theorem handle_tail (monitor : Monitor) (event : EngineEvent) :
    (monitor.handle event).2.tail =
      ((lineOf? event).map monitor.tail.push).getD monitor.tail := by
  simp only [handle]
  cases lineOf? event <;> rfl

theorem follow_filled {monitor : Monitor} (filled : monitor.tail.Filled)
    (items : List StreamItem) : (monitor.follow items).tail.Filled := by
  induction items generalizing monitor with
  | nil => exact filled
  | cons item rest inductionHypothesis =>
      cases item with
      | pause => exact inductionHypothesis filled
      | event said =>
          have saidFilled : (monitor.handle said).2.tail.Filled := by
            rw [handle_tail]
            cases lineOf? said with
            | none => exact filled
            | some line => exact filled.push line
          exact inductionHypothesis saidFilled

/-- The tail stays empty exactly while nothing but blanks comes in. -/
theorem follow_lines_eq_nil (monitor : Monitor) (items : List StreamItem) :
    (monitor.follow items).tail.lines = [] ↔ monitor.tail.lines = [] ∧ Silent items := by
  induction items generalizing monitor with
  | nil => simp [follow, Silent]
  | cons item rest inductionHypothesis =>
      have split : Silent (item :: rest) ↔
          (∀ line ∈ item.line?, Tail.trimmed line = "") ∧ Silent rest :=
        List.forall_mem_cons
      rw [split]
      cases item with
      | pause =>
          rw [follow, inductionHypothesis]
          simp [StreamItem.line?]
      | event said =>
          rw [follow, inductionHypothesis, handle_tail]
          cases contributed : lineOf? said with
          | none => simp [StreamItem.line?_event, contributed]
          | some line =>
              by_cases blank : Tail.trimmed line = ""
              · simp [StreamItem.line?_event, contributed, Tail.push_of_blank blank, blank]
              · obtain ⟨kept, -, lines⟩ := Tail.push_of_text monitor.tail blank
                simp [StreamItem.line?_event, contributed, lines, blank]

/-- After a whole stream the excerpt is empty exactly when the stream was silent. -/
theorem excerpt_isEmpty_iff_silent (total : Float) (items : List StreamItem) :
    ((Monitor.start total).follow items).tail.excerpt.isEmpty = true ↔ Silent items := by
  have filled : (Monitor.start total).tail.Filled := fun _ member => absurd member List.not_mem_nil
  rw [Tail.excerpt_isEmpty_iff (follow_filled filled items), follow_lines_eq_nil]
  exact and_iff_right rfl

end Monitor

end Montage.Export
