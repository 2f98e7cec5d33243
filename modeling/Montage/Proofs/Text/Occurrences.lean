import Mathlib.Data.List.Infix
import Montage.Text.Blank

/-!
Contract: where a text begins with another one, and where it holds one.

Owns: what is left behind a text at the front, and occurrences.
Does not own: markers, in `Proofs.Text.Marker`.
-/

namespace Montage.Text

variable {start rest text part : List Char}

theorem stripStart?_eq_some_iff : stripStart? start text = some rest ↔ text = start ++ rest := by
  induction start generalizing text with
  | nil => simp [stripStart?]
  | cons s start inductionHypothesis =>
      cases text with
      | nil => simp [stripStart?]
      | cons c text =>
          rw [stripStart?, List.cons_append, List.cons.injEq]
          split
          · next same => rw [inductionHypothesis, and_iff_right same.symm]
          · next other => simp [Ne.symm other]

theorem isSome_stripStart?_iff : (stripStart? start text).isSome = true ↔ start <+: text := by
  rw [Option.isSome_iff_exists]
  simp only [stripStart?_eq_some_iff, eq_comm (a := text)]
  rfl

theorem occursIn_iff : occursIn part text = true ↔ part <:+: text := by
  induction text with
  | nil => rw [occursIn, List.isEmpty_iff, List.infix_nil]
  | cons c rest inductionHypothesis =>
      rw [occursIn, Bool.or_eq_true, isSome_stripStart?_iff, inductionHypothesis,
        List.infix_cons_iff]

end Montage.Text
