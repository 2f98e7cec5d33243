import Montage.Compile.Assembly

/-!
Contract: labels of different families and numbers differ.

Owns: that the number of a label can be read back, and that families are told
apart by their first letter.
-/

namespace Montage

open Montage.Number
open Montage.Graph

namespace Graph

theorem natText_injective {n m : Nat} (same : natText n = natText m) : n = m := by
  have sameDigits : Nat.toDigits 10 n = Nat.toDigits 10 m := String.ofList_injective same
  have readBack := congrArg (fun ds => Nat.ofDigitChars 10 ds 0) sameDigits
  simpa only [Nat.ofDigitChars_toDigits (by decide : 1 < 10) (by decide : 10 ≤ 10)] using readBack

/-- The letter a label starts with. -/
def Label.initial? (label : Label) : Option Char := label.name.toList.head?

theorem Label.ne_of_initial {first second : Label} (apart : first.initial? ≠ second.initial?) :
    first ≠ second :=
  fun same => apart (congrArg Label.initial? same)

end Graph

namespace Compile

theorem numbered_injective {family : String} {n m : Nat}
    (same : numbered family n = numbered family m) : n = m := by
  have sameText := congrArg (fun label => label.name.toList) same
  simp only [numbered, String.toList_append, List.append_cancel_left_eq] at sameText
  exact natText_injective (String.toList_inj.mp sameText)

theorem initial_numbered {family : String} {letter : Char} (n : Nat)
    (starts : family.toList.head? = some letter) :
    (numbered family n).initial? = some letter := by
  simp only [Label.initial?, numbered, String.toList_append, List.head?_append, starts,
    Option.some_or]

end Compile

end Montage
