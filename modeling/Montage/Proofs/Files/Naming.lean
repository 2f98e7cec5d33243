import Mathlib.Data.List.TakeWhile
import Montage.Files.Disk

/-!
Contract: what the path of a name in a directory says.

Cutting a text at slashes tells where two texts were put together with one in
between, so the pieces of a joined path are those of the directory and the name.

Owns: names, cutting joined paths into pieces, and file names and extensions of
names.
Does not own: where a path leads, in `Proofs.Files.Tree`.
-/

namespace Montage

/-! ## Cutting -/

namespace Text

variable {mark : Char} {cs first rest : List Char}

theorem splitAt_ne_nil (mark : Char) (cs : List Char) : splitAt mark cs ≠ [] := by
  cases cs with
  | nil => simp [splitAt]
  | cons c rest =>
      unfold splitAt
      split
      · simp
      · split <;> simp

theorem splitAt_of_not_mem (noMark : mark ∉ cs) : splitAt mark cs = [cs] := by
  induction cs with
  | nil => rfl
  | cons c rest inductionHypothesis =>
      rw [List.mem_cons, not_or] at noMark
      rw [splitAt, inductionHypothesis noMark.2]
      exact if_neg (Ne.symm noMark.1)

theorem splitAt_append (mark : Char) (first rest : List Char) :
    splitAt mark (first ++ mark :: rest) = splitAt mark first ++ splitAt mark rest := by
  induction first with
  | nil =>
      obtain ⟨piece, pieces, cut⟩ := List.exists_cons_of_ne_nil (splitAt_ne_nil mark rest)
      simp [splitAt, cut]
  | cons c first inductionHypothesis =>
      obtain ⟨piece, pieces, cut⟩ := List.exists_cons_of_ne_nil (splitAt_ne_nil mark first)
      rw [List.cons_append, splitAt, inductionHypothesis, cut, splitAt, cut]
      by_cases isMark : c = mark
      · simp [isMark]
      · simp [isMark]

/-- No mark is left in a piece. -/
theorem not_mem_of_mem_splitAt {piece : List Char} (member : piece ∈ splitAt mark cs) :
    mark ∉ piece := by
  induction cs generalizing piece with
  | nil =>
      obtain rfl : piece = [] := List.mem_singleton.mp member
      exact List.not_mem_nil
  | cons c rest inductionHypothesis =>
      obtain ⟨front, pieces, cut⟩ := List.exists_cons_of_ne_nil (splitAt_ne_nil mark rest)
      rw [cut] at inductionHypothesis
      rw [splitAt, cut] at member
      simp only at member
      split at member
      · rcases List.mem_cons.mp member with rfl | behind
        · exact List.not_mem_nil
        · exact inductionHypothesis behind
      · next other =>
          rcases List.mem_cons.mp member with rfl | behind
          · rw [List.mem_cons, not_or]
            exact ⟨Ne.symm other, inductionHypothesis List.mem_cons_self⟩
          · exact inductionHypothesis (List.mem_cons_of_mem front behind)

end Text

namespace Files

open Montage.Text

/-! ## Names -/

/-- A text that can be the name of something in a directory. -/
structure IsName (name : String) : Prop where
  nonempty : name.toList ≠ []
  noSlash : Path.slash ∉ name.toList
  notHere : name ≠ "."
  notUp : name ≠ ".."

namespace IsName

variable {name : String}

theorem isAbsolute_eq_false (isName : IsName name) : Path.isAbsolute name = false := by
  unfold Path.isAbsolute
  apply beq_false_of_ne
  intro first
  exact isName.noSlash (List.mem_of_mem_head? first)

/-- A name is a step wherever it stands. -/
theorem stepOf?_eq (isName : IsName name) (first : Bool) :
    Path.stepOf? first name.toList = some (.name name) := by
  have notHere : name.toList ≠ ['.'] := fun same => isName.notHere (String.toList_inj.mp same)
  have notUp : name.toList ≠ ['.', '.'] := fun same => isName.notUp (String.toList_inj.mp same)
  rw [Path.stepOf?, if_neg (by simp [isName.nonempty]), if_neg notHere, if_neg notUp,
    String.ofList_toList]

/-- A name is a path of one step. -/
theorem steps_eq (isName : IsName name) : Path.steps name = [.name name] := by
  unfold Path.steps
  simp [isName.isAbsolute_eq_false, splitAt_of_not_mem isName.noSlash, isName.stepOf?_eq]

/-- A name is the file name of the path that it is. -/
theorem fileName?_eq (isName : IsName name) : Path.fileName? name = some name := by
  rw [Path.fileName?, isName.steps_eq]
  rfl

end IsName

namespace Path

variable {dir name : String}

/-- A joined path is the directory, a slash unless the directory ends in one, and the name. -/
theorem toList_join (named : dir ≠ "") (isName : IsName name) :
    ∃ front, (join dir name).toList = front ++ slash :: name.toList ∧
      (dir.toList = front ∨ dir.toList = front ++ [slash]) := by
  have nonempty : dir.isEmpty = false :=
    String.isEmpty_eq_false_iff.mpr named
  unfold join
  simp only [isName.isAbsolute_eq_false, nonempty, Bool.false_eq_true, Bool.false_or, ↓reduceIte]
  split
  · next ends =>
      obtain ⟨front, isFront⟩ := List.getLast?_eq_some_iff.mp (eq_of_beq ends)
      refine ⟨front, ?_, Or.inr isFront⟩
      rw [String.toList_append, isFront, List.append_assoc]
      rfl
  · refine ⟨dir.toList, ?_, Or.inl rfl⟩
    rw [String.toList_append, String.toList_append, List.append_assoc]
    rfl

/-- A joined path begins with the directory. -/
theorem join_eq_append (dir : String) (isName : IsName name) : ∃ more, join dir name = dir ++ more := by
  unfold join
  rw [isName.isAbsolute_eq_false, if_neg Bool.false_ne_true]
  split
  · exact ⟨name, rfl⟩
  · exact ⟨"/" ++ name, String.append_assoc⟩

theorem isAbsolute_join (named : dir ≠ "") (isName : IsName name) :
    isAbsolute (join dir name) = isAbsolute dir := by
  have nonempty : dir.toList ≠ [] := fun empty => named (String.toList_inj.mp empty)
  obtain ⟨front, joined, shape⟩ := toList_join named isName
  rw [isAbsolute, isAbsolute, joined]
  cases front with
  | nil =>
      rcases shape with empty | slash
      · exact absurd empty nonempty
      · rw [slash]
        rfl
  | cons c front => rcases shape with same | same <;> rw [same] <;> rfl

/-- The extension of a name is what stands behind its last dot, unless nothing stands before it. -/
theorem extension?_eq_some_iff (isName : IsName name) {after : String} :
    extension? name = some after ↔
      '.' ∉ after.toList ∧ ∃ stem, stem ≠ "" ∧ name = stem ++ "." ++ after := by
  unfold extension?
  rw [isName.fileName?_eq, Option.bind_some]
  simp only
  constructor
  · intro found
    have cut := List.takeWhile_append_dropWhile (p := fun c => c != '.') (l := name.toList.reverse)
    have stops := List.head?_dropWhile_not (fun c => c != '.') name.toList.reverse
    split at found
    · next dot d rest left =>
        cases found
        rw [left] at cut stops
        obtain rfl : dot = '.' := by simpa using stops
        refine ⟨?_, String.ofList (d :: rest).reverse, ?_, ?_⟩
        · rw [String.toList_ofList, List.mem_reverse]
          intro inside
          simpa using List.mem_takeWhile_imp inside
        · intro empty
          simpa using congrArg String.toList empty
        · apply String.toList_inj.mp
          have turned := congrArg List.reverse cut
          rw [List.reverse_reverse, List.reverse_append, List.reverse_cons] at turned
          simp only [String.toList_append, String.toList_ofList]
          exact turned.symm
    · cases found
  · rintro ⟨plain, stem, filled, rfl⟩
    have nonempty : stem.toList.reverse ≠ [] := by
      rw [ne_eq, List.reverse_eq_nil_iff]
      exact fun empty => filled (String.toList_inj.mp empty)
    obtain ⟨d, rest, isStem⟩ := List.exists_cons_of_ne_nil nonempty
    have turned : (stem ++ "." ++ after).toList.reverse =
        after.toList.reverse ++ '.' :: d :: rest := by
      simp [isStem]
    have noDot : ∀ c ∈ after.toList.reverse, (c != '.') = true := by
      intro c member
      rw [bne_iff_ne]
      rintro rfl
      exact plain (List.mem_reverse.mp member)
    rw [turned, List.takeWhile_append_of_pos noDot, List.dropWhile_append_of_pos noDot]
    simp

end Path

namespace Disk

variable {dir name : String}

theorem pieces_name (isName : IsName name) : pieces name = [name] := by
  rw [pieces, splitAt_of_not_mem isName.noSlash]
  simp [isName.nonempty]

theorem pieces_join (named : dir ≠ "") (isName : IsName name) :
    pieces (Path.join dir name) = pieces dir ++ [name] := by
  have last := pieces_name isName
  rw [pieces] at last
  obtain ⟨front, joined, same | same⟩ := Path.toList_join named isName
  · rw [pieces, pieces, joined, splitAt_append, List.filter_append, List.map_append, last, same]
  · rw [pieces, pieces, joined, same, splitAt_append, splitAt_append, List.filter_append,
      List.map_append, last]
    simp [splitAt]

/-- The pieces of a path are names, and steps that stay or go up. -/
theorem of_mem_pieces {path piece : String} (member : piece ∈ pieces path) (notHere : piece ≠ ".")
    (notUp : piece ≠ "..") : IsName piece := by
  obtain ⟨cs, inPieces, rfl⟩ := List.mem_map.mp member
  obtain ⟨cut, nonempty⟩ := List.mem_filter.mp inPieces
  refine ⟨?_, ?_, notHere, notUp⟩
  · rw [String.toList_ofList]
    simpa using nonempty
  · rw [String.toList_ofList]
    exact not_mem_of_mem_splitAt cut

end Disk

end Files

end Montage
