import Montage.Proofs.Files.Naming

/-!
Contract: taking a joined path apart gives back what was joined.

Two paths are the same when they have the same steps, however many slashes and
dots their texts spend on them. A name joined to a directory adds one step, and
taking the parent drops it again, whatever the directory is.

Owns: the steps of a joined path, its parent and its file name.
Does not own: where a path leads, in `Proofs.Files.Tree`.
-/

namespace Montage.Files

open Montage.Text

namespace Path

/-! ## Steps -/

section Steps

variable {front last : List Char}

theorem isAbsolute_append_slash (front last : List Char) :
    isAbsolute (String.ofList (front ++ slash :: last)) =
      isAbsolute (String.ofList (front ++ [slash])) := by
  cases front <;> simp [isAbsolute]

/-- A last piece adds the step that it stands for. -/
theorem steps_append_slash (noSlash : slash ∉ last) :
    steps (String.ofList (front ++ slash :: last)) =
      steps (String.ofList (front ++ [slash])) ++ (stepOf? false last).toList := by
  have cut : splitAt slash (front ++ slash :: last) = splitAt slash front ++ [last] := by
    rw [splitAt_append, splitAt_of_not_mem noSlash]
  have cutEmpty : splitAt slash (front ++ [slash]) = splitAt slash front ++ [[]] :=
    splitAt_append slash front []
  obtain ⟨first, pieces, isCut⟩ := List.exists_cons_of_ne_nil (splitAt_ne_nil slash front)
  have lastStep : [last].filterMap (stepOf? false) = (stepOf? false last).toList := by
    cases found : stepOf? false last <;> simp [found]
  have noStep : [[]].filterMap (stepOf? false) = [] := rfl
  unfold steps
  rw [isAbsolute_append_slash front last]
  simp only [String.toList_ofList, cut, cutEmpty]
  split
  · rw [List.filterMap_append, List.filterMap_append, lastStep, noStep, List.append_nil]
    rfl
  · rw [isCut]
    simp only [List.cons_append, List.filterMap_append, lastStep, noStep, List.append_nil,
      List.append_assoc]

/-- A slash at the end of a path is not a step. -/
theorem steps_append_singleton_slash (nonempty : front ≠ []) :
    steps (String.ofList (front ++ [slash])) = steps (String.ofList front) := by
  obtain ⟨c, rest, rfl⟩ := List.exists_cons_of_ne_nil nonempty
  obtain ⟨first, pieces, isCut⟩ := List.exists_cons_of_ne_nil (splitAt_ne_nil slash (c :: rest))
  have sameRoot : isAbsolute (String.ofList (c :: rest ++ [slash])) =
      isAbsolute (String.ofList (c :: rest)) := by
    simp [isAbsolute]
  have noStep : [[]].filterMap (stepOf? false) = [] := rfl
  have cutEmpty : splitAt slash (c :: rest ++ [slash]) = splitAt slash (c :: rest) ++ [[]] :=
    splitAt_append slash (c :: rest) []
  unfold steps
  rw [sameRoot]
  simp only [String.toList_ofList, cutEmpty]
  split
  · rw [List.filterMap_append, noStep, List.append_nil]
  · rw [isCut]
    simp only [List.cons_append, List.filterMap_append, noStep, List.append_nil]

/-- No step of a path has a slash in its name. -/
theorem noSlash_of_mem_steps {path text : String} (member : Step.name text ∈ steps path) :
    slash ∉ text.toList := by
  have ofPiece {first : Bool} {piece : List Char} (cut : piece ∈ splitAt slash path.toList)
      (step : stepOf? first piece = some (.name text)) : slash ∉ text.toList := by
    unfold stepOf? at step
    split_ifs at step
    · cases step
    · cases step
    · cases step
      rw [String.toList_ofList]
      exact not_mem_of_mem_splitAt cut
  unfold steps at member
  simp only at member
  split at member
  · rcases List.mem_cons.mp member with isRoot | behind
    · cases isRoot
    · obtain ⟨piece, cut, step⟩ := List.mem_filterMap.mp behind
      exact ofPiece cut step
  · split at member
    · cases member
    · next first rest isCut =>
        rcases List.mem_append.mp member with front | behind
        · exact ofPiece (isCut ▸ List.mem_cons_self) (Option.mem_toList.mp front)
        · obtain ⟨piece, inRest, step⟩ := List.mem_filterMap.mp behind
          exact ofPiece (isCut ▸ List.mem_cons_of_mem first inRest) step

theorem noSlash_of_fileName? {path file : String} (named : fileName? path = some file) :
    slash ∉ file.toList := by
  unfold fileName? at named
  split at named
  · next text last =>
      cases named
      exact noSlash_of_mem_steps (List.mem_of_getLast? last)
  · cases named

end Steps

/-! ## A name in a directory -/

section Joined

variable {dir name : String}

/-- The text of a directory in front of a name: empty, or up to a slash and with the steps of the
directory. -/
theorem exists_front (dir : String) (isName : IsName name) :
    (dir = "" ∧ join dir name = name) ∨
      ∃ front, (join dir name).toList = front ++ slash :: name.toList ∧
        steps (String.ofList (front ++ [slash])) = steps dir := by
  by_cases named : dir = ""
  · subst named
    refine Or.inl ⟨rfl, ?_⟩
    have empty : "".isEmpty = true := rfl
    rw [join, isName.isAbsolute_eq_false, if_neg Bool.false_ne_true, empty, Bool.true_or,
      if_pos rfl, String.empty_append]
  · obtain ⟨front, joined, same | same⟩ := toList_join named isName
    · refine Or.inr ⟨front, joined, ?_⟩
      have nonempty : front ≠ [] := fun empty => named (String.toList_inj.mp (same.trans empty))
      rw [steps_append_singleton_slash nonempty, ← same, String.ofList_toList]
    · refine Or.inr ⟨front, joined, ?_⟩
      rw [← same, String.ofList_toList]

/-- Joining a name to a directory adds one step. -/
theorem steps_join (dir : String) (isName : IsName name) :
    steps (join dir name) = steps dir ++ [.name name] := by
  obtain ⟨rfl, joined⟩ | ⟨front, joined, sameSteps⟩ := exists_front dir isName
  · rw [joined, isName.steps_eq]
    rfl
  · rw [← String.ofList_toList (s := join dir name), joined, steps_append_slash isName.noSlash,
      sameSteps, isName.stepOf?_eq, Option.toList_some]

theorem fileName?_join (dir : String) (isName : IsName name) :
    fileName? (join dir name) = some name := by
  rw [fileName?, steps_join dir isName, List.getLast?_concat]

/-! ## Parents -/

/-- What is dropped from the end of a path is not a step. -/
theorem steps_dropIdle (fuel : Nat) (back : List Char) :
    steps (String.ofList (dropIdle fuel back).reverse) = steps (String.ofList back.reverse) := by
  fun_induction dropIdle fuel back with
  | case1 back => rfl
  | case2 fuel c rest inductionHypothesis =>
      have nonempty : (c :: rest).reverse ≠ [] := by simp
      rw [inductionHypothesis, List.reverse_cons (a := '/'), ← slash,
        steps_append_singleton_slash nonempty]
  | case3 fuel c rest inductionHypothesis =>
      have nonempty : (c :: rest).reverse ≠ [] := by simp
      have cut : ('.' :: '/' :: c :: rest).reverse = (c :: rest).reverse ++ slash :: ['.'] := by
        simp [slash]
      rw [inductionHypothesis, cut, steps_append_slash (by decide),
        steps_append_singleton_slash nonempty]
      exact (List.append_nil _).symm
  | case4 => rfl
  | case5 => rfl

/-- Nothing is dropped behind a name. -/
theorem dropIdle_name (isName : IsName name) (fuel : Nat) (above : List Char) :
    dropIdle fuel (name.toList.reverse ++ above) = name.toList.reverse ++ above := by
  cases fuel with
  | zero => rfl
  | succ fuel =>
      have notHere : name.toList ≠ ['.'] := fun same => isName.notHere (String.toList_inj.mp same)
      have nonempty : name.toList.reverse ≠ [] := by simp [isName.nonempty]
      obtain ⟨last, others, turned⟩ := List.exists_cons_of_ne_nil nonempty
      have noSlash : slash ∉ last :: others := by
        rw [← turned, List.mem_reverse]
        exact isName.noSlash
      -- A dot with a slash in front of it would be the whole name.
      have noLoneDot (rest : List Char) (isDot : last = '.') : others ++ above ≠ '/' :: rest := by
        intro starts
        cases others with
        | nil =>
            exact notHere (by simpa [isDot] using turned)
        | cons c others =>
            cases starts
            exact noSlash (by simp [slash])
      rw [turned, List.cons_append]
      unfold dropIdle
      split
      · next same =>
          injection same with isSlash
          exact absurd (isSlash ▸ List.mem_cons_self) noSlash
      · next same =>
          injection same with isDot starts
          exact absurd starts (noLoneDot _ isDot)
      · next same =>
          injection same with isDot starts
          exact absurd starts (noLoneDot _ isDot)
      · rfl

/-- The parent of a name in a directory is the directory. -/
theorem parent?_join (dir : String) (isName : IsName name) :
    ∃ parent, parent? (join dir name) = some parent ∧ steps parent = steps dir := by
  have nonempty : name.toList.reverse ≠ [] := by simp [isName.nonempty]
  obtain ⟨last, others, turned⟩ := List.exists_cons_of_ne_nil nonempty
  have noSlash : ∀ c ∈ name.toList.reverse, (c != slash) = true := by
    intro c member
    rw [bne_iff_ne]
    rintro rfl
    exact isName.noSlash (List.mem_reverse.mp member)
  have notSlash : last ≠ '/' := by
    have lastNoSlash := noSlash last (turned ▸ List.mem_cons_self)
    exact bne_iff_ne.mp lastNoSlash
  -- What the parent is cut from: the reversed name, then what stands before it.
  have cut (above : List Char) (joined : (join dir name).toList.reverse = name.toList.reverse ++ above)
      (stops : above.dropWhile (fun c => c != slash) = above) :
      parent? (join dir name) = some (String.ofList (dropIdle above.length above).reverse) := by
    unfold parent?
    simp only [joined, dropIdle_name isName]
    rw [List.dropWhile_append_of_pos noSlash, stops, turned]
    split
    · next empty => cases empty
    · next same =>
        injection same with isSlash
        exact absurd isSlash notSlash
    · rfl
  obtain ⟨rfl, joined⟩ | ⟨front, joined, sameSteps⟩ := exists_front dir isName
  · exact ⟨"", cut [] (by rw [joined, List.append_nil]) rfl, rfl⟩
  · have above : (join dir name).toList.reverse = name.toList.reverse ++ slash :: front.reverse := by
      rw [joined]
      simp
    refine ⟨_, cut _ above (by simp), ?_⟩
    rw [steps_dropIdle, ← sameSteps, List.reverse_cons, List.reverse_reverse]

end Joined

end Path

end Montage.Files
