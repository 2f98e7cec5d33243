import Montage.Export.Destination
import Montage.Proofs.Files.Joining

/-!
Contract: where an export without an explicit output is written.

The name is free text that is joined to the export directory. As long as it has
no slash the file stands in that directory under the trimmed name. A slash in it
is read as part of the path: the file then stands somewhere else, and for a name
that begins with one the export directory plays no part at all.

Owns: what trimming takes away, and `default_destination_stays_iff`.
Does not own: taking joined paths apart, in `Proofs.Files.Joining`.
-/

namespace Montage

/-! ## What trimming takes away -/

namespace Text

variable {cs : List Char}

theorem exists_trimEnd (cs : List Char) :
    ∃ back, cs = trimEnd cs ++ back ∧ ∀ c ∈ back, isBlank c = true := by
  induction cs with
  | nil => exact ⟨[], rfl, by simp⟩
  | cons c rest inductionHypothesis =>
      obtain ⟨back, cut, blank⟩ := inductionHypothesis
      cases trimmed : trimEnd rest with
      | nil =>
          rw [trimmed, List.nil_append] at cut
          by_cases isBlankFirst : isBlank c = true
          · refine ⟨c :: rest, by simp [trimEnd, trimmed, isBlankFirst], ?_⟩
            rw [cut]
            simpa [isBlankFirst] using blank
          · refine ⟨back, ?_, blank⟩
            have kept : trimEnd (c :: rest) = [c] := by simp [trimEnd, trimmed, isBlankFirst]
            rw [kept, cut]
            rfl
      | cons d kept =>
          refine ⟨back, ?_, blank⟩
          rw [trimmed] at cut
          rw [trimEnd, trimmed, cut]
          rfl

/-- Trimming takes blanks at both ends and nothing else. -/
theorem exists_trim (cs : List Char) :
    ∃ front back, cs = front ++ trim cs ++ back ∧ (∀ c ∈ front, isBlank c = true) ∧
      ∀ c ∈ back, isBlank c = true := by
  obtain ⟨back, cut, blank⟩ := exists_trimEnd (trimStart cs)
  refine ⟨cs.takeWhile isBlank, back, ?_, fun c member => List.mem_takeWhile_imp member, blank⟩
  rw [trim, List.append_assoc, ← cut, trimStart, List.takeWhile_append_dropWhile]

theorem mem_trim_iff {c : Char} (visible : isBlank c = false) : c ∈ trim cs ↔ c ∈ cs := by
  obtain ⟨front, back, cut, blankFront, blankBack⟩ := exists_trim cs
  have notFront : c ∉ front := fun member => by simp [blankFront c member] at visible
  have notBack : c ∉ back := fun member => by simp [blankBack c member] at visible
  have parts : c ∈ cs ↔ c ∈ front ++ trim cs ++ back := by rw [← cut]
  rw [parts]
  simp [notFront, notBack]

/-- Nothing is left of a text exactly if all of it is blank. -/
theorem trim_eq_nil_iff : trim cs = [] ↔ ∀ c ∈ cs, isBlank c = true := by
  constructor
  · intro nothing c member
    by_contra visible
    rw [← mem_trim_iff (Bool.eq_false_iff.mpr visible), nothing] at member
    exact List.not_mem_nil member
  · intro blank
    rw [trim, trimStart, List.dropWhile_eq_nil_iff.mpr blank]
    rfl

end Text

namespace Export

open Montage.Files
open Montage.Text

/-! ## Names of exported files -/

/-- What stands before the extension: the trimmed name, or a text made from the time where there is
no name or only blanks. -/
inductive IsStem (stamp : String) : Option String → String → Prop where
  | named {given : String} (visible : ∃ c ∈ given.toList, isBlank c = false) :
      IsStem stamp (some given) (String.ofList (trim given.toList))
  | blank {given : String} (blank : ∀ c ∈ given.toList, isBlank c = true) :
      IsStem stamp (some given) ("export_" ++ stamp)
  | absent : IsStem stamp none ("export_" ++ stamp)

theorem isStem_baseName (name : Option String) (stamp : String) :
    IsStem stamp name (Destination.baseName name stamp) := by
  cases name with
  | none => exact .absent
  | some given =>
      by_cases blank : ∀ c ∈ given.toList, isBlank c = true
      · have nothing := trim_eq_nil_iff.mpr blank
        have stem : Destination.baseName (some given) stamp = "export_" ++ stamp := by
          simp [Destination.baseName, nothing, Option.filter]
        rw [stem]
        exact .blank blank
      · have left : trim given.toList ≠ [] := fun nothing => blank (trim_eq_nil_iff.mp nothing)
        have stem : Destination.baseName (some given) stamp =
            String.ofList (trim given.toList) := by
          simp [Destination.baseName, left, Option.filter]
        rw [stem]
        exact .named (by simpa using blank)

/-- Blanks are no slashes, so a slash in a name survives the trimming. -/
theorem noSlash_stem_iff {name : Option String} {stamp stem : String}
    (plainStamp : Path.slash ∉ stamp.toList) (isStem : IsStem stamp name stem) :
    Path.slash ∉ stem.toList ↔ ∀ given ∈ name, Path.slash ∉ given.toList := by
  have visible : isBlank Path.slash = false := by decide
  have plain : Path.slash ∉ ("export_" ++ stamp).toList := by
    rw [String.toList_append, List.mem_append, not_or]
    exact ⟨by decide, plainStamp⟩
  cases isStem with
  | named _ => simp [mem_trim_iff visible]
  | @blank given blank =>
      have noSlash : Path.slash ∉ given.toList :=
        fun member => by simp [blank _ member] at visible
      simp only [plain, not_false_eq_true, Option.mem_some_iff, forall_eq', noSlash]
  | absent => simp only [plain, not_false_eq_true, Option.not_mem_none, false_implies,
      implies_true]

/-- A stem in front of an extension is a name if it has no slash. -/
theorem isName_file {stem : String} (noSlash : Path.slash ∉ stem.toList) (format : OutputFormat) :
    IsName (stem ++ "." ++ format.extension) := by
  have long : 4 ≤ (stem ++ "." ++ format.extension).toList.length := by
    cases format <;> simp [OutputFormat.extension]
  have plain : Path.slash ∉ ("." ++ format.extension).toList := by cases format <;> decide
  refine ⟨?_, ?_, ?_, ?_⟩
  · intro empty
    rw [empty] at long
    exact absurd long (by decide)
  · rw [String.append_assoc, String.toList_append, List.mem_append, not_or]
    exact ⟨noSlash, plain⟩
  · intro here
    rw [here] at long
    exact absurd long (by decide)
  · intro up
    rw [up] at long
    exact absurd long (by decide)

/-! ## Destinations -/

/-- A path to a file that stands in a directory, compared step by step. -/
structure StaysIn (dir file path : String) : Prop where
  parent : ∃ parent, Path.parent? path = some parent ∧ Path.steps parent = Path.steps dir
  file : Path.fileName? path = some file

theorem staysIn_join (dir : String) {file : String} (isName : IsName file) :
    StaysIn dir file (Path.join dir file) where
  parent := Path.parent?_join dir isName
  file := Path.fileName?_join dir isName

/-- Without an explicit output the file stands in the export directory, under the trimmed name or
the time and with the extension of the format, exactly if no slash is in the name. -/
theorem default_destination_stays_iff {stamp : String} (plainStamp : Path.slash ∉ stamp.toList)
    (dir : String) (name : Option String) (format : OutputFormat) :
    ∃ stem, IsStem stamp name stem ∧
      (StaysIn dir (stem ++ "." ++ format.extension)
          (Destination.resolve none dir name format stamp) ↔
        ∀ given ∈ name, Path.slash ∉ given.toList) := by
  have isStem := isStem_baseName name stamp
  refine ⟨_, isStem, ?_⟩
  rw [← noSlash_stem_iff plainStamp isStem]
  constructor
  · intro stays
    have noSlash := Path.noSlash_of_fileName? stays.file
    rw [String.append_assoc, String.toList_append, List.mem_append, not_or] at noSlash
    exact noSlash.1
  · intro noSlash
    exact staysIn_join dir (isName_file noSlash format)

theorem podcast_stays_in_exports :
    Path.slash ∉ "20250101_120000".toList ∧
      StaysIn "/exports" "podcast.mp3"
        (Destination.resolve none "/exports" (some " podcast ") .mp3 "20250101_120000") := by
  have plainStamp : Path.slash ∉ "20250101_120000".toList := by decide
  refine ⟨plainStamp, ?_⟩
  obtain ⟨stem, isStem, stays⟩ :=
    default_destination_stays_iff plainStamp "/exports" (some " podcast ") .mp3
  cases isStem with
  | named _ =>
      apply stays.mpr
      intro given isGiven
      cases isGiven
      decide
  | blank blank =>
      have pIsBlank := blank 'p' (by decide)
      exact absurd pIsBlank (by decide)

/-- A name that begins with a slash leaves the export directory. -/
theorem rootedName_leaves_exports :
    Destination.resolve none "/exports" (some "/tmp/cut") .mp4 "20250101_120000" =
        "/tmp/cut.mp4" ∧
      ¬ ∃ stem, IsStem "20250101_120000" (some "/tmp/cut") stem ∧
        StaysIn "/exports" (stem ++ "." ++ OutputFormat.mp4.extension)
          (Destination.resolve none "/exports" (some "/tmp/cut") .mp4 "20250101_120000") := by
  have leaves : Destination.resolve none "/exports" (some "/tmp/cut") .mp4 "20250101_120000" =
      "/tmp/cut.mp4" := by
    decide +kernel
  refine ⟨leaves, ?_⟩
  rintro ⟨stem, _, stays⟩
  obtain ⟨parent, isParent, sameSteps⟩ := stays.parent
  have above : Path.parent? "/tmp/cut.mp4" = some "/tmp" := by decide +kernel
  rw [leaves, above] at isParent
  cases isParent
  exact absurd sameSteps (by decide +kernel)

end Export

end Montage
