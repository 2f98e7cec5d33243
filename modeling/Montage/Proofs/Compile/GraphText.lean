import Montage.Proofs.Compile.WellFormed
import Montage.Proofs.Graph.Decoding

/-!
Contract: the text of every compiled graph can be read back.

Labels of compiled graphs are a family of letters with a number behind it, or
the name of a joining chain, so they are words. Chains read only labels of the
graph and have a stage, so every chain is legible.

Owns: legible compilations and `compiled_text_decodes`.
Does not own: how legible chains are read, in `Proofs.Graph.Decoding`.
-/

namespace Montage

open Montage.Number
open Montage.Media
open Montage.Graph

namespace Compile

theorem numbered_isWord {family : String} (letters : family.toList.all Char.isAlphanum = true)
    (n : Nat) : (numbered family n).IsWord := by
  intro c member
  rw [numbered, String.toList_append, List.mem_append, natText, String.toList_ofList] at member
  rcases member with inFamily | inNumber
  · exact List.all_eq_true.mp letters c inFamily
  · rw [Char.isAlphanum, allDigits_digits n c inNumber, Bool.or_true]

section Sides

variable {α : Type} [Seconds α] {label : Label}

theorem Audio.assemble_words {clips : List (PlacedClip α)}
    (member : label ∈ outputs (Audio.assemble clips).chains) : label.IsWord := by
  rcases output_joined member with leaf | rfl
  · rw [Audio.outputs_clipChains] at leaf
    obtain ⟨index, _, rfl⟩ := List.mem_map.mp leaf
    exact numbered_isWord (by decide) index
  · exact List.all_eq_true.mp (by decide)

theorem Video.assemble?_words {clips : List (PlacedClip α)} {total : α} {side : Side α}
    {size : Resolution} (assembled : Video.assemble? clips total = some (side, size))
    (member : label ∈ outputs side.chains) : label.IsWord := by
  rw [Video.assemble?_eq_some assembled] at member
  rcases output_joined member with leaf | rfl
  · rcases Video.output_laneChains leaf with ⟨clip, _, rfl⟩ | ⟨number, _, rfl⟩
    · exact numbered_isWord (by decide) clip.index
    · exact numbered_isWord (by decide) number
  · exact List.all_eq_true.mp (by decide)

omit [Seconds α] in
/-- A well formed side whose labels are words has legible chains only. -/
theorem Side.WellFormed.legible {kind : StreamKind} {clips : List (PlacedClip α)} {side : Side α}
    (wellFormed : side.WellFormed kind clips) (words : ∀ label ∈ outputs side.chains, label.IsWord)
    {chain : Chain α} (isChain : chain ∈ side.chains) : chain.IsLegible where
  staged := (wellFormed.proper chain isChain).yields.1
  sources := by
    intro source isSource label named
    apply words label
    apply wellFormed.linked.reads_subset
    exact List.mem_flatMap.mpr ⟨chain, isChain, List.mem_filterMap.mpr ⟨source, isSource, named⟩⟩
  output := words chain.output (List.mem_map_of_mem isChain)

end Sides

end Compile

section Compiled

variable {timeline : Timeline Float} {catalog : IdMap (Asset Float)} {compiled : Compiled Float}

theorem pictureSide_words {clips : List (PlacedClip Float)} {label : Label}
    (member : label ∈ outputs (pictureSide timeline clips).chains) : label.IsWord := by
  rcases pictureSide_cases timeline clips with none | ⟨total, size, assembled⟩
  · rw [none] at member
    cases member
  · exact Compile.Video.assemble?_words assembled member

theorem compiled_legible (accepted : compile timeline catalog = .ok compiled) :
    ∀ chain ∈ compiled.graph.chains, chain.IsLegible := by
  obtain ⟨clips, files, placed, assembled⟩ := compile_eq_ok accepted
  obtain ⟨_, _, resolved⟩ := placeClips_eq_ok placed
  obtain ⟨_, chains, _, _, _⟩ := assemble_eq_ok assembled
  intro chain isChain
  rw [chains] at isChain
  rcases List.mem_append.mp isChain with inSound | inPicture
  · exact (Compile.Audio.assemble_wellFormed resolved.indices_nodup).legible
      (fun _ => Compile.Audio.assemble_words) inSound
  · exact (pictureSide_wellFormed resolved.indices_nodup).legible
      (fun _ => pictureSide_words) inPicture

/-- The text of a compiled graph falls apart into its chains, and no graph with the same text
differs from it but in numbers that are printed alike. -/
theorem compiled_text_decodes (accepted : compile timeline catalog = .ok compiled) :
    ∃ text, compiled.graph.text? = some text ∧ compiled.graph.DecodesFrom text ∧
      ∀ (otherTimeline : Timeline Float) (otherCatalog : IdMap (Asset Float))
        (other : Compiled Float), compile otherTimeline otherCatalog = .ok other →
          other.graph.text? = some text →
            other.graph.chains.map Chain.printed = compiled.graph.chains.map Chain.printed := by
  have legible := compiled_legible accepted
  obtain ⟨text, rendered⟩ := (compile_wellFormed accepted).exists_text
  refine ⟨text, rendered, FilterGraph.decodesFrom_text legible rendered, ?_⟩
  intro otherTimeline otherCatalog other alsoAccepted alsoRendered
  exact FilterGraph.printed_eq (compiled_legible alsoAccepted) legible alsoRendered rendered

/-! Half a second of titles, slowed down, behind a second of black. -/

def titles : Asset Float := ⟨⟨"titles"⟩, "/media/titles.mov", "titles.mov", 4.0, true, false, 640, 361⟩

def lateTitles : Timeline Float where
  clips := [⟨titles.id, 1.0, some 0.25, some 0.75, 0.5, 100.0, 0⟩]
  duration := none
  format := .mp4

theorem lateTitles_text_decodes : ∃ compiled text,
    compile lateTitles [(titles.id, titles)] = .ok compiled ∧
      compiled.graph.text? = some text ∧ compiled.graph.DecodesFrom text ∧
      (∀ (otherTimeline : Timeline Float) (otherCatalog : IdMap (Asset Float))
        (other : Compiled Float), compile otherTimeline otherCatalog = .ok other →
          other.graph.text? = some text →
            other.graph.chains.map Chain.printed = compiled.graph.chains.map Chain.printed) ∧
      compiled.graph.chains.map Chain.names =
        [[], [['0', ':', 'v']], [['b', 'l', 'k', '0'], ['v', '0']]] := by
  have result : (compile lateTitles [(titles.id, titles)]).map
      (fun compiled => compiled.graph.chains.map Chain.names) =
        .ok [[], [['0', ':', 'v']], [['b', 'l', 'k', '0'], ['v', '0']]] := by
    decide +kernel
  obtain ⟨compiled, accepted, names⟩ := exists_compiled result
  obtain ⟨text, rendered, decodes, determined⟩ := compiled_text_decodes accepted
  exact ⟨compiled, text, accepted, rendered, decodes, determined, names⟩

end Compiled

end Montage
