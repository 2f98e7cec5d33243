import Montage.Proofs.Compile.Verdict

/-!
Contract: the command of an export hands every chain the file of its own clip.

Files are numbered by first use while clips are placed, chains name the numbers,
and the command lists the files in that order. A chain that reads the file with
a number therefore reads the path behind the `-i` at that place.

Owns: the layout of the arguments, the one chain of each clip with its trim, and
`command_cuts_own_files`.
Does not own: the text of the graph, in `Proofs.Graph.Decoding`.
-/

namespace Montage

open Montage.Number
open Montage.Media
open Montage.Graph
open Montage.Compile (Resolution numbered)
open Montage.Export (Plan Command)

/-! ## Arguments -/

/-- The arguments that name the inputs. -/
def inputArguments (paths : List String) : List String := paths.flatMap fun path => ["-i", path]

/-- The input with a number stands behind the mark at twice the number. -/
theorem getElem?_inputArguments {paths : List String} {input : Nat} {path : String}
    (listed : paths[input]? = some path) (rest : List String) :
    (inputArguments paths ++ rest)[2 * input]? = some "-i" ∧
      (inputArguments paths ++ rest)[2 * input + 1]? = some path := by
  induction paths generalizing input with
  | nil => cases listed
  | cons first paths inductionHypothesis =>
      cases input with
      | zero =>
          cases listed
          exact ⟨rfl, rfl⟩
      | succ input => exact inductionHypothesis listed

/-- The arguments before the inputs. -/
def openingArguments : List String := ["-loglevel", "level+info", "-hide_banner", "-y"]

/-- The arguments of an export with a rendered graph, from first to last. -/
def Compiled.arguments (compiled : Compiled Float) (graph destination : String) : List String :=
  openingArguments ++ inputArguments compiled.inputs ++ ["-filter_complex", graph] ++
    (compiled.videoOutput.toList ++ compiled.audioOutput.toList).flatMap
      (fun label => ["-map", label.text]) ++
    ["-t", fixed 6 compiled.duration, destination]

theorem command_eq {compiled : Compiled Float} {graph destination : String}
    {program : Option String} {command : Command} (rendered : compiled.graph.text? = some graph)
    (accepted : (Plan.mk compiled destination).command program = .ok command) :
    command = ⟨program, compiled.arguments graph destination⟩ := by
  simp only [Plan.command, rendered] at accepted
  split at accepted
  · cases accepted
  · cases accepted
    simp [Compiled.arguments, openingArguments, inputArguments, Command.withOutput,
      Command.withGraph, Command.withInputs, Command.append, Command.start,
      Command.leadingArguments, Compiled.outputLabels, Plan.duration]

theorem getElem?_arguments {compiled : Compiled Float} {graph destination : String} {input : Nat}
    {path : String} (listed : compiled.inputs[input]? = some path) :
    (compiled.arguments graph destination)[openingArguments.length + 2 * input]? = some "-i" ∧
      (compiled.arguments graph destination)[openingArguments.length + 2 * input + 1]? =
        some path := by
  simp only [Compiled.arguments, List.append_assoc, Nat.add_assoc]
  rw [List.getElem?_append_right (Nat.le_add_right _ _),
    List.getElem?_append_right (Nat.le_add_right _ _), Nat.add_sub_cancel_left,
    Nat.add_sub_cancel_left]
  exact getElem?_inputArguments listed _

/-! ## Chains of clips -/

namespace Graph

variable {α : Type}

/-- The stage that cuts a stream of some kind. -/
def StreamKind.trim : StreamKind → α → α → Filter α
  | .audio => .audioTrim
  | .video => .trim

def Filter.isTrim : Filter α → Bool
  | .trim _ _ => true
  | .audioTrim _ _ => true
  | _ => false

end Graph

/-- Exactly one chain has a label. It takes a stream of the file behind a `-i` of some arguments,
and its first stage, the only one that trims, cuts the stream at both ends. -/
structure Compiled.Cuts {α : Type} (compiled : Compiled α) (arguments : List String) (label : Label)
    (kind : StreamKind) (path : String) (start finish : α) : Prop where
  once : (outputs compiled.graph.chains).count label = 1
  cut : ∃ chain input, compiled.graph.chain? label = some chain ∧
    chain.sources = [.input input kind] ∧
    chain.filters.head? = some (kind.trim start finish) ∧
    (∀ stage ∈ chain.filters.tail, stage.isTrim = false) ∧
    arguments[openingArguments.length + 2 * input]? = some "-i" ∧
    arguments[openingArguments.length + 2 * input + 1]? = some path

section Chains

variable {α : Type} [Seconds α]

theorem Compile.Audio.clipChain_trims (clip : PlacedClip α) :
    (Audio.clipChain clip).filters.head? =
        some (StreamKind.audio.trim clip.trimStart clip.trimEnd) ∧
      ∀ stage ∈ (Audio.clipChain clip).filters.tail, stage.isTrim = false := by
  refine ⟨rfl, ?_⟩
  intro stage behind
  simp only [Audio.clipChain, List.cons_append, List.nil_append, List.tail_cons, List.mem_cons,
    List.mem_append, Option.mem_toList] at behind
  rcases behind with rfl | (retimed | delayed) | amplified
  · rfl
  · obtain ⟨factor, _, rfl⟩ := List.mem_map.mp retimed
    rfl
  · simp only [Audio.delay?, Option.ite_none_right_eq_some, Option.some.injEq] at delayed
    obtain ⟨_, rfl⟩ := delayed
    rfl
  · simp only [Audio.gain?, Option.ite_none_left_eq_some, Option.some.injEq] at amplified
    obtain ⟨_, rfl⟩ := amplified
    rfl

theorem Compile.Video.clipChain_trims (size : Resolution) (clip : PlacedClip α) :
    (Video.clipChain size clip).filters.head? =
        some (StreamKind.video.trim clip.trimStart clip.trimEnd) ∧
      ∀ stage ∈ (Video.clipChain size clip).filters.tail, stage.isTrim = false := by
  refine ⟨rfl, ?_⟩
  intro stage behind
  simp only [Video.clipChain, List.cons_append, List.nil_append, List.tail_cons, List.mem_cons,
    List.mem_append, Option.mem_toList, List.not_mem_nil, or_false] at behind
  rcases behind with rfl | stretched | rfl | rfl | rfl
  · rfl
  · simp only [Video.stretch?, Option.ite_none_left_eq_some, Option.some.injEq] at stretched
    obtain ⟨_, rfl⟩ := stretched
    rfl
  · rfl
  · rfl
  · rfl

end Chains

/-! ## Files -/

section Files

variable {α : Type} [Seconds α] {timeline : Timeline α} {catalog : IdMap (Asset α)}
  {compiled : Compiled α}

/-- The inputs are the paths of the files that clips use, each file once. -/
theorem inputs_of_files {clips : List (PlacedClip α)} {files : List (FileId × String)}
    (placed : placeClips catalog timeline.clips = .ok (clips, files)) :
    (files.map Prod.snd).map some =
      timeline.fileIds.map fun id => (IdMap.get? id catalog).map Asset.path := by
  obtain ⟨-, ids, -⟩ := placeClips_eq_ok placed
  have known : FilesKnown catalog files := placeClips_known placed
  rw [Timeline.fileIds, ← ids, List.map_map, List.map_map]
  apply List.map_congr_left
  intro file member
  obtain ⟨asset, found, path⟩ := known file member
  show some file.2 = (IdMap.get? file.1 catalog).map Asset.path
  rw [found, Option.map_some, path]

/-- A clip is placed under its position, and its input stands for the file of its own. -/
theorem Resolved.exists_input {clips : List (PlacedClip α)} {files : List (FileId × String)}
    (resolved : Resolved catalog files 0 timeline.clips clips) {index : Nat} {clip : Clip α}
    {asset : Asset α} (here : timeline.clips[index]? = some clip)
    (known : IdMap.get? clip.fileId catalog = some asset) :
    ∃ input, clip.placed asset index input ∈ clips ∧
      (files.map Prod.snd)[input]? = some asset.path := by
  obtain ⟨placedClip, member, other, input, found, -, listed, rfl⟩ := resolved.exists_placed here
  rw [known] at found
  cases found
  rw [Nat.zero_add] at member
  refine ⟨input, member, ?_⟩
  rw [List.getElem?_map, listed]
  rfl

end Files

/-! ## Commands -/

section Commands

variable {timeline : Timeline Float} {catalog : IdMap (Asset Float)} {compiled : Compiled Float}

/-- What the command of an export consists of, and what each clip's chains take from it. -/
structure Compiled.CommandedAs (compiled : Compiled Float) (timeline : Timeline Float)
    (catalog : IdMap (Asset Float)) (destination : String) (arguments : List String) : Prop where
  layout : ∃ graph, compiled.graph.text? = some graph ∧
    arguments = compiled.arguments graph destination
  /-- One path for each file that clips use, in the order of first use. -/
  inputs : compiled.inputs.map some =
    timeline.fileIds.map fun id => (IdMap.get? id catalog).map Asset.path
  /-- A picture is cut only where there is a picture to put out. -/
  clips : ∀ kind index clip asset, timeline.clips[index]? = some clip →
    IdMap.get? clip.fileId catalog = some asset → asset.has kind = true →
      (kind = .video → compiled.videoOutput.isSome = true) →
        compiled.Cuts arguments (numbered kind.text index) kind asset.path
          (clip.trimStart.getD 0.0) (clip.trimEnd.getD asset.duration)

/-- A chain that reads one input, and trims there only, cuts the file of that input. -/
theorem Compiled.cuts_of_mem {chain : Chain Float} {kind : StreamKind} {input : Nat} {path : String}
    {start finish : Float} (labels : (outputs compiled.graph.chains).Nodup)
    (inGraph : chain ∈ compiled.graph.chains) (reads : chain.sources = [.input input kind])
    (trims : chain.filters.head? = some (kind.trim start finish) ∧
      ∀ stage ∈ chain.filters.tail, stage.isTrim = false)
    (listed : compiled.inputs[input]? = some path) (graph destination : String) :
    compiled.Cuts (compiled.arguments graph destination) chain.output kind path start finish where
  once := List.count_eq_one_of_mem labels (List.mem_map_of_mem inGraph)
  cut := ⟨chain, input, FilterGraph.chain?_of_mem labels inGraph, reads, trims.1, trims.2,
    getElem?_arguments listed⟩

/-- Every chain of a clip reads the clip's own file on the command line. -/
theorem command_cuts_own_files (accepted : compile timeline catalog = .ok compiled)
    (destination : String) (program : Option String) :
    ∃ arguments, (Plan.mk compiled destination).command program = .ok ⟨program, arguments⟩ ∧
      compiled.CommandedAs timeline catalog destination arguments := by
  obtain ⟨command, commanded⟩ := exists_command accepted destination program
  obtain ⟨graph, rendered⟩ := (compile_wellFormed accepted).exists_text
  obtain rfl := command_eq rendered commanded
  refine ⟨_, commanded, ?_⟩
  obtain ⟨clips, files, placed, assembled⟩ := compile_eq_ok accepted
  obtain ⟨-, -, resolved⟩ := placeClips_eq_ok placed
  obtain ⟨inputs, -, -, -, -⟩ := assemble_eq_ok assembled
  have labels := (assemble_linked assembled resolved.indices_nodup).distinct
  refine ⟨⟨graph, rendered, rfl⟩, ?_, ?_⟩
  · rw [inputs]
    exact inputs_of_files placed
  · intro kind index clip asset here known has output
    obtain ⟨input, member, listed⟩ := resolved.exists_input here known
    rw [← inputs] at listed
    cases kind with
    | audio =>
        have inGraph := soundChain_mem assembled member has
        exact Compiled.cuts_of_mem labels inGraph rfl (Compile.Audio.clipChain_trims _) listed _ _
    | video =>
        obtain ⟨film, -⟩ := (isSome_videoOutput_iff assembled).mp (output rfl)
        obtain ⟨size, inGraph⟩ := pictureChain_mem assembled film member has
        exact Compiled.cuts_of_mem labels inGraph rfl (Compile.Video.clipChain_trims size _) listed
          _ _

/-! A voice is used twice, before and behind a film that was added to the inputs in between. -/

def voice : Asset Float := ⟨⟨"voice"⟩, "/media/voice.wav", "voice.wav", 10.0, false, true, 0, 0⟩

def scene : Asset Float := ⟨⟨"scene"⟩, "/media/scene.mkv", "scene.mkv", 8.0, true, true, 1280, 720⟩

def narratedScene : Timeline Float where
  clips := [⟨voice.id, 0.0, none, some 2.0, 1.0, 100.0, 0⟩,
    ⟨scene.id, 2.0, some 1.5, none, 2.0, 50.0, 1⟩, ⟨voice.id, 4.0, some 3.0, some 5.0, 1.0, 100.0, 0⟩]
  duration := none
  format := .mp4

theorem narratedScene_cuts_own_files : ∃ compiled arguments,
    compile narratedScene [(scene.id, scene), (voice.id, voice)] = .ok compiled ∧
      (Plan.mk compiled "/out/cut.mp4").command none = .ok ⟨none, arguments⟩ ∧
      compiled.CommandedAs narratedScene [(scene.id, scene), (voice.id, voice)] "/out/cut.mp4"
        arguments ∧
      compiled.inputs = ["/media/voice.wav", "/media/scene.mkv"] := by
  have result : (compile narratedScene [(scene.id, scene), (voice.id, voice)]).map
      Compiled.inputs = .ok ["/media/voice.wav", "/media/scene.mkv"] := by
    decide +kernel
  obtain ⟨compiled, accepted, inputs⟩ := exists_compiled result
  obtain ⟨arguments, commanded, cuts⟩ := command_cuts_own_files accepted "/out/cut.mp4" none
  exact ⟨compiled, arguments, accepted, commanded, cuts, inputs⟩

end Commands

end Montage
