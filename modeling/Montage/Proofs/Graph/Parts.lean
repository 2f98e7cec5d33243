import Montage.Graph.Chain
import Montage.Proofs.Number.Printing

/-!
Contract: the text of a graph as words and numbers.

Every number of a rendered graph is printed on its own, between words that are
the same for all numbers. Numbers that are fixed by the grammar of a stage are
numbers too; the names of streams are words.

Owns: the parts of stages, chains and graphs, that their texts joined are the
rendered text, and when all numbers of a stage are decimals.
-/

namespace Montage.Graph

open Montage.Number

/-- A stretch of rendered text. -/
inductive Part where
  | word (text : String)
  | number (text : String)

namespace Part

def text : Part → String
  | .word text => text
  | .number text => text

def number? : Part → Option String
  | .word _ => none
  | .number text => some text

/-- The text that parts make up together. -/
def joined (parts : List Part) : String := String.join (parts.map text)

/-- The numbers among some parts. -/
def numbers (parts : List Part) : List String := parts.filterMap number?

@[simp] theorem joined_nil : joined [] = "" := rfl

@[simp] theorem joined_cons (part : Part) (rest : List Part) :
    joined (part :: rest) = part.text ++ joined rest := String.join_cons

@[simp] theorem joined_append (first second : List Part) :
    joined (first ++ second) = joined first ++ joined second := by
  rw [joined, List.map_append, String.join_append]
  rfl

@[simp] theorem numbers_nil : numbers [] = [] := rfl

@[simp] theorem numbers_word (text : String) (rest : List Part) :
    numbers (word text :: rest) = numbers rest := rfl

@[simp] theorem numbers_number (text : String) (rest : List Part) :
    numbers (number text :: rest) = text :: numbers rest := rfl

@[simp] theorem numbers_append (first second : List Part) :
    numbers (first ++ second) = numbers first ++ numbers second := List.filterMap_append

theorem joined_flatten (lists : List (List Part)) :
    joined lists.flatten = String.join (lists.map joined) := by
  induction lists with
  | nil => rfl
  | cons parts lists inductionHypothesis =>
      rw [List.flatten_cons, joined_append, inductionHypothesis, List.map_cons, String.join_cons]

theorem joined_intercalate (mark : String) (lists : List (List Part)) :
    joined ([word mark].intercalate lists) = mark.intercalate (lists.map joined) := by
  induction lists with
  | nil => rfl
  | cons parts lists inductionHypothesis =>
      cases lists with
      | nil => simp
      | cons next lists =>
          rw [List.intercalate_cons_cons, joined_append, joined_append, inductionHypothesis]
          simp [text, String.append_assoc]

theorem mem_numbers_flatten {number : String} {lists : List (List Part)}
    (member : number ∈ numbers lists.flatten) : ∃ parts ∈ lists, number ∈ numbers parts := by
  obtain ⟨part, inside, isNumber⟩ := List.mem_filterMap.mp member
  obtain ⟨parts, listed, here⟩ := List.mem_flatten.mp inside
  exact ⟨parts, listed, List.mem_filterMap.mpr ⟨part, here, isNumber⟩⟩

theorem mem_numbers_intercalate {mark number : String} {lists : List (List Part)}
    (member : number ∈ numbers ([word mark].intercalate lists)) :
    ∃ parts ∈ lists, number ∈ numbers parts := by
  induction lists with
  | nil => cases member
  | cons parts lists inductionHypothesis =>
      cases lists with
      | nil => exact ⟨parts, List.mem_singleton_self parts, by simpa using member⟩
      | cons next lists =>
          rw [List.intercalate_cons_cons, numbers_append, numbers_append, List.append_assoc,
            List.mem_append, List.mem_append] at member
          rcases member with here | marked | later
          · exact ⟨parts, List.mem_cons_self, here⟩
          · cases marked
          · obtain ⟨found, isLater, inside⟩ := inductionHypothesis later
            exact ⟨found, List.mem_cons_of_mem _ isLater, inside⟩

end Part

/-! ## Stages -/

def Pts.parts : Pts Float → List Part
  | .restart => [.word "PTS-STARTPTS"]
  | .scale factor => [.number (fixed 6 factor), .word "*PTS"]

def Filter.parts : Filter Float → List Part
  | .trim start finish =>
    [.word "trim=start=", .number (shortest start), .word ":end=", .number (shortest finish)]
  | .audioTrim start finish =>
    [.word "atrim=start=", .number (shortest start), .word ":end=", .number (shortest finish)]
  | .setPts pts => .word "setpts=" :: pts.parts
  | .audioSetPts pts => .word "asetpts=" :: pts.parts
  | .tempo factor => [.word "atempo=", .number (fixed 6 factor)]
  | .delay millis => [.word "adelay=", .number (natText millis), .word ":all=", .number "1"]
  | .volume gain => [.word "volume=", .number (fixed 2 gain)]
  | .scaleToFit width height =>
    [.word "scale=", .number (natText width), .word ":", .number (natText height),
      .word ":force_original_aspect_ratio=decrease"]
  | .padCentered width height =>
    [.word "pad=", .number (natText width), .word ":", .number (natText height),
      .word ":(ow-iw)/", .number "2", .word ":(oh-ih)/", .number "2"]
  | .sampleAspect ratio => [.word "setsar=", .number (natText ratio)]
  | .black width height duration rate =>
    [.word "color=c=black:s=", .number (natText width), .word "x", .number (natText height),
      .word ":d=", .number (fixed 6 duration), .word ":r=", .number (natText rate)]
  | .mix inputs =>
    [.word "amix=inputs=", .number (natText inputs), .word ":duration=longest:dropout_transition=",
      .number "0", .word ":normalize=", .number "0"]
  | .concat segments =>
    [.word "concat=n=", .number (natText segments), .word ":v=", .number "1", .word ":a=",
      .number "0"]

theorem Pts.joined_parts (pts : Pts Float) : Part.joined pts.parts = pts.text := by
  cases pts <;> simp [parts, Pts.text, Part.text]

theorem Filter.joined_parts (stage : Filter Float) : Part.joined stage.parts = stage.text := by
  cases stage <;> unfold Filter.text <;>
    simp only [parts, Part.text, Pts.joined_parts, sizeText, String.append_assoc,
      Part.joined_cons, Part.joined_nil, String.append_empty, String.reduceAppend]

/-- The numbers of a stage that are computed and may fail to be finite. -/
def Filter.reals : Filter Float → List Float
  | .trim start finish => [start, finish]
  | .audioTrim start finish => [start, finish]
  | .setPts (.scale factor) => [factor]
  | .audioSetPts (.scale factor) => [factor]
  | .tempo factor => [factor]
  | .volume gain => [gain]
  | .black _ _ duration _ => [duration]
  | _ => []

/-- A stage of finite numbers prints decimals. -/
theorem Filter.decimals {stage : Filter Float} (finite : ∀ x ∈ stage.reals, x.isFinite = true) :
    ∀ number ∈ Part.numbers stage.parts, IsDecimal number := by
  have zero : IsDecimal "0" := isDecimal_natText 0
  have one : IsDecimal "1" := isDecimal_natText 1
  have two : IsDecimal "2" := isDecimal_natText 2
  have whole := isDecimal_natText
  have fixed {places : Nat} {x : Float} : x.isFinite = true → IsDecimal (fixed places x) :=
    (isDecimal_fixed_iff _).mpr
  have shortest {x : Float} : x.isFinite = true → IsDecimal (shortest x) := isDecimal_shortest
  cases stage with
  | setPts pts => cases pts <;> simp_all [parts, Pts.parts, reals]
  | audioSetPts pts => cases pts <;> simp_all [parts, Pts.parts, reals]
  | _ => simp_all [parts, reals]

/-! ## Chains and graphs -/

def Source.parts : Source → List Part
  | .input index kind =>
    [.word "[", .number (natText index), .word (":" ++ kind.text ++ "]")]
  | .label name => [.word name.text]

def Chain.parts (chain : Chain Float) : List Part :=
  (chain.sources.map Source.parts).flatten ++
    ([Part.word ","].intercalate (chain.filters.map Filter.parts) ++ [.word chain.output.text])

def FilterGraph.parts (graph : FilterGraph Float) : List Part :=
  [Part.word ";"].intercalate (graph.chains.map Chain.parts)

theorem Source.joined_parts (source : Source) : Part.joined source.parts = source.text := by
  cases source <;> simp [parts, Source.text, Part.text, String.append_assoc]

theorem Chain.joined_parts (chain : Chain Float) : Part.joined chain.parts = chain.text := by
  simp [parts, Chain.text, Part.joined_flatten, Part.joined_intercalate, Function.comp_def,
    Source.joined_parts, Filter.joined_parts, Part.text, String.append_assoc]

/-- The rendered text of a graph is what its parts make up. -/
theorem FilterGraph.text?_eq_joined {graph : FilterGraph Float} {text : String}
    (rendered : graph.text? = some text) : text = Part.joined graph.parts := by
  simp only [FilterGraph.text?, Option.ite_none_left_eq_some, Option.some.injEq] at rendered
  rw [← rendered.2, parts, Part.joined_intercalate]
  simp [Function.comp_def, Chain.joined_parts]

theorem Source.decimals (source : Source) :
    ∀ number ∈ Part.numbers source.parts, IsDecimal number := by
  cases source <;> simp [parts, isDecimal_natText]

/-- A graph of finite numbers prints decimals. -/
theorem FilterGraph.decimals {graph : FilterGraph Float}
    (finite : ∀ chain ∈ graph.chains, ∀ stage ∈ chain.filters, ∀ x ∈ stage.reals,
      x.isFinite = true) : ∀ number ∈ Part.numbers graph.parts, IsDecimal number := by
  intro number member
  obtain ⟨_, isChain, inChain⟩ := Part.mem_numbers_intercalate member
  obtain ⟨chain, listed, rfl⟩ := List.mem_map.mp isChain
  rw [Chain.parts, Part.numbers_append, Part.numbers_append, List.mem_append,
    List.mem_append] at inChain
  rcases inChain with inSources | inStages | inLabel
  · obtain ⟨_, isSource, inSource⟩ := Part.mem_numbers_flatten inSources
    obtain ⟨source, -, rfl⟩ := List.mem_map.mp isSource
    exact source.decimals number inSource
  · obtain ⟨_, isStage, inStage⟩ := Part.mem_numbers_intercalate inStages
    obtain ⟨stage, inFilters, rfl⟩ := List.mem_map.mp isStage
    exact Filter.decimals (finite chain listed stage inFilters) number inStage
  · cases inLabel

end Montage.Graph
