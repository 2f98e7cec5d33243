import Montage.Proofs.Graph.Linking
import Montage.Proofs.Graph.StageText

/-!
Contract: the text of a graph loses no structure.

Semicolons end chains, brackets enclose names and commas stand between stages.
None of these marks occurs inside a stage or a name, so the text falls apart in
one way only, into the chains it was put together from.

Owns: pieces of text and that there is one way to read a piece, chains whose
names are words, and that two graphs of such chains with one text are printed
alike.
Does not own: the text of single stages, in `Proofs.Graph.StageText`.
-/

namespace Montage.Graph

open Montage.Number

/-! ## Pieces -/

def bracketed (name : List Char) : List Char := '[' :: (name ++ [']'])

def Unbracketed (cs : List Char) : Prop := '[' ∉ cs ∧ ']' ∉ cs

/-- A text that reads as names in brackets, a body without brackets and a label in brackets. -/
structure Piece (text : List Char) (names : List (List Char)) (body label : List Char) : Prop where
  layout : text = names.flatMap bracketed ++ (body ++ bracketed label)
  names : ∀ name ∈ names, Unbracketed name
  body : Unbracketed body
  label : Unbracketed label

theorem bracketed_cut {first second firstRest secondRest : List Char}
    (left : Unbracketed first) (right : Unbracketed second)
    (same : bracketed first ++ firstRest = bracketed second ++ secondRest) :
    first = second ∧ firstRest = secondRest := by
  simp only [bracketed, List.cons_append, List.append_assoc, List.nil_append, List.cons.injEq,
    true_and] at same
  exact cut_unique left.2 right.2 same

/-- Behind the label a text does not go on. -/
theorem body_ne_names {name body label rest otherLabel : List Char} (named : Unbracketed name)
    (plain : Unbracketed body) (labelled : Unbracketed label) :
    body ++ bracketed label ≠ bracketed name ++ (rest ++ bracketed otherLabel) := by
  intro same
  cases body with
  | nil =>
      have padded : bracketed label ++ [] = bracketed name ++ (rest ++ bracketed otherLabel) := by
        rw [List.append_nil]
        exact same
      obtain ⟨-, nothing⟩ := bracketed_cut labelled named padded
      simp [bracketed] at nothing
  | cons c body =>
      have opens : c = '[' := (List.cons.inj same).1
      exact plain.1 (by rw [opens]; exact List.mem_cons_self)

/-- There is one way to read a piece. -/
theorem Piece.unique {text : List Char} {names otherNames : List (List Char)}
    {body otherBody label otherLabel : List Char} (first : Piece text names body label)
    (second : Piece text otherNames otherBody otherLabel) :
    names = otherNames ∧ body = otherBody ∧ label = otherLabel := by
  obtain ⟨layout, named, plain, labelled⟩ := first
  obtain ⟨otherLayout, otherNamed, otherPlain, otherLabelled⟩ := second
  rw [layout] at otherLayout
  clear layout
  induction names generalizing otherNames with
  | nil =>
      cases otherNames with
      | nil =>
          obtain ⟨rfl, sameLabel⟩ := cut_unique plain.1 otherPlain.1 otherLayout
          exact ⟨rfl, rfl, List.append_cancel_right sameLabel⟩
      | cons name rest =>
          rw [List.flatMap_cons, List.append_assoc, ← List.append_assoc _ otherBody] at otherLayout
          exact absurd otherLayout
            (body_ne_names (otherNamed name List.mem_cons_self) plain labelled)
  | cons name names inductionHypothesis =>
      obtain ⟨nameUnbracketed, namesUnbracketed⟩ := List.forall_mem_cons.mp named
      cases otherNames with
      | nil =>
          rw [List.flatMap_cons, List.append_assoc, ← List.append_assoc _ body] at otherLayout
          exact absurd otherLayout.symm (body_ne_names nameUnbracketed otherPlain otherLabelled)
      | cons otherName otherNames =>
          obtain ⟨otherUnbracketed, othersUnbracketed⟩ := List.forall_mem_cons.mp otherNamed
          rw [List.flatMap_cons, List.flatMap_cons, List.append_assoc, List.append_assoc]
            at otherLayout
          obtain ⟨rfl, sameRest⟩ := bracketed_cut nameUnbracketed otherUnbracketed otherLayout
          obtain ⟨rfl, rfl, rfl⟩ :=
            inductionHypothesis namesUnbracketed sameRest othersUnbracketed
          exact ⟨rfl, rfl, rfl⟩

/-! ## Names -/

/-- A name that consists of letters and digits. -/
def Label.IsWord (label : Label) : Prop := ∀ c ∈ label.name.toList, c.isAlphanum = true

/-- What stands between the brackets of a source. -/
def Source.name : Source → String
  | .input index kind => natText index ++ ":" ++ kind.text
  | .label name => name.name

theorem Label.toList_text (label : Label) : label.text.toList = bracketed label.name.toList := by
  simp [Label.text, bracketed, String.toList_append]

theorem Source.toList_text (source : Source) : source.text.toList = bracketed source.name.toList := by
  cases source with
  | input index kind => simp [Source.text, Source.name, bracketed, String.toList_append]
  | label name => exact name.toList_text

theorem Label.IsWord.plain {label : Label} (word : label.IsWord) : Plain label.name := by
  intro c member
  by_contra marked
  rw [Bool.not_eq_false] at marked
  simp only [isGraphMark, Bool.or_eq_true, decide_eq_true_eq] at marked
  have inWord := word c member
  rcases marked with ((rfl | rfl) | rfl) | rfl <;> exact absurd inWord (by decide)

theorem Label.IsWord.unmarked {label : Label} (word : label.IsWord) : ':' ∉ label.name.toList :=
  fun member => absurd (word ':' member) (by decide)

theorem Plain.unbracketed {text : String} (plain : Plain text) : Unbracketed text.toList :=
  ⟨fun member => absurd (plain '[' member) (by decide),
    fun member => absurd (plain ']' member) (by decide)⟩

theorem Plain.notMem {text : String} (plain : Plain text) {mark : Char}
    (isMark : isGraphMark mark = true) : mark ∉ text.toList := by
  intro member
  rw [plain mark member] at isMark
  cases isMark

/-- A source is legible when the label it names, if it names one, is a word. -/
def Source.IsLegible (source : Source) : Prop := ∀ label ∈ source.label?, label.IsWord

theorem StreamKind.text_injective {first second : StreamKind} (same : first.text = second.text) :
    first = second := by
  cases first <;> cases second <;> first | rfl | exact absurd same (by decide)

theorem Source.plain_name {source : Source} (legible : source.IsLegible) : Plain source.name := by
  cases source with
  | input index kind =>
      simp only [Source.name, plain_append, plain_natText, true_and]
      cases kind <;> decide
  | label name => exact (legible name rfl).plain

/-- An input is told from a label by its colon, which no word contains. -/
theorem Source.name_injective {first second : Source} (left : first.IsLegible)
    (right : second.IsLegible) (same : first.name = second.name) : first = second := by
  have colon : ∀ index kind, ':' ∈ (Source.input index kind).name.toList := by
    intro index kind
    simp [Source.name, String.toList_append]
  cases first with
  | input index kind =>
      cases second with
      | input otherIndex otherKind =>
          simp only [Source.name, String.append_assoc] at same
          obtain ⟨sameIndex, sameKind⟩ :=
            (numeric_natText index).cut (numeric_natText otherIndex) (by decide) same
          rw [natText_injective sameIndex, StreamKind.text_injective sameKind]
      | label name =>
          have marked := colon index kind
          rw [same] at marked
          exact absurd marked (right name rfl).unmarked
  | label name =>
      cases second with
      | input otherIndex otherKind =>
          have marked := colon otherIndex otherKind
          rw [← same] at marked
          exact absurd marked (left name rfl).unmarked
      | label other =>
          cases name
          cases other
          exact congrArg (fun name => Source.label ⟨name⟩) same

/-! ## Chains -/

/-- A chain with a stage, all of whose labels are words. -/
structure Chain.IsLegible {α : Type} (chain : Chain α) : Prop where
  staged : chain.filters ≠ []
  sources : ∀ source ∈ chain.sources, source.IsLegible
  output : chain.output.IsWord

def Chain.names {α : Type} (chain : Chain α) : List (List Char) :=
  chain.sources.map (·.name.toList)

def Chain.stageTexts (chain : Chain Float) : List (List Char) := chain.filters.map (·.text.toList)

/-- A chain with its numbers as they are printed. -/
def Chain.printed (chain : Chain Float) : Chain String :=
  ⟨chain.sources, chain.filters.map Filter.printed, chain.output⟩

theorem Chain.toList_text (chain : Chain Float) :
    chain.text.toList = chain.names.flatMap bracketed ++
      ([','].intercalate chain.stageTexts ++ bracketed chain.output.name.toList) := by
  simp only [Chain.text, String.toList_append, String.toList_join, String.toList_intercalate,
    Label.toList_text, List.flatMap_map, List.map_map, Source.toList_text, Chain.names,
    Chain.stageTexts, List.append_assoc]
  rfl

theorem mem_intercalate {mark c : Char} {parts : List (List Char)}
    (member : c ∈ [mark].intercalate parts) : c = mark ∨ ∃ part ∈ parts, c ∈ part := by
  induction parts with
  | nil => simp at member
  | cons part rest inductionHypothesis =>
      cases rest with
      | nil =>
          rw [List.intercalate_singleton] at member
          exact Or.inr ⟨part, List.mem_cons_self, member⟩
      | cons next rest =>
          rw [List.intercalate_cons_cons, List.mem_append, List.mem_append,
            List.mem_singleton] at member
          rcases member with (inPart | isMark) | inRest
          · exact Or.inr ⟨part, List.mem_cons_self, inPart⟩
          · exact Or.inl isMark
          · rcases inductionHypothesis inRest with isMark | ⟨other, isPart, inOther⟩
            · exact Or.inl isMark
            · exact Or.inr ⟨other, List.mem_cons_of_mem part isPart, inOther⟩

theorem Chain.notMem_stages (chain : Chain Float) {mark : Char} (isMark : isGraphMark mark = true)
    (noComma : mark ≠ ',') : mark ∉ [','].intercalate chain.stageTexts := by
  intro member
  rcases mem_intercalate member with isComma | ⟨part, isPart, inPart⟩
  · exact noComma isComma
  · obtain ⟨stage, -, rfl⟩ := List.mem_map.mp isPart
    exact stage.plain_text.notMem isMark inPart

namespace Chain.IsLegible

variable {chain other : Chain Float}

theorem piece (legible : chain.IsLegible) : Piece chain.text.toList chain.names
    ([','].intercalate chain.stageTexts) chain.output.name.toList where
  layout := chain.toList_text
  names := by
    intro name member
    obtain ⟨source, isSource, rfl⟩ := List.mem_map.mp member
    exact (Source.plain_name (legible.sources source isSource)).unbracketed
  body := ⟨chain.notMem_stages (by decide) (by decide), chain.notMem_stages (by decide) (by decide)⟩
  label := legible.output.plain.unbracketed

theorem splitOn_stages (legible : chain.IsLegible) :
    ([','].intercalate chain.stageTexts).splitOn ',' = chain.stageTexts := by
  refine List.splitOn_intercalate ',' ?_ ?_
  · intro part isPart
    obtain ⟨stage, -, rfl⟩ := List.mem_map.mp isPart
    exact stage.plain_text.notMem (by decide)
  · exact fun empty => legible.staged (List.map_eq_nil_iff.mp empty)

/-- The text of a chain reads as its sources, its stages and its output, and as nothing else. -/
theorem piece_iff (legible : chain.IsLegible) {names : List (List Char)} {body label : List Char} :
    Piece chain.text.toList names body label ↔
      names = chain.names ∧ body.splitOn ',' = chain.stageTexts ∧
        label = chain.output.name.toList := by
  constructor
  · intro piece
    obtain ⟨rfl, rfl, rfl⟩ := piece.unique legible.piece
    exact ⟨rfl, legible.splitOn_stages, rfl⟩
  · rintro ⟨rfl, stages, rfl⟩
    have body : body = [','].intercalate chain.stageTexts := by
      rw [← stages, List.intercalate_splitOn]
    rw [body]
    exact legible.piece

theorem notMem_semicolon (legible : chain.IsLegible) : ';' ∉ chain.text.toList := by
  have unmarked : ∀ name : List Char, ';' ∉ name → ';' ∉ bracketed name := by
    intro name plain
    simp [bracketed, plain]
  rw [chain.toList_text, List.mem_append, List.mem_append, List.mem_flatMap]
  rintro (⟨name, isName, inName⟩ | inStages | inLabel)
  · obtain ⟨source, isSource, rfl⟩ := List.mem_map.mp isName
    have plain := Source.plain_name (legible.sources source isSource)
    exact unmarked _ (plain.notMem (by decide)) inName
  · exact chain.notMem_stages (by decide) (by decide) inStages
  · exact unmarked _ (legible.output.plain.notMem (by decide)) inLabel

end Chain.IsLegible

/-- Where one function tells another apart element by element, it does so list by list. -/
theorem map_eq_of_map_eq {α β γ : Type} {f : α → β} {g : α → γ} {first second : List α}
    (tells : ∀ a ∈ first, ∀ b ∈ second, f a = f b → g a = g b)
    (same : first.map f = second.map f) : first.map g = second.map g := by
  induction first generalizing second with
  | nil =>
      rw [List.map_nil, eq_comm, List.map_eq_nil_iff] at same
      rw [same]
  | cons a first inductionHypothesis =>
      cases second with
      | nil => cases same
      | cons b second =>
          obtain ⟨sameHead, sameTail⟩ := List.cons.inj same
          rw [List.map_cons, List.map_cons, tells a List.mem_cons_self b List.mem_cons_self sameHead,
            inductionHypothesis (fun c inFirst d inSecond =>
              tells c (List.mem_cons_of_mem a inFirst) d (List.mem_cons_of_mem b inSecond)) sameTail]

/-- Legible chains with one text have the same sources, stages and output. -/
theorem Chain.IsLegible.printed_eq {first second : Chain Float} (left : first.IsLegible)
    (right : second.IsLegible) (same : first.text = second.text) :
    first.printed = second.printed := by
  have piece := left.piece
  rw [same] at piece
  obtain ⟨sameNames, sameStages, sameLabel⟩ := right.piece_iff.mp piece
  rw [left.splitOn_stages] at sameStages
  have sources := map_eq_of_map_eq (g := id) (fun source isSource other isOther sameName =>
    Source.name_injective (left.sources source isSource) (right.sources other isOther)
      (String.toList_inj.mp sameName)) sameNames
  have stages := map_eq_of_map_eq (fun stage _ other _ sameText =>
    Filter.printed_eq (String.toList_inj.mp sameText)) sameStages
  rw [List.map_id, List.map_id] at sources
  have output : first.output = second.output := by
    obtain ⟨_, _, _⟩ := first
    exact congrArg Label.mk (String.toList_inj.mp sameLabel)
  rw [Chain.printed, Chain.printed, sources, stages, output]

/-! ## Graphs -/

namespace FilterGraph

variable {graph other : FilterGraph Float}

theorem toList_text {text : String} (rendered : graph.text? = some text) :
    text.toList = [';'].intercalate (graph.chains.map (·.text.toList)) := by
  simp only [FilterGraph.text?, Option.ite_none_left_eq_some, Option.some.injEq] at rendered
  obtain ⟨-, rfl⟩ := rendered
  rw [String.toList_intercalate, List.map_map]
  rfl

/-- A text that falls apart into the chains of a graph, and every piece of it into the names, the
stages and the label of one chain. -/
structure DecodesFrom (graph : FilterGraph Float) (text : String) : Prop where
  pieces : text.toList.splitOn ';' = graph.chains.map (·.text.toList)
  piece_iff : ∀ chain ∈ graph.chains, ∀ names body label,
    Piece chain.text.toList names body label ↔
      names = chain.names ∧ body.splitOn ',' = chain.stageTexts ∧
        label = chain.output.name.toList
  plain : ∀ chain ∈ graph.chains, ∀ stage ∈ chain.filters, Plain stage.text

theorem decodesFrom_text (legible : ∀ chain ∈ graph.chains, chain.IsLegible) {text : String}
    (rendered : graph.text? = some text) : graph.DecodesFrom text where
  pieces := by
    rw [toList_text rendered]
    refine List.splitOn_intercalate ';' ?_ ?_
    · intro part isPart
      obtain ⟨chain, isChain, rfl⟩ := List.mem_map.mp isPart
      exact (legible chain isChain).notMem_semicolon
    · intro empty
      rw [FilterGraph.text?, FilterGraph.isEmpty, List.map_eq_nil_iff.mp empty] at rendered
      cases rendered
  piece_iff := fun chain isChain _ _ _ => (legible chain isChain).piece_iff
  plain := fun _ _ stage _ => stage.plain_text

/-- Legible graphs with one text have the same chains, with their numbers as they are printed. -/
theorem printed_eq (left : ∀ chain ∈ graph.chains, chain.IsLegible)
    (right : ∀ chain ∈ other.chains, chain.IsLegible) {text : String}
    (rendered : graph.text? = some text) (alsoRendered : other.text? = some text) :
    graph.chains.map Chain.printed = other.chains.map Chain.printed := by
  have same := (decodesFrom_text left rendered).pieces
  rw [(decodesFrom_text right alsoRendered).pieces] at same
  exact map_eq_of_map_eq (fun chain isChain twin isTwin sameText =>
    (left chain isChain).printed_eq (right twin isTwin) (String.toList_inj.mp sameText)) same.symm

end FilterGraph

end Montage.Graph
