import Montage.Graph.Filter

/-!
Contract: chains of stages, and the graph they form.

A chain reads streams of input files or outputs of other chains and gives its
result a label. The text of a graph joins chains with semicolons and the stages
of a chain with commas; names of streams stand in brackets.
-/

namespace Montage.Graph

/-- The name of a stream inside a graph. -/
structure Label where
  name : String
deriving DecidableEq, Repr

def Label.text (label : Label) : String := "[" ++ label.name ++ "]"

inductive StreamKind where
  | audio
  | video
deriving DecidableEq, Repr

def StreamKind.text : StreamKind → String
  | .audio => "a"
  | .video => "v"

/-- Where a chain reads from. -/
inductive Source where
  /-- A stream of an input file. -/
  | input (index : Nat) (kind : StreamKind)
  | label (name : Label)
deriving DecidableEq, Repr

def Source.text : Source → String
  | .input index kind => "[" ++ natText index ++ ":" ++ kind.text ++ "]"
  | .label name => name.text

/-- Stages applied in order to the sources. -/
structure Chain (α : Type) where
  sources : List Source
  filters : List (Filter α)
  output : Label
deriving DecidableEq, Repr

def Chain.text (chain : Chain Float) : String :=
  String.join (chain.sources.map Source.text) ++
    ",".intercalate (chain.filters.map Filter.text) ++ chain.output.text

structure FilterGraph (α : Type) where
  chains : List (Chain α)
deriving DecidableEq, Repr

namespace FilterGraph

variable {α : Type}

def empty : FilterGraph α := ⟨[]⟩

def isEmpty (graph : FilterGraph α) : Bool := graph.chains.isEmpty

def extend (graph : FilterGraph α) (chains : List (Chain α)) : FilterGraph α :=
  ⟨graph.chains ++ chains⟩

/-- Adds one chain; its output label names the new stream. -/
def push (graph : FilterGraph α) (chain : Chain α) : Label × FilterGraph α :=
  (chain.output, graph.extend [chain])

def text? (graph : FilterGraph Float) : Option String :=
  if graph.isEmpty then none else some (";".intercalate (graph.chains.map Chain.text))

end FilterGraph

end Montage.Graph
