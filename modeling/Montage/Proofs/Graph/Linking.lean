import Mathlib.Data.List.Nodup
import Montage.Graph.Chain

/-!
Contract: how chains of one graph are linked by labels.

`WellLinked` is the discipline of a graph the engine accepts: every label is
given once, read only behind the chain that gives it, and either read exactly
once or left over as a result.

Owns: the labels chains give and read, the linking discipline, and that it
holds of two disjoint parts put together.
Does not own: which labels the two sides of a compiled graph use.
-/

namespace Montage.Graph

variable {α : Type}

/-- The chain's output that a source names, if it names one. -/
def Source.label? : Source → Option Label
  | .input _ _ => none
  | .label name => some name

def Chain.reads (chain : Chain α) : List Label := chain.sources.filterMap Source.label?

def outputs (chains : List (Chain α)) : List Label := chains.map (·.output)

/-- The labels that chains read, one entry for each time. -/
def reads (chains : List (Chain α)) : List Label := chains.flatMap Chain.reads

@[simp] theorem outputs_append (first second : List (Chain α)) :
    outputs (first ++ second) = outputs first ++ outputs second :=
  List.map_append

@[simp] theorem reads_append (first second : List (Chain α)) :
    reads (first ++ second) = reads first ++ reads second :=
  List.flatMap_append

@[simp] theorem outputs_cons (chain : Chain α) (rest : List (Chain α)) :
    outputs (chain :: rest) = chain.output :: outputs rest := rfl

@[simp] theorem reads_cons (chain : Chain α) (rest : List (Chain α)) :
    reads (chain :: rest) = chain.reads ++ reads rest := rfl

@[simp] theorem outputs_nil : outputs ([] : List (Chain α)) = [] := rfl

@[simp] theorem reads_nil : reads ([] : List (Chain α)) = [] := rfl

/-- Chains whose labels link up and leave the given results over. -/
structure WellLinked (chains : List (Chain α)) (results : List Label) : Prop where
  /-- No two chains give the same label. -/
  distinct : (outputs chains).Nodup
  /-- A chain reads only what an earlier chain gives. -/
  earlier : ∀ before chain after, chains = before ++ chain :: after →
    ∀ label ∈ chain.reads, label ∈ outputs before
  /-- What a chain gives is read exactly once, by a later chain, or it is a result. -/
  fate : ∀ before chain after, chains = before ++ chain :: after →
    ((reads chains).count chain.output = 1 ∧ chain.output ∈ reads after ∧
        chain.output ∉ results) ∨
      (chain.output ∉ reads chains ∧ chain.output ∈ results)
  /-- Results are given by chains. -/
  given : ∀ label ∈ results, label ∈ outputs chains

theorem split_append {first second before after : List (Chain α)} {chain : Chain α}
    (split : first ++ second = before ++ chain :: after) :
    (∃ behind, first = before ++ chain :: behind ∧ after = behind ++ second) ∨
      (∃ ahead, before = first ++ ahead ∧ second = ahead ++ chain :: after) := by
  rcases List.append_eq_append_iff.mp split with ⟨ahead, eqBefore, eqSecond⟩ | ⟨behind, eqFirst, rest⟩
  · exact Or.inr ⟨ahead, eqBefore, eqSecond⟩
  · rcases List.cons_eq_append_iff.mp rest with ⟨rfl, eqSecond⟩ | ⟨tail, rfl, eqAfter⟩
    · refine Or.inr ⟨[], ?_, ?_⟩
      · rw [eqFirst, List.append_nil, List.append_nil]
      · rw [eqSecond, List.nil_append]
    · exact Or.inl ⟨tail, eqFirst, eqAfter⟩

theorem split_concat {chains before after : List (Chain α)} {chain last : Chain α}
    (split : chains ++ [last] = before ++ chain :: after) :
    (∃ behind, chains = before ++ chain :: behind ∧ after = behind ++ [last]) ∨
      (before = chains ∧ chain = last) := by
  rcases split_append split with inChains | ⟨ahead, eqBefore, eqLast⟩
  · exact Or.inl inChains
  · rcases ahead with _ | ⟨head, tail⟩
    · rw [List.append_nil] at eqBefore
      exact Or.inr ⟨eqBefore, (List.cons.inj eqLast).1.symm⟩
    · simp at eqLast

namespace WellLinked

variable {first second : List (Chain α)} {firstResults secondResults : List Label}

theorem nil : WellLinked ([] : List (Chain α)) [] where
  distinct := List.nodup_nil
  earlier := by simp
  fate := by simp
  given := by simp

theorem reads_subset (linked : WellLinked first firstResults) : reads first ⊆ outputs first := by
  intro label member
  obtain ⟨chain, inChains, inReads⟩ := List.mem_flatMap.mp member
  obtain ⟨before, after, rfl⟩ := List.append_of_mem inChains
  have given := linked.earlier before chain after rfl label inReads
  rw [outputs_append]
  exact List.mem_append_left _ given

/-- Two well linked parts without a common label are well linked together. -/
theorem append (left : WellLinked first firstResults) (right : WellLinked second secondResults)
    (apart : (outputs first).Disjoint (outputs second)) :
    WellLinked (first ++ second) (firstResults ++ secondResults) where
  distinct := by
    rw [outputs_append]
    exact List.nodup_append'.mpr ⟨left.distinct, right.distinct, apart⟩
  earlier := by
    intro before chain after split label inReads
    rcases split_append split with ⟨behind, inFirst, _⟩ | ⟨ahead, rfl, inSecond⟩
    · exact left.earlier before chain behind inFirst label inReads
    · rw [outputs_append]
      exact List.mem_append_right _ (right.earlier ahead chain after inSecond label inReads)
  fate := by
    intro before chain after split
    rcases split_append split with ⟨behind, inFirst, rfl⟩ | ⟨ahead, rfl, inSecond⟩
    · -- Nothing of the second part touches a label of the first.
      have given : chain.output ∈ outputs first := by simp [inFirst]
      have unread : chain.output ∉ reads second := fun member =>
        apart given (right.reads_subset member)
      have noResult : chain.output ∉ secondResults := fun member =>
        apart given (right.given _ member)
      rw [reads_append, reads_append, List.count_append, List.count_eq_zero_of_not_mem unread,
        Nat.add_zero, List.mem_append, List.mem_append, List.mem_append]
      rcases left.fate before chain behind inFirst with ⟨once, later, kept⟩ | ⟨never, result⟩
      · exact Or.inl ⟨once, Or.inl later, not_or.mpr ⟨kept, noResult⟩⟩
      · exact Or.inr ⟨not_or.mpr ⟨never, unread⟩, Or.inl result⟩
    · have given : chain.output ∈ outputs second := by simp [inSecond]
      have unread : chain.output ∉ reads first := fun member =>
        apart (left.reads_subset member) given
      have noResult : chain.output ∉ firstResults := fun member =>
        apart (left.given _ member) given
      rw [reads_append, List.count_append, List.count_eq_zero_of_not_mem unread, Nat.zero_add,
        List.mem_append, List.mem_append]
      rcases right.fate ahead chain after inSecond with ⟨once, later, kept⟩ | ⟨never, result⟩
      · exact Or.inl ⟨once, later, not_or.mpr ⟨noResult, kept⟩⟩
      · exact Or.inr ⟨not_or.mpr ⟨unread, never⟩, Or.inr result⟩
  given := by
    intro label member
    rw [outputs_append]
    rcases List.mem_append.mp member with inLeft | inRight
    · exact List.mem_append_left _ (left.given label inLeft)
    · exact List.mem_append_right _ (right.given label inRight)

/-- Chains that read no labels leave all of theirs over; one more chain may read them all. -/
theorem joining {chains : List (Chain α)} {join : Chain α} (distinct : (outputs chains).Nodup)
    (unlinked : reads chains = []) (joins : join.reads = outputs chains)
    (fresh : join.output ∉ outputs chains) : WellLinked (chains ++ [join]) [join.output] where
  distinct := by
    rw [outputs_append]
    refine List.nodup_append'.mpr ⟨distinct, List.nodup_singleton _, ?_⟩
    simpa [outputs] using fresh
  earlier := by
    intro before chain after split label inReads
    rcases split_concat split with ⟨behind, inChains, _⟩ | ⟨rfl, rfl⟩
    · have inAll : label ∈ reads chains := by
        rw [inChains, reads_append, reads_cons]
        exact List.mem_append_right _ (List.mem_append_left _ inReads)
      rw [unlinked] at inAll
      exact absurd inAll List.not_mem_nil
    · rw [joins] at inReads
      exact inReads
  fate := by
    intro before chain after split
    have readTotal : reads (chains ++ [join]) = outputs chains := by
      rw [reads_append, unlinked, reads_cons, joins, reads_nil, List.append_nil, List.nil_append]
    rw [readTotal]
    rcases split_concat split with ⟨behind, inChains, rfl⟩ | ⟨_, rfl⟩
    · have given : chain.output ∈ outputs chains := by simp [inChains]
      refine Or.inl ⟨List.count_eq_one_of_mem distinct given, ?_, ?_⟩
      · rw [reads_append, reads_cons, joins]
        exact List.mem_append_right _ (List.mem_append_left _ given)
      · intro result
        rw [List.mem_singleton.mp result] at given
        exact fresh given
    · exact Or.inr ⟨fresh, List.mem_singleton_self _⟩
  given := by
    intro label member
    rw [List.mem_singleton.mp member, outputs_append]
    exact List.mem_append_right _ (List.mem_singleton_self _)

theorem single {chain : Chain α} (unlinked : chain.reads = []) :
    WellLinked [chain] [chain.output] := by
  have behindNone : WellLinked ([] ++ [chain]) [chain.output] :=
    joining List.nodup_nil rfl unlinked List.not_mem_nil
  exact behindNone

theorem reorder (linked : WellLinked first firstResults)
    (same : firstResults.Perm secondResults) : WellLinked first secondResults where
  distinct := linked.distinct
  earlier := linked.earlier
  fate := by
    intro before chain after split
    rw [← same.mem_iff]
    exact linked.fate before chain after split
  given := by
    intro label member
    exact linked.given label (same.mem_iff.mpr member)

end WellLinked

end Montage.Graph
