import Mathlib.Data.List.Pairwise
import Mathlib.Data.List.Sort
import Mathlib.Data.String.Basic
import Montage.Media.Catalog

/-!
Contract: maps of ids are kept in order, and catalogs keep files under their own ids.

Storing and removing keep the ids in strictly increasing order, so a map is known
from what is in it, and rebuilding a map from its pairs changes nothing.

Owns: the order of ids, what storing a pair leaves in a map, and the catalogs
that inserting and removing lead to.
Does not own: which files a project keeps, in `Proofs.Project.Capture`.
-/

namespace Montage.Media

namespace IdMap

variable {β : Type} {entries : IdMap β} {id : FileId} {value : β}

/-- The ids increase from pair to pair. -/
def Sorted (entries : IdMap β) : Prop :=
  List.Pairwise (fun a b => a.1.text < b.1.text) entries

/-! ## Storing -/

theorem eq_or_mem_of_mem_put {entry : FileId × β} (member : entry ∈ put id value entries) :
    entry = (id, value) ∨ entry ∈ entries := by
  induction entries with
  | nil => exact Or.inl (List.mem_singleton.mp member)
  | cons first rest inductionHypothesis =>
      unfold put at member
      split at member
      · exact List.mem_cons.mp member
      split at member
      · exact (List.mem_cons.mp member).imp_right (List.mem_cons_of_mem first)
      · rcases List.mem_cons.mp member with rfl | behind
        · exact Or.inr List.mem_cons_self
        · exact (inductionHypothesis behind).imp_right (List.mem_cons_of_mem first)

theorem mem_put_self : (id, value) ∈ put id value entries := by
  induction entries with
  | nil => exact List.mem_singleton.mpr rfl
  | cons first rest inductionHypothesis =>
      unfold put
      split
      · exact List.mem_cons_self
      split
      · exact List.mem_cons_self
      · exact List.mem_cons_of_mem first inductionHypothesis

theorem mem_put_of_ne {entry : FileId × β} (member : entry ∈ entries) (other : entry.1 ≠ id) :
    entry ∈ put id value entries := by
  induction entries with
  | nil => cases member
  | cons first rest inductionHypothesis =>
      unfold put
      split
      · exact List.mem_cons_of_mem _ member
      split
      · next same =>
          rcases List.mem_cons.mp member with rfl | behind
          · exact absurd same other
          · exact List.mem_cons_of_mem _ behind
      · rcases List.mem_cons.mp member with rfl | behind
        · exact List.mem_cons_self
        · exact List.mem_cons_of_mem first (inductionHypothesis behind)

theorem Sorted.put (sorted : Sorted entries) : Sorted (put id value entries) := by
  induction entries with
  | nil => exact List.pairwise_singleton _ _
  | cons first rest inductionHypothesis =>
      obtain ⟨after, sortedRest⟩ := List.pairwise_cons.mp sorted
      unfold IdMap.put
      split
      · next before =>
          refine List.pairwise_cons.mpr ⟨?_, sorted⟩
          intro entry member
          rcases List.mem_cons.mp member with rfl | behind
          · exact before
          · exact lt_trans before (after entry behind)
      split
      · next same => exact List.pairwise_cons.mpr ⟨same ▸ after, sortedRest⟩
      · next notBefore different =>
          refine List.pairwise_cons.mpr ⟨?_, inductionHypothesis sortedRest⟩
          intro entry member
          rcases eq_or_mem_of_mem_put member with rfl | behind
          · have apart : first.1.text ≠ id.text :=
              fun same => different (congrArg FileId.mk same)
            exact lt_of_le_of_ne (not_lt.mp notBefore) apart
          · exact after entry behind

/-- A pair behind all others is stored at the end. -/
theorem put_of_last (last : ∀ entry ∈ entries, entry.1.text < id.text) :
    put id value entries = entries ++ [(id, value)] := by
  induction entries with
  | nil => rfl
  | cons first rest inductionHypothesis =>
      have before := last first List.mem_cons_self
      have different : first.1 ≠ id := by
        rintro rfl
        exact lt_irrefl _ before
      rw [put, if_neg (not_lt.mpr (le_of_lt before)), if_neg different,
        inductionHypothesis fun entry member => last entry (List.mem_cons_of_mem first member)]
      rfl

/-! ## Rebuilding -/

theorem foldl_put_of_sorted {front : IdMap β} (sorted : Sorted (front ++ entries)) :
    entries.foldl (fun kept pair => put pair.1 pair.2 kept) front = front ++ entries := by
  induction entries generalizing front with
  | nil => exact (List.append_nil front).symm
  | cons entry rest inductionHypothesis =>
      have last : ∀ earlier ∈ front, earlier.1.text < entry.1.text := fun earlier member =>
        (List.pairwise_append.mp sorted).2.2 earlier member entry List.mem_cons_self
      rw [List.append_cons] at sorted ⊢
      rw [List.foldl_cons, put_of_last last, inductionHypothesis sorted]

/-- Storing the pairs of a map in turn gives the map. -/
theorem ofList_of_sorted (sorted : Sorted entries) : ofList entries = entries :=
  foldl_put_of_sorted sorted

theorem sorted_foldl_put {pairs : List (FileId × β)} (sorted : Sorted entries) :
    Sorted (pairs.foldl (fun kept pair => put pair.1 pair.2 kept) entries) := by
  induction pairs generalizing entries with
  | nil => exact sorted
  | cons pair pairs inductionHypothesis => exact inductionHypothesis sorted.put

theorem sorted_ofList (pairs : List (FileId × β)) : Sorted (ofList pairs) :=
  sorted_foldl_put List.Pairwise.nil

/-- Where an id always comes with one value, storing pairs loses none of them. -/
theorem mem_foldl_put {pairs : List (FileId × β)}
    (agree : ∀ a ∈ entries ++ pairs, ∀ b ∈ entries ++ pairs, a.1 = b.1 → a = b)
    (entry : FileId × β) :
    entry ∈ pairs.foldl (fun kept pair => put pair.1 pair.2 kept) entries ↔
      entry ∈ entries ∨ entry ∈ pairs := by
  induction pairs generalizing entries with
  | nil => simp
  | cons pair pairs inductionHypothesis =>
      have kept : ∀ a, a ∈ put pair.1 pair.2 entries ↔ a = pair ∨ a ∈ entries := by
        intro a
        constructor
        · exact eq_or_mem_of_mem_put
        · rintro (rfl | member)
          · exact mem_put_self
          · by_cases same : a.1 = pair.1
            · rw [agree a (List.mem_append_left _ member) pair
                (List.mem_append_right _ List.mem_cons_self) same]
              exact mem_put_self
            · exact mem_put_of_ne member same
      have listed : ∀ a, a ∈ put pair.1 pair.2 entries ++ pairs ↔ a ∈ entries ++ pair :: pairs := by
        intro a
        rw [List.mem_append, kept, List.mem_append, List.mem_cons]
        tauto
      rw [List.foldl_cons, inductionHypothesis, kept, List.mem_cons]
      · tauto
      · intro a first b second
        exact agree a ((listed a).mp first) b ((listed b).mp second)

/-- Whatever is stored stays or goes, nothing else comes in. -/
theorem mem_of_mem_foldl_put {pairs : List (FileId × β)} {entry : FileId × β}
    (member : entry ∈ pairs.foldl (fun kept pair => put pair.1 pair.2 kept) entries) :
    entry ∈ entries ∨ entry ∈ pairs := by
  induction pairs generalizing entries with
  | nil => exact Or.inl member
  | cons pair pairs inductionHypothesis =>
      rcases inductionHypothesis member with inPut | later
      · rcases eq_or_mem_of_mem_put inPut with rfl | before
        · exact Or.inr List.mem_cons_self
        · exact Or.inl before
      · exact Or.inr (List.mem_cons_of_mem pair later)

theorem mem_of_mem_ofList {pairs : List (FileId × β)} {entry : FileId × β}
    (member : entry ∈ ofList pairs) : entry ∈ pairs :=
  (mem_of_mem_foldl_put member).resolve_left List.not_mem_nil

theorem mem_ofList {pairs : List (FileId × β)}
    (agree : ∀ a ∈ pairs, ∀ b ∈ pairs, a.1 = b.1 → a = b) (entry : FileId × β) :
    entry ∈ ofList pairs ↔ entry ∈ pairs := by
  rw [ofList, mem_foldl_put (by simpa using agree)]
  simp

/-! ## Looking up -/

theorem mem_of_get? (found : get? id entries = some value) : (id, value) ∈ entries := by
  obtain ⟨entry, isFirst, rfl⟩ := Option.map_eq_some_iff.mp found
  have same : (entry.1 == id) = true :=
    List.find?_some (p := fun entry : FileId × β => entry.1 == id) isFirst
  rw [← eq_of_beq same]
  exact List.mem_of_find?_eq_some isFirst

/-- What was stored last under an id is found there. -/
theorem get?_put_self : get? id (put id value entries) = some value := by
  induction entries with
  | nil => simp [put, get?]
  | cons first rest inductionHypothesis =>
      unfold put
      split
      · simp [get?]
      split
      · simp [get?]
      · next other =>
          rw [get?, List.find?_cons, beq_false_of_ne other]
          exact inductionHypothesis

/-- Storing a value changes nothing under other ids. -/
theorem get?_put_of_ne {other : FileId} (apart : other ≠ id) :
    get? other (put id value entries) = get? other entries := by
  have skipped (value : β) (rest : IdMap β) : get? other ((id, value) :: rest) = get? other rest := by
    rw [get?, List.find?_cons, beq_false_of_ne (Ne.symm apart)]
    rfl
  induction entries with
  | nil => exact skipped value []
  | cons first rest inductionHypothesis =>
      unfold put
      split
      · exact skipped value (first :: rest)
      split
      · next same =>
          obtain ⟨firstId, firstValue⟩ := first
          obtain rfl : firstId = id := same
          rw [skipped, skipped]
      · unfold get? at inductionHypothesis ⊢
        rw [List.find?_cons, List.find?_cons]
        split
        · rfl
        · exact inductionHypothesis

/-- A map has one value under an id. -/
theorem Sorted.eq_of_id (sorted : Sorted entries) :
    ∀ a ∈ entries, ∀ b ∈ entries, a.1 = b.1 → a = b := by
  have symmetric : Std.Symm fun a b : FileId × β => a.1 = b.1 → a = b :=
    ⟨fun a b equal same => (equal same.symm).symm⟩
  apply List.Pairwise.forall_of_forall
  · intro a _ _
    rfl
  · refine sorted.imp ?_
    intro a b before same
    rw [same] at before
    exact absurd before (lt_irrefl _)

/-- Storing replaces what stood under the id, and nothing else. -/
theorem Sorted.mem_put_iff (sorted : Sorted entries) {entry : FileId × β} :
    entry ∈ IdMap.put id value entries ↔ entry = (id, value) ∨ entry ∈ entries ∧ entry.1 ≠ id := by
  constructor
  · intro member
    by_cases same : entry.1 = id
    · exact Or.inl (sorted.put.eq_of_id entry member (id, value) mem_put_self same)
    · rcases eq_or_mem_of_mem_put member with rfl | before
      · exact absurd rfl same
      · exact Or.inr ⟨before, same⟩
  · rintro (rfl | ⟨before, other⟩)
    · exact mem_put_self
    · exact mem_put_of_ne before other

theorem Sorted.get?_of_mem (sorted : Sorted entries) {entry : FileId × β} (member : entry ∈ entries) :
    get? entry.1 entries = some entry.2 := by
  have present : (get? entry.1 entries).isSome = true := by
    rw [get?, Option.isSome_map, List.find?_isSome]
    exact ⟨entry, member, beq_self_eq_true _⟩
  obtain ⟨value, found⟩ := Option.isSome_iff_exists.mp present
  have same := sorted.eq_of_id _ (mem_of_get? found) entry member rfl
  rw [found, ← same]

theorem Sorted.filter (sorted : Sorted entries) (keep : FileId × β → Bool) :
    Sorted (List.filter keep entries) :=
  List.Pairwise.filter keep sorted

/-- Leaving out pairs under other ids does not change what is found under an id. -/
theorem get?_filter_of_id {keep : FileId × β → Bool} {named : FileId → Bool}
    (isNamed : named id = true) :
    get? id (List.filter (fun entry => named entry.1 && keep entry) entries) =
      get? id (List.filter keep entries) := by
  unfold get?
  rw [List.find?_filter, List.find?_filter]
  congr 2
  funext entry
  by_cases same : entry.1 = id
  · rw [same, isNamed, Bool.true_and]
  · rw [beq_false_of_ne same]
    simp only [Bool.false_eq_true, and_false]

/-- Two maps that hold the same pairs are the same. -/
theorem Sorted.eq_of_mem_iff {others : IdMap β} (sorted : Sorted entries) (sortedOthers : Sorted others)
    (same : ∀ entry, entry ∈ entries ↔ entry ∈ others) : entries = others := by
  have irrefl : Std.Irrefl fun a b : FileId × β => a.1.text < b.1.text := ⟨fun a => lt_irrefl _⟩
  have asymm : Std.Asymm fun a b : FileId × β => a.1.text < b.1.text := ⟨fun a b => lt_asymm⟩
  exact List.Pairwise.eq_of_mem_iff sorted sortedOthers same

end IdMap

/-! ## Catalogs -/

namespace Catalog

variable {α : Type} {catalog : Catalog α}

/-- Every file stands once, in order, and under its own id. -/
structure IsIndexed (catalog : Catalog α) : Prop where
  sorted : IdMap.Sorted catalog
  own : ∀ entry ∈ catalog, entry.2.id = entry.1

theorem isIndexed_empty : (empty : Catalog α).IsIndexed where
  sorted := List.Pairwise.nil
  own := by
    intro entry member
    cases member

theorem IsIndexed.insert (indexed : catalog.IsIndexed) (asset : Asset α) :
    (insert asset catalog).IsIndexed where
  sorted := indexed.sorted.put
  own := by
    intro entry member
    rcases IdMap.eq_or_mem_of_mem_put member with rfl | before
    · rfl
    · exact indexed.own entry before

theorem IsIndexed.filter (indexed : catalog.IsIndexed) (keep : FileId × Asset α → Bool) :
    IsIndexed (List.filter keep catalog) where
  sorted := indexed.sorted.filter keep
  own := fun entry member => indexed.own entry (List.mem_of_mem_filter member)

theorem isIndexed_erase (indexed : catalog.IsIndexed) (id : FileId) :
    IsIndexed (IdMap.erase id catalog) :=
  indexed.filter _

theorem isIndexed_ofAssets (assets : List (Asset α)) : (ofAssets assets).IsIndexed := by
  suffices grown : ∀ catalog : Catalog α, catalog.IsIndexed →
      (assets.foldl (fun catalog asset => insert asset catalog) catalog).IsIndexed from
    grown empty isIndexed_empty
  induction assets with
  | nil => exact fun catalog indexed => indexed
  | cons asset assets inductionHypothesis =>
      intro catalog indexed
      exact inductionHypothesis (insert asset catalog) (indexed.insert asset)

/-- Taking in the files of a catalog again gives the catalog. -/
theorem ofAssets_assets (indexed : catalog.IsIndexed) : ofAssets (assets catalog) = catalog := by
  rw [ofAssets, assets, List.foldl_map]
  have pairs : ∀ (front : Catalog α) (entries : List (FileId × Asset α)),
      (∀ entry ∈ entries, entry.2.id = entry.1) →
      entries.foldl (fun kept entry => insert entry.2 kept) front =
        entries.foldl (fun kept entry => IdMap.put entry.1 entry.2 kept) front := by
    intro front entries own
    apply List.foldl_ext
    intro kept entry member
    rw [insert, own entry member]
  rw [pairs empty catalog indexed.own]
  exact IdMap.ofList_of_sorted indexed.sorted

end Catalog

end Montage.Media
