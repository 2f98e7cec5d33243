import Mathlib.Data.List.Dedup
import Mathlib.Data.List.Induction
import Mathlib.Data.List.Perm.Basic
import Montage.Files.Disk
import Montage.Proofs.Media.IdMap

/-!
Contract: a catalog holds one up-to-date record for each file.

A file is taken in under the fingerprint of the path it is stored under, and all
that a catalog can do is to store a record under its own id or to remove one. So
whatever happens to it, a catalog stays in order. If no two stored paths share a
fingerprint, it holds what the last successful probe of each stored path has
told, and neither spellings nor the order of different files have a say.

Owns: taking in place, runs of operations on a catalog, and
`one_record_per_file`.
Does not own: what is made of the streams of a file.
-/

namespace Montage.Media.Catalog

open Montage.Files
open Montage.Number

/-! ## What is found -/

/-- A path as it is written, and the world as it is when the file is taken in. -/
structure Intake (W : Type) where
  world : W
  path : String

section Finding

variable {α W : Type} [FileSystem (StateM W)]

/-- The path a file is stored under, and the world after it was asked for. -/
def storedUnder (intake : Intake W) : Except Error String × W :=
  (storagePath (m := StateM W) intake.path).run.run intake.world

/-- Asks where a file is stored and what there is to tell about it there. -/
def lookInto (probe : String → ExceptT Error (StateM W) (Probed α)) (path : String) :
    ExceptT Error (StateM W) (String × Probed α) := do
  let stored ← storagePath path
  let probed ← probe stored
  pure (stored, probed)

/-- Where a file is stored and what the prober tells about it, or what goes wrong. -/
def found (probe : String → ExceptT Error (StateM W) (Probed α)) (intake : Intake W) :
    Except Error (String × Probed α) :=
  ((lookInto probe intake.path).run.run intake.world).1

/-- What successful probes tell, in turn, each about a stored path. -/
def probes (probe : String → ExceptT Error (StateM W) (Probed α)) (intakes : List (Intake W)) :
    List (String × Probed α) :=
  intakes.filterMap fun intake => (found probe intake).toOption

variable {probe : String → ExceptT Error (StateM W) (Probed α)} {intakes others : List (Intake W)}
  {before behind : List (Intake W)} {first second : Intake W}

/-- A path has no other say than where its file is stored. -/
theorem found_congr (same : storedUnder first = storedUnder second) :
    found probe first = found probe second := by
  unfold found lookInto
  simp only [ExceptT.run_bind, StateT.run_bind]
  unfold storedUnder at same
  rw [same]

theorem probes_congr (same : intakes.map storedUnder = others.map storedUnder) :
    probes probe intakes = probes probe others := by
  induction intakes generalizing others with
  | nil =>
      obtain rfl := List.map_eq_nil_iff.mp same.symm
      rfl
  | cons intake rest inductionHypothesis =>
      obtain ⟨other, behind, rfl, first, more⟩ := List.map_eq_cons_iff.mp same.symm
      have told := inductionHypothesis more.symm
      unfold probes at told ⊢
      rw [List.filterMap_cons, List.filterMap_cons, told, found_congr first]

end Finding

/-! ## The last word on a stored path -/

section Last

variable {α : Type} {pairs : List (String × Probed α)} {stored : String}

/-- What was told about a stored path last. -/
def lastProbe? (pairs : List (String × Probed α)) (stored : String) : Option (Probed α) :=
  ((pairs.filter fun pair => pair.1 == stored).getLast?).map Prod.snd

theorem lastProbe?_concat (pairs : List (String × Probed α)) (pair : String × Probed α) :
    lastProbe? (pairs ++ [pair]) stored =
      if pair.1 = stored then some pair.2 else lastProbe? pairs stored := by
  unfold lastProbe?
  by_cases same : pair.1 = stored <;> simp [List.filter_append, same]

theorem isSome_lastProbe?_iff :
    (lastProbe? pairs stored).isSome = true ↔ stored ∈ pairs.map Prod.fst := by
  simp [lastProbe?]

theorem mem_of_lastProbe? {probed : Probed α} (last : lastProbe? pairs stored = some probed) :
    (stored, probed) ∈ pairs := by
  obtain ⟨⟨path, told⟩, isLast, rfl⟩ := Option.map_eq_some_iff.mp last
  obtain ⟨member, same⟩ := List.mem_filter.mp (List.mem_of_getLast? isLast)
  obtain rfl : path = stored := eq_of_beq same
  exact member

/-- Files next to each other that are stored apart may change places. -/
theorem lastProbe?_swap {W : Type} [FileSystem (StateM W)]
    {probe : String → ExceptT Error (StateM W) (Probed α)} {before behind : List (Intake W)}
    {first second : Intake W}
    (apart : ∀ a b, found probe first = .ok a → found probe second = .ok b → a.1 ≠ b.1)
    (stored : String) :
    lastProbe? (probes probe (before ++ first :: second :: behind)) stored =
      lastProbe? (probes probe (before ++ second :: first :: behind)) stored := by
  unfold lastProbe? probes
  congr 2
  simp only [List.filterMap_append, List.filterMap_cons, List.filter_append]
  congr 1
  cases answer : found probe first with
  | error cause => rfl
  | ok a =>
      cases other : found probe second with
      | error cause => rfl
      | ok b =>
          simp only [Except.toOption, List.filter_cons, beq_iff_eq]
          split
          · next here =>
              have notThere : b.1 ≠ stored := fun there =>
                apart a b answer other (here.trans there.symm)
              simp only [if_neg notThere]
          · rfl

/-- No two stored paths share a fingerprint. -/
def OwnIds (pairs : List (String × Probed α)) : Prop :=
  ∀ a ∈ pairs, ∀ b ∈ pairs, FileId.ofPath a.1 = FileId.ofPath b.1 → a.1 = b.1

end Last

/-! ## Operations -/

inductive Operation (α W : Type) where
  | insert (asset : Asset α)
  | remove (id : FileId)
  | ingest (intake : Intake W)

/-- What taking in a file changes: nothing if it fails, and else the record it answers with. -/
structure Changes {α : Type} (before : Catalog α) (attempted : Except Error (Asset α) × Catalog α) :
    Prop where
  failed : ∀ cause, attempted.1 = .error cause → attempted.2 = before
  recorded : ∀ asset, attempted.1 = .ok asset → IdMap.get? asset.id attempted.2 = some asset
  others : ∀ asset, attempted.1 = .ok asset → ∀ id, id ≠ asset.id →
    IdMap.get? id attempted.2 = IdMap.get? id before

theorem IsIndexed.increasing {α : Type} {catalog : Catalog α} (indexed : catalog.IsIndexed) :
    (assets catalog).Pairwise fun a b => a.id.text < b.id.text := by
  rw [assets, List.pairwise_map]
  refine List.Pairwise.imp_of_mem ?_ indexed.sorted
  intro first second inFirst inSecond before
  rwa [indexed.own first inFirst, indexed.own second inSecond]

section Operations

variable {α W : Type} [Seconds α] [FileSystem (StateM W)]

/-- Exchanges the catalog that is kept for the one that an outcome comes with, if there is one. -/
def settle (outcome : Except Error (Asset α × Catalog α)) :
    ExceptT Error (StateM (Catalog α)) (Asset α) := do
  let (asset, grown) ← ExceptT.mk (pure outcome)
  set grown
  pure asset

section Programs

variable (probe : String → ExceptT Error (StateM W) (Probed α))

/-- Takes a file into the catalog that is kept, which may fail on the way. -/
def takeIn (intake : Intake W) : ExceptT Error (StateM (Catalog α)) (Asset α) := do
  let catalog ← get
  settle ((ingest storagePath probe catalog intake.path).run.run intake.world).1

/-- The answer to a file that is taken in, and the catalog afterwards. -/
def attempt (intake : Intake W) (catalog : Catalog α) : Except Error (Asset α) × Catalog α :=
  (takeIn probe intake).run.run catalog

def applyTo (catalog : Catalog α) : Operation α W → Catalog α
  | .insert asset => insert asset catalog
  | .remove id => IdMap.erase id catalog
  | .ingest intake => (attempt probe intake catalog).2

/-- What operations make of a new catalog. -/
def run (operations : List (Operation α W)) : Catalog α :=
  operations.foldl (applyTo probe) empty

/-- Files that are taken in one after the other. -/
def runIntakes (intakes : List (Intake W)) : Catalog α :=
  run probe (intakes.map Operation.ingest)

end Programs

variable {probe : String → ExceptT Error (StateM W) (Probed α)} {catalog : Catalog α}

/-- The catalog has no say in what is found. -/
theorem ingest_eq_map (path : String) (catalog : Catalog α) :
    ingest storagePath probe catalog path =
      (fun pair => (Asset.ofProbe pair.1 pair.2, insert (Asset.ofProbe pair.1 pair.2) catalog)) <$>
        lookInto probe path := by
  simp [ingest, lookInto]

/-- A file is taken in as what is found, and nothing is changed if nothing is found. -/
theorem attempt_eq (intake : Intake W) (catalog : Catalog α) :
    attempt probe intake catalog =
      match found probe intake with
      | .ok (stored, probed) =>
        (.ok (Asset.ofProbe stored probed), insert (Asset.ofProbe stored probed) catalog)
      | .error cause => (.error cause, catalog) := by
  have taken : attempt probe intake catalog =
      (settle ((ingest storagePath probe catalog intake.path).run.run intake.world).1).run.run
        catalog := rfl
  have ingested : ((ingest storagePath probe catalog intake.path).run.run intake.world).1 =
      (found probe intake).map fun pair =>
        (Asset.ofProbe pair.1 pair.2, insert (Asset.ofProbe pair.1 pair.2) catalog) := by
    rw [ingest_eq_map, ExceptT.run_map, StateT.run_map]
    rfl
  rw [taken, ingested]
  cases found probe intake <;> rfl

theorem changes_attempt (intake : Intake W) (catalog : Catalog α) :
    Changes catalog (attempt probe intake catalog) := by
  rw [attempt_eq]
  cases found probe intake with
  | error cause =>
      refine ⟨fun _ _ => rfl, ?_, ?_⟩ <;>
        · intro asset answered
          cases answered
  | ok pair =>
      refine ⟨?_, ?_, ?_⟩
      · intro cause answered
        cases answered
      · intro asset answered
        obtain rfl := Except.ok.inj answered
        exact IdMap.get?_put_self
      · intro asset answered id other
        obtain rfl := Except.ok.inj answered
        exact IdMap.get?_put_of_ne other

theorem IsIndexed.applyTo (indexed : catalog.IsIndexed) (operation : Operation α W) :
    (applyTo probe catalog operation).IsIndexed := by
  cases operation with
  | insert asset => exact indexed.insert asset
  | remove id => exact isIndexed_erase indexed id
  | ingest intake =>
      rw [Catalog.applyTo, attempt_eq]
      cases found probe intake with
      | ok pair => exact indexed.insert _
      | error cause => exact indexed

theorem isIndexed_run (operations : List (Operation α W)) : (run probe operations).IsIndexed := by
  suffices kept : ∀ catalog : Catalog α, catalog.IsIndexed →
      (operations.foldl (Catalog.applyTo probe) catalog).IsIndexed from kept empty isIndexed_empty
  induction operations with
  | nil => exact fun catalog indexed => indexed
  | cons operation rest inductionHypothesis =>
      intro catalog indexed
      exact inductionHypothesis _ (indexed.applyTo operation)

end Operations

/-! ## Records of what was told -/

section Records

variable {α : Type} [Seconds α] {pairs others : List (String × Probed α)} {stored : String}

/-- The record of a stored path and what was told about it. -/
def record (pair : String × Probed α) : Asset α := Asset.ofProbe pair.1 pair.2

/-- The catalog of what was told about stored paths in turn. -/
def ofProbes (pairs : List (String × Probed α)) : Catalog α := ofAssets (pairs.map record)

/-- What the record of a stored path holds after a probe has told the facts. -/
structure Holds (stored : String) (probed : Probed α) (asset : Asset α) : Prop where
  id : asset.id = FileId.ofPath stored
  path : asset.path = stored
  /-- The last component of the path, or the whole path if there is none. -/
  name : asset.name = (Path.fileName? stored).getD stored
  /-- The length is kept to the millisecond. -/
  duration : asset.duration = Seconds.round (probed.duration * 1000.0) / 1000.0
  hasVideo : asset.hasVideo = probed.hasVideo
  hasAudio : asset.hasAudio = probed.hasAudio
  width : asset.width = probed.width
  height : asset.height = probed.height

theorem holds_iff {probed : Probed α} {asset : Asset α} :
    Holds stored probed asset ↔ asset = Asset.ofProbe stored probed := by
  constructor
  · intro holds
    obtain ⟨id, path, name, duration, hasVideo, hasAudio, width, height⟩ := asset
    rw [Asset.ofProbe, Asset.mk.injEq]
    exact ⟨holds.id, holds.path, holds.name, holds.duration, holds.hasVideo, holds.hasAudio,
      holds.width, holds.height⟩
  · rintro rfl
    exact ⟨rfl, rfl, rfl, rfl, rfl, rfl, rfl, rfl⟩

/-- The entry of a stored path. -/
def entryOf (stored : String) (probed : Probed α) : FileId × Asset α :=
  (FileId.ofPath stored, Asset.ofProbe stored probed)

theorem eq_entryOf_iff {probed : Probed α} {entry : FileId × Asset α} :
    entry = entryOf stored probed ↔
      entry.1 = FileId.ofPath stored ∧ Holds stored probed entry.2 := by
  rw [holds_iff, entryOf, Prod.ext_iff]

theorem ofProbes_concat (pairs : List (String × Probed α)) (pair : String × Probed α) :
    ofProbes (pairs ++ [pair]) = insert (record pair) (ofProbes pairs) := by
  simp [ofProbes, ofAssets]

theorem sorted_ofProbes (pairs : List (String × Probed α)) : IdMap.Sorted (ofProbes pairs) :=
  (isIndexed_ofAssets (pairs.map record)).sorted

/-- A catalog holds the last word on each stored path. -/
theorem mem_ofProbes_iff (own : OwnIds pairs) (entry : FileId × Asset α) :
    entry ∈ ofProbes pairs ↔
      ∃ stored probed, lastProbe? pairs stored = some probed ∧ entry = entryOf stored probed := by
  induction pairs using List.reverseRecOn with
  | nil => simp [ofProbes, ofAssets, empty, lastProbe?]
  | append_singleton pairs pair inductionHypothesis =>
      obtain ⟨path, told⟩ := pair
      have ownBefore : OwnIds pairs := fun a inA b inB =>
        own a (List.mem_append_left _ inA) b (List.mem_append_left _ inB)
      -- What is stored now replaces the entry of its own path only.
      have apart {stored : String} {probed : Probed α}
          (last : lastProbe? pairs stored = some probed) :
          (entryOf stored probed).1 ≠ FileId.ofPath path ↔ path ≠ stored := by
        refine not_congr ⟨fun same => ?_, fun same => by rw [same, entryOf]⟩
        exact (own (stored, probed) (List.mem_append_left _ (mem_of_lastProbe? last)) (path, told)
          (List.mem_append_right _ (List.mem_singleton_self _)) same).symm
      rw [ofProbes_concat]
      change entry ∈ IdMap.put (FileId.ofPath path) (Asset.ofProbe path told) (ofProbes pairs) ↔ _
      rw [(sorted_ofProbes pairs).mem_put_iff, inductionHypothesis ownBefore]
      simp only [lastProbe?_concat]
      constructor
      · rintro (rfl | ⟨⟨stored, probed, last, rfl⟩, other⟩)
        · exact ⟨path, told, if_pos rfl, rfl⟩
        · exact ⟨stored, probed, (if_neg ((apart last).mp other)).trans last, rfl⟩
      · rintro ⟨stored, probed, last, rfl⟩
        split at last
        · next same =>
            obtain rfl := same
            obtain rfl := Option.some.inj last
            exact Or.inl rfl
        · next other => exact Or.inr ⟨⟨stored, probed, last, rfl⟩, (apart last).mpr other⟩

/-- There is one entry for each stored path. -/
theorem ids_ofProbes (own : OwnIds pairs) : ((ofProbes pairs).map Prod.fst).Perm
    ((pairs.map Prod.fst).dedup.map FileId.ofPath) := by
  have once : ((ofProbes pairs).map Prod.fst).Nodup := by
    rw [List.Nodup, List.pairwise_map]
    refine (sorted_ofProbes pairs).imp ?_
    intro first second before same
    rw [same] at before
    exact lt_irrefl _ before
  have onceEach : ((pairs.map Prod.fst).dedup.map FileId.ofPath).Nodup := by
    refine (List.nodup_dedup _).map_on ?_
    intro first inFirst second inSecond same
    obtain ⟨a, inPairs, rfl⟩ := List.mem_map.mp (List.mem_dedup.mp inFirst)
    obtain ⟨b, alsoInPairs, rfl⟩ := List.mem_map.mp (List.mem_dedup.mp inSecond)
    exact own a inPairs b alsoInPairs same
  refine (List.perm_ext_iff_of_nodup once onceEach).mpr fun id => ?_
  simp only [List.mem_map (l := ofProbes pairs), mem_ofProbes_iff own,
    List.mem_map (l := (pairs.map Prod.fst).dedup), List.mem_dedup]
  constructor
  · rintro ⟨_, ⟨stored, probed, last, rfl⟩, rfl⟩
    exact ⟨stored, isSome_lastProbe?_iff.mp (by rw [last]; rfl), rfl⟩
  · rintro ⟨stored, told, rfl⟩
    obtain ⟨probed, last⟩ := Option.isSome_iff_exists.mp (isSome_lastProbe?_iff.mpr told)
    exact ⟨_, ⟨stored, probed, last, rfl⟩, rfl⟩

/-- Only the last word on each stored path has a say. -/
theorem ofProbes_eq_of_last (own : OwnIds pairs)
    (same : ∀ stored, lastProbe? pairs stored = lastProbe? others stored) :
    ofProbes pairs = ofProbes others := by
  have told {pair : String × Probed α} (member : pair ∈ others) : ∃ a ∈ pairs, a.1 = pair.1 := by
    have present := isSome_lastProbe?_iff.mpr (List.mem_map_of_mem (f := Prod.fst) member)
    rw [← same, isSome_lastProbe?_iff] at present
    exact List.mem_map.mp present
  have ownOthers : OwnIds others := by
    intro a inA b inB sameId
    obtain ⟨c, inC, sameA⟩ := told inA
    obtain ⟨d, inD, sameB⟩ := told inB
    rw [← sameA, ← sameB] at sameId ⊢
    exact own c inC d inD sameId
  refine (sorted_ofProbes pairs).eq_of_mem_iff (sorted_ofProbes others) fun entry => ?_
  exact (mem_ofProbes_iff own entry).trans (by simp only [same, mem_ofProbes_iff ownOthers])

end Records

/-! ## One record for each file -/

section Laws

variable {α W : Type} [Seconds α] [FileSystem (StateM W)]

/-- Taking files in leads to the catalog of what successful probes tell. -/
theorem runIntakes_eq (probe : String → ExceptT Error (StateM W) (Probed α))
    (intakes : List (Intake W)) : runIntakes probe intakes = ofProbes (probes probe intakes) := by
  unfold runIntakes run ofProbes ofAssets probes
  rw [List.foldl_map, List.foldl_map, List.foldl_filterMap]
  apply List.foldl_ext
  intro catalog intake _
  rw [applyTo, attempt_eq]
  cases found probe intake <;> rfl

/-- What holds of a catalog, whatever the prober and the world answer. -/
structure OneRecordPerFile (probe : String → ExceptT Error (StateM W) (Probed α)) : Prop where
  /-- Any operations leave every record under its own id, in increasing order of the ids. -/
  indexed : ∀ operations, (run probe operations).IsIndexed ∧
    (assets (run probe operations)).Pairwise fun a b => a.id.text < b.id.text
  changes : ∀ intake catalog, Changes catalog (attempt probe intake catalog)
  ids : ∀ intakes, OwnIds (probes probe intakes) →
    ((runIntakes probe intakes).map Prod.fst).Perm
      (((probes probe intakes).map Prod.fst).dedup.map FileId.ofPath)
  /-- The entries are those of the stored paths, and each holds what was told last. -/
  upToDate : ∀ intakes, OwnIds (probes probe intakes) → ∀ entry,
    entry ∈ runIntakes probe intakes ↔ ∃ stored probed,
      lastProbe? (probes probe intakes) stored = some probed ∧
        entry.1 = FileId.ofPath stored ∧ Holds stored probed entry.2
  /-- Spellings of the same stored paths lead to the same catalog. -/
  respelled : ∀ intakes others, intakes.map storedUnder = others.map storedUnder →
    runIntakes probe intakes = runIntakes probe others
  /-- Two runs with the same last word on each stored path lead to the same catalog. -/
  rerun : ∀ intakes others, OwnIds (probes probe intakes) →
    (∀ stored, lastProbe? (probes probe intakes) stored = lastProbe? (probes probe others) stored) →
      runIntakes probe intakes = runIntakes probe others
  swapped : ∀ before first second behind,
    OwnIds (probes probe (before ++ first :: second :: behind)) →
    (∀ a b, found probe first = .ok a → found probe second = .ok b → a.1 ≠ b.1) →
      runIntakes probe (before ++ first :: second :: behind) =
        runIntakes probe (before ++ second :: first :: behind)

theorem one_record_per_file (probe : String → ExceptT Error (StateM W) (Probed α)) :
    OneRecordPerFile probe where
  indexed := fun operations => ⟨isIndexed_run operations, (isIndexed_run operations).increasing⟩
  changes := changes_attempt
  ids := by
    intro intakes own
    rw [runIntakes_eq]
    exact ids_ofProbes own
  upToDate := by
    intro intakes own entry
    rw [runIntakes_eq, mem_ofProbes_iff own]
    simp only [eq_entryOf_iff]
  respelled := by
    intro intakes others same
    rw [runIntakes_eq, runIntakes_eq, probes_congr same]
  rerun := by
    intro intakes others own same
    rw [runIntakes_eq, runIntakes_eq, ofProbes_eq_of_last own same]
  swapped := by
    intro before first second behind own apart
    rw [runIntakes_eq, runIntakes_eq, ofProbes_eq_of_last own (lastProbe?_swap apart)]

end Laws

/-! Two recordings, of which one has become longer since. -/

/-- Two recordings in the working directory, the first with this content. -/
def shelf (content : ByteArray) : Disk where
  home := []
  entries := [(["a.wav"], .file content false), (["b.wav"], .file ⟨#[0]⟩ false)]

/-- Finds a recording as many seconds long as it has bytes. -/
def measure (path : String) : ExceptT Error (StateM Disk) (Probed Float) := do
  match ← (FileSystem.size? path : StateM Disk (Option Nat)) with
  | some size => pure { Probed.ofDuration (Float.ofNat size) with hasAudio := true }
  | none => throw (.files .notFound)

def retaken : List (Intake Disk) :=
  [⟨shelf ⟨#[0]⟩, "a.wav"⟩, ⟨shelf ⟨#[0]⟩, "b.wav"⟩, ⟨shelf ⟨#[0, 0]⟩, "./a.wav"⟩,
    ⟨shelf ⟨#[0, 0]⟩, "c.wav"⟩]

theorem probes_retaken : probes measure retaken =
    [("/a.wav", ⟨1.0, false, true, 0, 0⟩), ("/b.wav", ⟨1.0, false, true, 0, 0⟩),
      ("/a.wav", ⟨2.0, false, true, 0, 0⟩)] := by
  decide +kernel

theorem ownIds_retaken : OwnIds (probes measure retaken) := by
  have apart : FileId.ofPath "/a.wav" ≠ FileId.ofPath "/b.wav" := by decide +kernel
  rw [probes_retaken]
  simp [OwnIds, apart, Ne.symm apart]

/-- The longer recording replaces the shorter one, and the recordings may come in any order. -/
theorem retaken_is_up_to_date :
    OwnIds (probes measure retaken) ∧
      ((runIntakes measure retaken).map Prod.fst).Perm
        [FileId.ofPath "/b.wav", FileId.ofPath "/a.wav"] ∧
      (FileId.ofPath "/a.wav",
        ⟨FileId.ofPath "/a.wav", "/a.wav", "a.wav", 2.0, false, true, 0, 0⟩) ∈
          runIntakes measure retaken ∧
      runIntakes measure retaken = runIntakes measure
        ([] ++ ⟨shelf ⟨#[0]⟩, "b.wav"⟩ :: ⟨shelf ⟨#[0]⟩, "a.wav"⟩ :: retaken.drop 2) := by
  have laws := one_record_per_file measure
  have own := ownIds_retaken
  have ids := laws.ids retaken own
  have last : lastProbe? (probes measure retaken) "/a.wav" = some ⟨2.0, false, true, 0, 0⟩ := by
    rw [probes_retaken]
    decide
  have apart : ∀ a b, found measure ⟨shelf ⟨#[0]⟩, "a.wav"⟩ = .ok a →
      found measure ⟨shelf ⟨#[0]⟩, "b.wav"⟩ = .ok b → a.1 ≠ b.1 := by
    intro a b isA isB
    obtain rfl : ("/a.wav", ⟨1.0, false, true, 0, 0⟩) = a := Except.ok.inj isA
    obtain rfl : ("/b.wav", ⟨1.0, false, true, 0, 0⟩) = b := Except.ok.inj isB
    decide
  have holds : Holds "/a.wav" (⟨2.0, false, true, 0, 0⟩ : Probed Float)
      ⟨FileId.ofPath "/a.wav", "/a.wav", "a.wav", 2.0, false, true, 0, 0⟩ :=
    ⟨rfl, rfl, by decide, by decide +kernel, rfl, rfl, rfl, rfl⟩
  have listed := (laws.upToDate retaken own (FileId.ofPath "/a.wav", _)).mpr
    ⟨"/a.wav", _, last, rfl, holds⟩
  refine ⟨own, ?_, listed, laws.swapped [] _ _ (retaken.drop 2) own apart⟩
  rw [probes_retaken] at ids
  exact ids

end Montage.Media.Catalog
