import Montage.Json.Record
import Montage.Proofs.Json.Reading
import Montage.Proofs.Number.Rounding

/-!
Contract: a written record holds what its fields were given.

A record is written as a list of fields, each a key with a value or none. Its
keys are apart, so every field is found again, and a field without a value is
found absent.

Owns: the members of written fields, finding them, and that written values are
well formed, readable and read back.
Does not own: the records of the program, in `Proofs.Project.Records`.
-/

namespace Montage.Json

open Montage.Number

/-! ## Values -/

theorem isWritten_ofText (s : String) : (ofText s).IsWritten := by
  intro token member
  cases List.mem_singleton.mp member
  trivial

theorem isWritten_bool (b : Bool) : (bool b).IsWritten := by
  intro token member
  cases List.mem_singleton.mp member
  trivial

theorem isWritten_number {n : Numeral} (literal : n.IsLiteral) : (number n).IsWritten := by
  intro token member
  cases List.mem_singleton.mp member
  exact literal

theorem isWritten_ofNat (n : Nat) : (ofNat n).IsWritten :=
  isWritten_number (Numeral.ofNat_isLiteral n)

theorem isWritten_ofFloat (x : Float) : (ofFloat x).IsWritten := by
  unfold ofFloat
  split
  · next written => exact isWritten_number (Numeral.ofFloat?_isLiteral written)
  · intro token member
    cases List.mem_singleton.mp member
    trivial

@[simp]
theorem text?_ofText (s : String) : (ofText s).text? = some s := rfl

theorem nat?_ofNat {limit n : Nat} (within : n ≤ limit) : (ofNat n).nat? limit = some n :=
  Numeral.toNat?_ofNat within

/-- A number whose literal is read as some number. -/
def ReadsAs (x y : Float) : Prop := (ofFloat x).float? = some y

/-- A number that is read back from its literal. -/
def IsKept (x : Float) : Prop := (ofFloat x).float? = some x

instance (x : Float) : Decidable (IsKept x) :=
  inferInstanceAs (Decidable ((ofFloat x).float? = some x))

theorem ReadsAs.nullable {x y : Float} (reads : ReadsAs x y) :
    nullable float? (ofFloat x) = some (some y) := by
  unfold ReadsAs at reads
  unfold Json.nullable
  split
  · next isNull =>
      rw [isNull] at reads
      cases reads
  · rw [reads]
    rfl

theorem ReadsAs.isReadable {x y : Float} (reads : ReadsAs x y) (depth : Nat) :
    isReadable depth (ofFloat x) = true := by
  unfold ReadsAs at reads
  cases written : ofFloat x with
  | number n =>
      rw [written] at reads
      rw [Json.isReadable]
      exact Option.isSome_of_eq_some reads
  | null => rw [Json.isReadable]
  | _ =>
      rw [written] at reads
      cases reads

theorem isReadable_ofText (depth : Nat) (s : String) : isReadable depth (ofText s) = true := by
  cases depth <;> rfl

/-! Track numbers are read once more as binary64 numbers while they are buffered. -/

theorem le_foldl_digits (significand : Nat) (cs : List Char) :
    significand ≤ cs.foldl (fun n c => 10 * n + digitValue c) significand := by
  induction cs generalizing significand with
  | nil => exact Nat.le_refl _
  | cons c cs inductionHypothesis =>
      have grown := inductionHypothesis (10 * significand + digitValue c)
      rw [List.foldl_cons]
      omega

theorem gather_of_le {significand : Nat} {cs : List Char}
    (within : cs.foldl (fun n c => 10 * n + digitValue c) significand ≤ Numeral.significandLimit) :
    Numeral.gather significand cs =
      (cs.foldl (fun n c => 10 * n + digitValue c) significand, []) := by
  induction cs generalizing significand with
  | nil => rfl
  | cons c cs inductionHypothesis =>
      rw [List.foldl_cons] at within ⊢
      have fits := le_foldl_digits (10 * significand + digitValue c) cs
      rw [Numeral.gather, Nat.mul_comm significand 10, if_pos (Nat.le_trans fits within)]
      exact inductionHypothesis within

theorem isInf_of_finite {x : Float} {negative : Bool} {mantissa : Nat} {exponent : Int}
    (decoded : Binary64.ofFloat x = .finite negative mantissa exponent) : x.isInf = false := by
  have kept := Binary64.kept_of_isFinite (x := x) (by rw [decoded]; rfl)
  show x.toModel.unpack.isInf = false
  cases unpacked : x.toModel.unpack with
  | infinity sign =>
      rw [unpacked] at kept
      cases kept
  | _ => rfl

theorem gather_digits {n : Nat} (within : n < 2 ^ 52) :
    Numeral.gather 0 (digits n) = (n, []) := by
  have value : (digits n).foldl (fun n c => 10 * n + digitValue c) 0 = n := wholeValue_digits n
  have fits : (digits n).foldl (fun n c => 10 * n + digitValue c) 0 ≤ Numeral.significandLimit := by
    rw [value, Numeral.significandLimit]
    omega
  rw [gather_of_le fits, value]

theorem isInf_ofNat_mul_one {n : Nat} (within : n ≤ Numeral.significandLimit) :
    (Float.ofNat n * Numeral.powerOfTen 0).isInf = false := by
  have one : Binary64.ofFloat (Numeral.powerOfTen 0) = .finite false (2 ^ 52) (-52) := by decide
  have bound : Binary64.Canonical (2 ^ 52) 12 := Binary64.canonical_full (by decide)
  have below : (n : Rat) ≤ (2 ^ 52 : Nat) * 2 ^ (12 : Int) := by
    have whole : (n : Rat) ≤ (2 ^ 64 : Nat) := by
      exact_mod_cast Nat.le_trans within (by decide)
    refine le_trans whole (le_of_eq ?_)
    norm_num
  obtain ⟨m, e, converted, small⟩ := Binary64.ofNat_le bound (by decide) below
  have unit : (m : Rat) * 2 ^ e * ((2 ^ 52 : Nat) * 2 ^ (-52 : Int)) ≤
      (2 ^ 52 : Nat) * 2 ^ (12 : Int) := by
    refine le_trans (le_of_eq ?_) small
    norm_num
  obtain ⟨m', e', product, -⟩ :=
    Binary64.mul_le converted one (Nat.le_refl _) bound (by decide) unit
  exact isInf_of_finite product

theorem isReadable_ofNat (depth : Nat) {n : Nat} (within : n < 2 ^ 52) :
    isReadable depth (ofNat n) = true := by
  have unscaled : Numeral.applyPower 4 (Float.ofNat n) 0 =
      some (Float.ofNat n * Numeral.powerOfTen 0) := by
    have finite := isInf_ofNat_mul_one (Nat.le_of_lt (Nat.lt_trans within (by decide)))
    simp [Numeral.applyPower, finite]
  have read : (Numeral.ofNat n).toFloat? = some (Float.ofNat n * Numeral.powerOfTen 0) := by
    simp [Numeral.toFloat?, Numeral.ofNat, gather_digits within, Numeral.gather, Numeral.scaled?,
      unscaled]
  rw [ofNat, isReadable, read]
  rfl

/-! ## Fields -/

/-- The members of a record whose fields may be left out. -/
def written (fields : List (String × Option Json)) : List (Quoted × Json) :=
  fields.flatMap fun field => memberIfSome field.1 field.2

/-- What is found for a field that was given a value or none. -/
def Slot.ofOption : Option Json → Slot
  | some v => .given v
  | none => .absent

@[simp]
theorem Slot.required_given {α : Type} (read : Json → Option α) (v : Json) :
    (Slot.ofOption (some v)).required read = read v := rfl

@[simp]
theorem Slot.withDefault_given {α : Type} (default : α) (read : Json → Option α) (v : Json) :
    (Slot.ofOption (some v)).withDefault default read = read v := rfl

theorem Slot.withDefault_float {f : Float → Float} {x : Option Float}
    (reads : ∀ number ∈ x, ReadsAs number (f number)) :
    (Slot.ofOption (x.map ofFloat)).withDefault none (nullable float?) = some (x.map f) := by
  cases x with
  | none => rfl
  | some number => exact (reads number rfl).nullable

section Written

variable {fields : List (String × Option Json)}

@[simp]
theorem written_nil : written [] = [] := rfl

@[simp]
theorem written_cons (field : String × Option Json) :
    written (field :: fields) = memberIfSome field.1 field.2 ++ written fields := rfl

theorem mem_written {m : Quoted × Json} :
    m ∈ written fields ↔ ∃ field ∈ fields, ∃ v, field.2 = some v ∧ m = member field.1 v := by
  unfold written memberIfSome
  simp only [List.mem_flatMap, List.mem_map, Option.mem_toList, eq_comm]

theorem written_filter (keep : Quoted → Bool) : (written fields).filter (fun m => keep m.1) =
    written (fields.filter fun field => keep (some field.1)) := by
  induction fields with
  | nil => rfl
  | cons field fields inductionHypothesis =>
      obtain ⟨key, value⟩ := field
      have keyed : (memberIfSome key value).filter (fun m => keep m.1) =
          if keep (some key) then memberIfSome key value else [] := by
        cases value with
        | none => exact (ite_self _).symm
        | some v => exact List.filter_cons
      rw [written_cons, List.filter_append, inductionHypothesis, keyed, List.filter_cons]
      by_cases kept : keep (some key) = true
      · rw [if_pos kept, if_pos kept, written_cons]
      · rw [if_neg kept, if_neg kept]
        rfl

theorem filter_key_of_distinct (distinct : (fields.map Prod.fst).Nodup) {key : String}
    {value : Option Json} (given : (key, value) ∈ fields) :
    fields.filter (fun field => some field.1 == some key) = [(key, value)] := by
  induction fields with
  | nil => cases given
  | cons field fields inductionHypothesis =>
      rw [List.map_cons, List.nodup_cons] at distinct
      rcases List.mem_cons.mp given with rfl | behind
      · have others : fields.filter (fun field => some field.1 == some key) = [] := by
          apply List.filter_eq_nil_iff.mpr
          intro other member same
          exact distinct.1 (List.mem_map.mpr ⟨other, member, Option.some.inj (eq_of_beq same)⟩)
        rw [List.filter_cons, others]
        simp
      · have other : (some field.1 == some key) = false := by
          apply beq_false_of_ne
          intro same
          exact distinct.1 (List.mem_map.mpr ⟨(key, value), behind, (Option.some.inj same).symm⟩)
        rw [List.filter_cons, other]
        exact inductionHypothesis distinct.2 behind

theorem slotNamed?_written (distinct : (fields.map Prod.fst).Nodup) {key : String}
    {value : Option Json} (given : (key, value) ∈ fields) :
    slotNamed? (written fields) key = some (Slot.ofOption value) := by
  rw [slotNamed?, written_filter (· == some key), filter_key_of_distinct distinct given]
  cases value <;> rfl

theorem keys_written : ((written fields).all fun m => m.1.isSome) = true := by
  apply List.all_eq_true.mpr
  intro m isMember
  obtain ⟨field, -, v, -, rfl⟩ := mem_written.mp isMember
  rfl

/-- The fields with some of the keys are found as they were given. -/
theorem objectSlots?_written (distinct : (fields.map Prod.fst).Nodup)
    {sought : List (String × Option Json)} (given : sought ⊆ fields) :
    objectSlots? (sought.map Prod.fst) (written fields) =
      some (sought.map fun field => Slot.ofOption field.2) := by
  rw [objectSlots?, if_pos keys_written]
  induction sought with
  | nil => rfl
  | cons field sought inductionHypothesis =>
      have first := slotNamed?_written distinct (given List.mem_cons_self)
      have others := inductionHypothesis fun other member => given (List.mem_cons_of_mem field member)
      rw [List.map_cons, List.mapM_cons, first, others]
      rfl

/-- All fields of a written record are found as they were given. -/
theorem slots?_written {names : List String} (named : fields.map Prod.fst = names)
    (distinct : names.Nodup) : (object (written fields)).slots? names =
      some (fields.map fun field => Slot.ofOption field.2) := by
  subst named
  exact objectSlots?_written distinct (List.Subset.refl fields)

theorem isWritten_written (values : ∀ field ∈ fields, ∀ v ∈ field.2, v.IsWritten) :
    (object (written fields)).IsWritten := by
  apply isWritten_object
  intro m isMember
  obtain ⟨field, given, v, holds, rfl⟩ := mem_written.mp isMember
  exact values field given v holds

theorem all_isReadable {depth : Nat}
    (values : ∀ field ∈ fields, ∀ v ∈ field.2, isReadable depth v = true) :
    ((written fields).all fun m => isReadable depth m.2) = true := by
  apply List.all_eq_true.mpr
  intro m isMember
  obtain ⟨field, given, v, holds, rfl⟩ := mem_written.mp isMember
  exact values field given v holds

theorem isReadable_written {depth : Nat}
    (values : ∀ field ∈ fields, ∀ v ∈ field.2, isReadable depth v = true) :
    isReadable (depth + 1) (object (written fields)) = true := by
  rw [isReadable]
  apply List.all_eq_true.mpr
  intro m isMember
  have named := List.all_eq_true.mp keys_written m isMember
  have readable := List.all_eq_true.mp (all_isReadable values) m isMember
  exact Bool.and_eq_true_iff.mpr ⟨named, readable⟩

end Written

/-- Values are read in turn when each of them is. -/
theorem mapM_map {α β : Type} {write : α → β} {read : β → Option α} {again : α → α}
    {items : List α} (reads : ∀ item ∈ items, read (write item) = some (again item)) :
    (items.map write).mapM read = some (items.map again) := by
  induction items with
  | nil => rfl
  | cons item items inductionHypothesis =>
      have others := inductionHypothesis fun other member => reads other (List.mem_cons_of_mem item member)
      rw [List.map_cons, List.mapM_cons, reads item List.mem_cons_self, others]
      rfl

end Montage.Json
