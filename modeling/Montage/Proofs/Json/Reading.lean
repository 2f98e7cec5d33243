import Montage.Json.Text
import Montage.Proofs.Json.Scanning

/-!
Contract: a written value is read back as it was.

The text of a value, compact or indented, spells the tokens of the value, and
reading the tokens of a value ends where the value is delivered to whatever
holds it. These are inductions on the value, with its items and its members.

Owns: values with well-formed numbers, their tokens and both of their texts.
Does not own: records, in `Proofs.Json.Fields` and `Proofs.Project.Records`.
-/

namespace Montage.Json

open Token (Spaced single?)

/-- Every number of a value has a well-formed literal. -/
def IsWritten (v : Json) : Prop := ∀ token ∈ tokens v, token.IsWritten

section Written

variable {v w : Json} {key : Quoted} {next : Quoted × Json} {items : List Json}
  {members : List (Quoted × Json)}

theorem isWritten_array_iff :
    (array items).IsWritten ↔ ∀ token ∈ itemTokens items, token.IsWritten := by
  simp [IsWritten, tokens, Token.IsWritten, or_imp, forall_and]

theorem isWritten_object_iff :
    (object members).IsWritten ↔ ∀ token ∈ memberTokens members, token.IsWritten := by
  simp [IsWritten, tokens, Token.IsWritten, or_imp, forall_and]

theorem written_items_iff : (∀ token ∈ itemTokens (v :: w :: items), token.IsWritten) ↔
    v.IsWritten ∧ ∀ token ∈ itemTokens (w :: items), token.IsWritten := by
  simp [IsWritten, itemTokens, Token.IsWritten, or_imp, forall_and]

theorem written_member_iff :
    (∀ token ∈ memberTokens [(key, v)], token.IsWritten) ↔ v.IsWritten := by
  simp [IsWritten, memberTokens, Token.IsWritten]

theorem written_members_iff :
    (∀ token ∈ memberTokens ((key, v) :: next :: members), token.IsWritten) ↔
      v.IsWritten ∧ ∀ token ∈ memberTokens (next :: members), token.IsWritten := by
  simp [IsWritten, memberTokens, Token.IsWritten, or_imp, forall_and]

theorem isWritten_array (written : ∀ v ∈ items, v.IsWritten) : (array items).IsWritten := by
  rw [isWritten_array_iff]
  induction items with
  | nil => exact List.forall_mem_nil _
  | cons v others inductionHypothesis =>
      obtain ⟨first, behind⟩ := List.forall_mem_cons.mp written
      have later := inductionHypothesis behind
      cases others with
      | nil => exact first
      | cons w others => exact written_items_iff.mpr ⟨first, later⟩

theorem isWritten_object (written : ∀ m ∈ members, m.2.IsWritten) :
    (object members).IsWritten := by
  rw [isWritten_object_iff]
  induction members with
  | nil => exact List.forall_mem_nil _
  | cons m others inductionHypothesis =>
      obtain ⟨first, behind⟩ := List.forall_mem_cons.mp written
      have later := inductionHypothesis behind
      cases others with
      | nil => exact written_member_iff.mpr first
      | cons next others => exact written_members_iff.mpr ⟨first, later⟩

end Written

/-! ## Reading the tokens of a value -/

namespace Reading

@[simp]
theorem run_cons (reading : Reading) (token : Token) (rest : List Token) :
    reading.run (token :: rest) = (reading.step token).bind fun next => next.run rest := rfl

/-- Whatever else may come next, a token that does not close is taken as the start of a value. -/
theorem step_value {token : Token} (opens : token ≠ .closeArray) (mayClose : Bool)
    (outer : List Level) : (Reading.value mayClose outer).step token = takeValue outer token := by
  rw [step]
  exact fun _ close _ _ => opens close

mutual

/-- The tokens of a value deliver it. -/
theorem run_value (v : Json) (mayClose : Bool) (outer : List Level) (rest : List Token) :
    (Reading.value mayClose outer).run (tokens v ++ rest) = (deliver v outer).run rest := by
  cases v with
  | array items =>
      rw [tokens, List.cons_append, List.append_assoc, run_cons, step_value (by decide)]
      cases items with
      | nil => rfl
      | cons v others => exact run_items (v :: others) (List.cons_ne_nil v others) true [] outer rest
  | object members =>
      rw [tokens, List.cons_append, List.append_assoc, run_cons, step_value (by decide)]
      cases members with
      | nil => rfl
      | cons m others => exact run_members (m :: others) (List.cons_ne_nil m others) true [] outer rest
  | _ =>
      rw [tokens, List.cons_append, run_cons, step_value (by rintro ⟨⟩)]
      rfl

/-- The tokens of items deliver the array of them and the items before them. -/
theorem run_items (more : List Json) (nonempty : more ≠ []) (mayClose : Bool) (items : List Json)
    (outer : List Level) (rest : List Token) :
    (Reading.value mayClose (.array items :: outer)).run (itemTokens more ++ .closeArray :: rest) =
      (deliver (.array (items.reverse ++ more)) outer).run rest := by
  cases more with
  | nil => exact absurd rfl nonempty
  | cons v others =>
      cases others with
      | nil =>
          rw [itemTokens, run_value v]
          show (deliver (.array (v :: items).reverse) outer).run rest = _
          rw [List.reverse_cons]
      | cons w others =>
          rw [itemTokens, List.append_assoc, run_value v]
          show (Reading.value false (.array (v :: items) :: outer)).run
            (itemTokens (w :: others) ++ .closeArray :: rest) = _
          rw [run_items (w :: others) (List.cons_ne_nil w others), List.reverse_cons,
            List.append_assoc]
          rfl

/-- The tokens of members deliver the object of them and the members before them. -/
theorem run_members (more : List (Quoted × Json)) (nonempty : more ≠ []) (mayClose : Bool)
    (members : List (Quoted × Json)) (outer : List Level) (rest : List Token) :
    (Reading.key mayClose members outer).run (memberTokens more ++ .closeObject :: rest) =
      (deliver (.object (members.reverse ++ more)) outer).run rest := by
  cases more with
  | nil => exact absurd rfl nonempty
  | cons m others =>
      obtain ⟨key, v⟩ := m
      have atValue (behind : List Token) : (Reading.key mayClose members outer).run
          (.string key :: .colon :: (tokens v ++ behind)) =
            (Reading.separator (.object ((key, v) :: members) key) outer).run behind := by
        cases mayClose <;> exact run_value v false (.object members key :: outer) behind
      cases others with
      | nil =>
          rw [memberTokens, List.cons_append, List.cons_append, atValue]
          show (deliver (.object ((key, v) :: members).reverse) outer).run rest = _
          rw [List.reverse_cons]
      | cons next others =>
          rw [memberTokens, List.cons_append, List.cons_append, List.append_assoc, atValue]
          show (Reading.key false ((key, v) :: members) outer).run
            (memberTokens (next :: others) ++ .closeObject :: rest) = _
          rw [run_members (next :: others) (List.cons_ne_nil next others), List.reverse_cons,
            List.append_assoc]
          rfl

end

end Reading

theorem ofTokens?_tokens (v : Json) : ofTokens? (tokens v) = some v := by
  have delivered := Reading.run_value v false [] []
  rw [List.append_nil] at delivered
  rw [ofTokens?, Reading.start, delivered]
  rfl

/-! ## The indented layout -/

theorem endsLiteral_cons {c : Char} {rest : List Char}
    (other : c.isDigit = false ∧ c ≠ '.' ∧ c ≠ 'e' ∧ c ≠ 'E') : EndsLiteral (c :: rest) := by
  intro first isFirst
  cases isFirst
  exact other

section Layout

variable {ts : List Token} {cs : List Char}

theorem spaced_single {c : Char} {token : Token} (mark : single? c = some token)
    (spaced : Spaced ts cs) : Spaced (token :: ts) (c :: cs) := by
  unfold Token.single? at mark
  split at mark <;> cases mark <;> exact .token trivial trivial spaced

theorem spaced_newLine (depth : Nat) (spaced : Spaced ts cs) : Spaced ts (newLine depth ++ cs) := by
  have blanks (count : Nat) : Spaced ts (List.replicate count ' ' ++ cs) := by
    induction count with
    | zero => exact spaced
    | succ count inductionHypothesis => exact .blank rfl inductionHypothesis
  exact .blank rfl (blanks (2 * depth))

theorem spaced_token {token : Token} (written : token.IsWritten) (ends : EndsLiteral cs)
    (spaced : Spaced ts cs) : Spaced (token :: ts) (token.text ++ cs) := by
  refine .token written ?_ spaced
  cases token with
  | number n => exact ends
  | _ => trivial

theorem endsLiteral_newLine (depth : Nat) : EndsLiteral (newLine depth ++ cs) :=
  endsLiteral_cons (by decide)

end Layout

/-! The texts behind a value are any that spell more tokens and begin with no part of a literal. -/

mutual

/-- The indented text of a value spells its tokens. -/
theorem spaced_value (depth : Nat) (v : Json) (written : v.IsWritten) {ts : List Token}
    {cs : List Char} (ends : EndsLiteral cs) (spaced : Spaced ts cs) :
    Spaced (tokens v ++ ts) (indentedChars depth v ++ cs) := by
  cases v with
  | array items =>
      cases items with
      | nil => exact spaced_single rfl (spaced_single rfl spaced)
      | cons v others =>
          have inside := isWritten_array_iff.mp written
          have closing := spaced_newLine depth (spaced_single (rfl : single? ']' = _) spaced)
          have filled := spaced_items (depth + 1) (v :: others) inside
            (endsLiteral_newLine depth) closing
          have opening := spaced_single (rfl : single? '[' = _) (spaced_newLine (depth + 1) filled)
          simpa [tokens, indentedChars] using opening
  | object members =>
      cases members with
      | nil => exact spaced_single rfl (spaced_single rfl spaced)
      | cons m others =>
          have inside := isWritten_object_iff.mp written
          have closing := spaced_newLine depth (spaced_single (rfl : single? '}' = _) spaced)
          have filled := spaced_members (depth + 1) (m :: others) inside
            (endsLiteral_newLine depth) closing
          have opening := spaced_single (rfl : single? '{' = _) (spaced_newLine (depth + 1) filled)
          simpa [tokens, indentedChars] using opening
  | number n => exact spaced_token (written (.number n) List.mem_cons_self) ends spaced
  | _ => exact .token trivial trivial spaced

theorem spaced_items (depth : Nat) (items : List Json)
    (written : ∀ token ∈ itemTokens items, token.IsWritten) {ts : List Token} {cs : List Char}
    (ends : EndsLiteral cs) (spaced : Spaced ts cs) :
    Spaced (itemTokens items ++ ts) (indentedItems depth items ++ cs) := by
  cases items with
  | nil => exact spaced
  | cons v others =>
      cases others with
      | nil =>
          rw [itemTokens, indentedItems]
          exact spaced_value depth v written ends spaced
      | cons w others =>
          obtain ⟨first, later⟩ := written_items_iff.mp written
          have behind := spaced_items depth (w :: others) later ends spaced
          have comma := spaced_single (rfl : single? ',' = _) (spaced_newLine depth behind)
          have whole := spaced_value depth v first (endsLiteral_cons (by decide)) comma
          simpa [itemTokens, indentedItems] using whole

theorem spaced_members (depth : Nat) (members : List (Quoted × Json))
    (written : ∀ token ∈ memberTokens members, token.IsWritten) {ts : List Token} {cs : List Char}
    (ends : EndsLiteral cs) (spaced : Spaced ts cs) :
    Spaced (memberTokens members ++ ts) (indentedMembers depth members ++ cs) := by
  cases members with
  | nil => exact spaced
  | cons m others =>
      obtain ⟨key, v⟩ := m
      -- The key, its colon and the blank behind it stand in front of every member.
      have keyed {more : List Token} {rest : List Char} (valued : Spaced more rest) :
          Spaced (.string key :: .colon :: more) (key.text ++ ':' :: ' ' :: rest) :=
        .token trivial trivial (spaced_single (rfl : single? ':' = _) (.blank rfl valued))
      cases others with
      | nil =>
          have only := written_member_iff.mp written
          have whole := keyed (spaced_value depth v only ends spaced)
          simpa [memberTokens, indentedMembers] using whole
      | cons next others =>
          obtain ⟨first, later⟩ := written_members_iff.mp written
          have behind := spaced_members depth (next :: others) later ends spaced
          have comma := spaced_single (rfl : single? ',' = _) (spaced_newLine depth behind)
          have whole := keyed (spaced_value depth v first (endsLiteral_cons (by decide)) comma)
          simpa [memberTokens, indentedMembers] using whole

end

/-! ## The compact layout

Without blanks a literal ends where the next token begins, which is a comma, a bracket or a brace. -/

mutual

/-- The compact text of a value spells its tokens. -/
theorem compact_value (v : Json) (written : v.IsWritten) {ts : List Token} {cs : List Char}
    (ends : EndsLiteral cs) (spaced : Spaced ts cs) :
    Spaced (tokens v ++ ts) ((tokens v).flatMap Token.text ++ cs) := by
  cases v with
  | array items =>
      have inside := isWritten_array_iff.mp written
      have closing := spaced_single (rfl : single? ']' = _) spaced
      have filled := compact_items items inside (endsLiteral_cons (by decide)) closing
      have opening := spaced_single (rfl : single? '[' = _) filled
      simpa [tokens, Token.text] using opening
  | object members =>
      have inside := isWritten_object_iff.mp written
      have closing := spaced_single (rfl : single? '}' = _) spaced
      have filled := compact_members members inside (endsLiteral_cons (by decide)) closing
      have opening := spaced_single (rfl : single? '{' = _) filled
      simpa [tokens, Token.text] using opening
  | number n =>
      simpa [tokens] using spaced_token (written (.number n) List.mem_cons_self) ends spaced
  | null => simpa [tokens] using @Spaced.token .null ts cs trivial trivial spaced
  | bool b => simpa [tokens] using @Spaced.token (.bool b) ts cs trivial trivial spaced
  | string q => simpa [tokens] using @Spaced.token (.string q) ts cs trivial trivial spaced

theorem compact_items (items : List Json)
    (written : ∀ token ∈ itemTokens items, token.IsWritten) {ts : List Token} {cs : List Char}
    (ends : EndsLiteral cs) (spaced : Spaced ts cs) :
    Spaced (itemTokens items ++ ts) ((itemTokens items).flatMap Token.text ++ cs) := by
  cases items with
  | nil => exact spaced
  | cons v others =>
      cases others with
      | nil =>
          rw [itemTokens]
          exact compact_value v written ends spaced
      | cons w others =>
          obtain ⟨first, later⟩ := written_items_iff.mp written
          have behind := compact_items (w :: others) later ends spaced
          have comma := spaced_single (rfl : single? ',' = _) behind
          have whole := compact_value v first (endsLiteral_cons (by decide)) comma
          simpa [itemTokens, Token.text] using whole

theorem compact_members (members : List (Quoted × Json))
    (written : ∀ token ∈ memberTokens members, token.IsWritten) {ts : List Token} {cs : List Char}
    (ends : EndsLiteral cs) (spaced : Spaced ts cs) :
    Spaced (memberTokens members ++ ts) ((memberTokens members).flatMap Token.text ++ cs) := by
  cases members with
  | nil => exact spaced
  | cons m others =>
      obtain ⟨key, v⟩ := m
      have keyed {more : List Token} {rest : List Char} (valued : Spaced more rest) :
          Spaced (.string key :: .colon :: more) (key.text ++ ':' :: rest) :=
        .token trivial trivial (spaced_single (rfl : single? ':' = _) valued)
      cases others with
      | nil =>
          have only := written_member_iff.mp written
          have whole := keyed (compact_value v only ends spaced)
          simpa [memberTokens, Token.text] using whole
      | cons next others =>
          obtain ⟨first, later⟩ := written_members_iff.mp written
          have behind := compact_members (next :: others) later ends spaced
          have comma := spaced_single (rfl : single? ',' = _) behind
          have whole := keyed (compact_value v first (endsLiteral_cons (by decide)) comma)
          simpa [memberTokens, Token.text] using whole

end

/-! ## Reading back -/

theorem endsLiteral_nil : EndsLiteral [] := by
  intro c first
  cases first

theorem read?_of_spaced {v : Json} {cs : List Char} (spaced : Spaced (tokens v ++ []) (cs ++ [])) :
    read? (String.ofList cs) = some v := by
  rw [List.append_nil, List.append_nil] at spaced
  rw [read?, String.toList_ofList, Token.scan_of_spaced spaced, Option.bind_some, ofTokens?_tokens]

/-- An indented value is read back. -/
theorem read?_indented {v : Json} (written : v.IsWritten) : read? v.indented = some v :=
  read?_of_spaced (spaced_value 0 v written endsLiteral_nil .nil)

/-- A compact value is read back. -/
theorem read?_compact {v : Json} (written : v.IsWritten) : read? v.compact = some v :=
  read?_of_spaced (compact_value v written endsLiteral_nil .nil)

end Montage.Json
