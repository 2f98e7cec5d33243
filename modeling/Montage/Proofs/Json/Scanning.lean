import Montage.Json.Token
import Montage.Proofs.Json.Literal

/-!
Contract: tokens are read back from their texts, blanks between them or not.

Every character of a string is written as one piece that spells it, so quoted
text decodes to what was quoted. A token is taken off the front of any text that
does not go on with it; only number literals can be gone on with.

Owns: the pieces of quoted text, the reading of one token, and the scanning of
texts that spell tokens with blanks between them.
Does not own: which tokens a value is written with.
-/

namespace Montage.Json

namespace Quoted

/-- A piece that stands for a character that is no half of a pair. -/
def Spells : Piece → Char → Prop
  | .char written, c => written = c
  | .unit value, c => value = c.toNat ∧ isControl c = true

theorem decodePieces_cons {piece : Piece} {c : Char} (spells : Spells piece c)
    (pieces : List Piece) :
    decodePieces (piece :: pieces) = (decodePieces pieces).map (c :: ·) := by
  cases piece with
  | char written =>
      cases spells
      rfl
  | unit value =>
      obtain ⟨rfl, control⟩ := spells
      have small : c.toNat < 0x20 := of_decide_eq_true control
      have notHigh : isHighHalf c.toNat = false := by
        unfold isHighHalf
        simp only [Bool.and_eq_false_imp, decide_eq_true_eq]
        omega
      have notLow : isLowHalf c.toNat = false := by
        unfold isLowHalf
        simp only [Bool.and_eq_false_imp, decide_eq_true_eq]
        omega
      cases pieces with
      | nil => simp [decodePieces, notHigh, notLow]
      | cons next rest =>
          cases next with
          | char d => simp [decodePieces, notHigh, notLow]
          | unit low => simp [decodePieces, notHigh, notLow]

theorem decodePieces_of_spells {pieces : List Piece} {cs : List Char}
    (spell : List.Forall₂ Spells pieces cs) : decodePieces pieces = some cs := by
  induction spell with
  | nil => rfl
  | cons spells others inductionHypothesis =>
      rw [decodePieces_cons spells, inductionHypothesis]
      rfl

/-- The `\u` escape of a control character names the character. -/
theorem unitValue?_of_control {n : Nat} (small : n < 0x20) :
    unitValue? '0' '0' (Nat.digitChar (n / 16)) (Nat.digitChar (n % 16)) = some n := by
  revert n
  decide

/-- What a piece adds to those that are taken behind it. -/
def before (piece : Piece) (taken : List Piece × List Char) : List Piece × List Char :=
  (piece :: taken.1, taken.2)

section Taking

variable {c : Char} (rest : List Char)

theorem takePieces?_plain (noQuote : c ≠ '"') (noEscape : c ≠ '\\')
    (noControl : isControl c = false) :
    takePieces? (c :: rest) = (takePieces? rest).map (before (.char c)) := by
  rw [takePieces?, noControl, beq_false_of_ne noEscape]
  · cases takePieces? rest <;> rfl
  · exact noQuote
  · exact fun _ _ _ _ _ escape _ => noEscape escape
  · exact fun _ _ escape _ => noEscape escape

theorem takePieces?_short {name : Char} (names : shortEscape? name = some c) (noUnit : name ≠ 'u') :
    takePieces? ('\\' :: name :: rest) = (takePieces? rest).map (before (.char c)) := by
  rw [takePieces?, names]
  · cases takePieces? rest <;> rfl
  · exact fun _ _ _ _ _ unit _ => noUnit unit

theorem takePieces?_control (control : isControl c = true) :
    takePieces? ('\\' :: 'u' :: '0' :: '0' :: Nat.digitChar (c.toNat / 16) ::
        Nat.digitChar (c.toNat % 16) :: rest) =
      (takePieces? rest).map (before (.unit c.toNat)) := by
  rw [takePieces?, unitValue?_of_control (of_decide_eq_true control)]
  cases takePieces? rest <;> rfl

end Taking

/-- The escape of a character is taken as one piece that spells it. -/
theorem takePieces?_escape (c : Char) : ∃ piece, Spells piece c ∧ ∀ rest,
    takePieces? (escape c ++ rest) = (takePieces? rest).map (before piece) := by
  have short : ∀ name, shortEscape? name = some c → name ≠ 'u' → ∃ piece, Spells piece c ∧ ∀ rest,
      takePieces? (['\\', name] ++ rest) = (takePieces? rest).map (before piece) :=
    fun name names noUnit => ⟨.char c, rfl, fun rest => takePieces?_short rest names noUnit⟩
  unfold escape
  split
  · next same => exact short '"' (by rw [same]; rfl) (by decide)
  split
  · next same => exact short '\\' (by rw [same]; rfl) (by decide)
  split
  · next same => exact short 'b' (by rw [same]; rfl) (by decide)
  split
  · next same => exact short 't' (by rw [same]; rfl) (by decide)
  split
  · next same => exact short 'n' (by rw [same]; rfl) (by decide)
  split
  · next same => exact short 'f' (by rw [same]; rfl) (by decide)
  split
  · next same => exact short 'r' (by rw [same]; rfl) (by decide)
  split
  · next control => exact ⟨.unit c.toNat, ⟨rfl, control⟩, fun rest => takePieces?_control rest control⟩
  · next noQuote noEscape _ _ _ _ _ noControl =>
      exact ⟨.char c, rfl, fun rest =>
        takePieces?_plain rest noQuote noEscape (Bool.eq_false_of_not_eq_true noControl)⟩

/-- Escaped characters are taken as pieces that spell them, up to the closing quote. -/
theorem takePieces?_escaped (cs rest : List Char) : ∃ pieces, List.Forall₂ Spells pieces cs ∧
    takePieces? (cs.flatMap escape ++ '"' :: rest) = some (pieces, rest) := by
  induction cs with
  | nil => exact ⟨[], .nil, rfl⟩
  | cons c cs inductionHypothesis =>
      obtain ⟨piece, spells, takes⟩ := takePieces?_escape c
      obtain ⟨pieces, spell, others⟩ := inductionHypothesis
      refine ⟨piece :: pieces, .cons spells spell, ?_⟩
      rw [List.flatMap_cons, List.append_assoc, takes, others]
      rfl

/-- A quoted string is read back behind its opening quote. -/
theorem take?_text (s : String) (rest : List Char) :
    take? (s.toList.flatMap escape ++ '"' :: rest) = some (some s, rest) := by
  obtain ⟨pieces, spell, takes⟩ := takePieces?_escaped s.toList rest
  rw [take?, takes, Option.map_some, decodePieces_of_spells spell, Option.map_some,
    String.ofList_toList]

end Quoted

namespace Token

/-- Tokens as they are written: a number has a well-formed literal. -/
def IsWritten : Token → Prop
  | .number n => n.IsLiteral
  | _ => True

/-- A text that a token in front of it does not go on with. -/
def Ends : Token → List Char → Prop
  | .number _, rest => EndsLiteral rest
  | _, _ => True

theorem take?_numeral {n : Numeral} (literal : n.IsLiteral) {rest : List Char}
    (ends : EndsLiteral rest) : take? (n.text ++ rest) = some (.number n, rest) := by
  have taken := Numeral.take?_text literal ends
  obtain ⟨c, cs, begins, other⟩ := literal.exists_head
  have noToken : single? c = none := by
    unfold single?
    split <;> first | rfl | exact absurd rfl (other _ (by decide) (by decide))
  rw [begins, List.cons_append] at taken ⊢
  rw [take?, noToken, taken]
  · rfl
  · exact fun _ same _ => other 'n' (by decide) (by decide) same
  · exact fun _ same _ => other 't' (by decide) (by decide) same
  · exact fun _ same _ => other 'f' (by decide) (by decide) same
  · exact other '"' (by decide) (by decide)

/-- A token is taken off a text that does not go on with it. -/
theorem take?_text {token : Token} (written : token.IsWritten) {rest : List Char}
    (ends : token.Ends rest) : take? (token.text ++ rest) = some (token, rest) := by
  cases token with
  | number n => exact take?_numeral written ends
  | string q =>
      cases q with
      | none => rfl
      | some s =>
          show take? ('"' :: ((s.toList.flatMap Quoted.escape ++ ['"']) ++ rest)) = _
          rw [List.append_assoc]
          show (Quoted.take? (s.toList.flatMap Quoted.escape ++ '"' :: rest)).map _ = _
          rw [Quoted.take?_text]
          rfl
  | bool b => cases b <;> rfl
  | _ => rfl

/-- No token begins with a blank. -/
theorem exists_head {token : Token} (written : token.IsWritten) :
    ∃ c cs, token.text = c :: cs ∧ isSpace c = false := by
  cases token with
  | number n =>
      obtain ⟨c, cs, begins, other⟩ := Numeral.IsLiteral.exists_head written
      refine ⟨c, cs, begins, ?_⟩
      rw [isSpace, beq_false_of_ne (other ' ' (by decide) (by decide)),
        beq_false_of_ne (other '\t' (by decide) (by decide)),
        beq_false_of_ne (other '\n' (by decide) (by decide)),
        beq_false_of_ne (other '\r' (by decide) (by decide))]
      rfl
  | string q => cases q <;> exact ⟨'"', _, rfl, rfl⟩
  | bool b => cases b <;> exact ⟨_, _, rfl, rfl⟩
  | _ => exact ⟨_, _, rfl, rfl⟩

/-! ## Scanning -/

/-- A text that spells tokens, with blanks before, between and behind them. -/
inductive Spaced : List Token → List Char → Prop
  | nil : Spaced [] []
  | blank {c : Char} {tokens : List Token} {cs : List Char} (space : isSpace c = true)
      (spaced : Spaced tokens cs) : Spaced tokens (c :: cs)
  | token {token : Token} {tokens : List Token} {cs : List Char} (written : token.IsWritten)
      (ends : token.Ends cs) (spaced : Spaced tokens cs) : Spaced (token :: tokens) (token.text ++ cs)

theorem scanWithin_of_spaced {tokens : List Token} {cs : List Char} (spaced : Spaced tokens cs) :
    ∀ fuel, cs.length ≤ fuel → scanWithin fuel cs = some tokens := by
  induction spaced with
  | nil =>
      intro fuel _
      cases fuel <;> rfl
  | blank space _ inductionHypothesis =>
      intro fuel enough
      cases fuel with
      | zero => exact absurd enough (Nat.not_succ_le_zero _)
      | succ left =>
          rw [scanWithin, if_pos space]
          exact inductionHypothesis left (Nat.le_of_succ_le_succ enough)
  | @token token tokens cs written ends _ inductionHypothesis =>
      intro fuel enough
      have taken := take?_text written ends
      obtain ⟨c, others, begins, noSpace⟩ := exists_head written
      rw [begins, List.cons_append] at enough taken ⊢
      cases fuel with
      | zero => exact absurd enough (Nat.not_succ_le_zero _)
      | succ left =>
          have shorter : cs.length ≤ left := by
            rw [List.length_cons, List.length_append] at enough
            omega
          rw [scanWithin, if_neg (Bool.eq_false_iff.mp noSpace), taken]
          show (scanWithin left cs).map (token :: ·) = some (token :: tokens)
          rw [inductionHypothesis left shorter]
          rfl

/-- A text that spells tokens is scanned to them. -/
theorem scan_of_spaced {tokens : List Token} {cs : List Char} (spaced : Spaced tokens cs) :
    scan cs = some tokens :=
  scanWithin_of_spaced spaced cs.length (Nat.le_refl _)

end Token

end Montage.Json
