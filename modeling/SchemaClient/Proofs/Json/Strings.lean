/-
SchemaClient.Proofs.Json.Strings — a quoted text is read as the text.

The printer escapes what cannot stand in a string as it is, and the reader takes the bytes of a string
one character at a time. What it takes for the written form of a character is the character.

* `Json.Reader.stringStep_escape` — reading one character.
* `Json.Reader.loop_body` — reading the text, up to the closing quote.
* `Json.encode_quote` — the bytes of a quoted text.
-/
import SchemaClient.Json.Lexeme
import SchemaClient.Proofs.Text.Utf8
import SchemaClient.Text.Quoted

namespace SchemaClient

namespace Json

namespace Reader

/-! ## Readers in sequence -/

section

variable {σ α β : Type} {text rest : Bytes}

theorem bind_of_ok {reader : Reader α} {a : α} (h : reader text = .ok (a, rest))
    (next : α → Reader β) : (reader >>= next) text = next a rest := by
  show (reader text >>= fun read => next read.1 read.2) = next a rest
  rw [h]
  rfl

theorem under_of_ok {reader : Reader α} {a : α} (h : reader text = .ok (a, rest)) (step : Step) :
    reader.under step text = .ok (a, rest) := by
  rw [under, h]
  rfl

theorem next?_cons (b : UInt8) (rest : Bytes) : next? (b :: rest) = .ok (some b, rest) := rfl

theorem skip_cons (b : UInt8) (rest : Bytes) : skip (b :: rest) = .ok ((), rest) := rfl

variable {step : σ → Reader (Turn σ α)} {state next : σ}

/-! Repetition. -/

theorem loop_of_again (h : step state text = .ok (.again next, rest))
    (hlength : rest.length < text.length) : loop step state text = loop step next rest := by
  rw [loop, loopOn, h]
  exact if_pos hlength

theorem loop_of_done {a : α} (h : step state text = .ok (.done a, rest)) :
    loop step state text = .ok (a, rest) := by
  rw [loop, loopOn, h]

end

/-! ## Characters -/

variable {draft : Draft} {c : Char} {rest : Bytes}

theorem stringStep_of_plain {first : UInt8} {more : Bytes} (hquote : first ≠ byte '"')
    (hescape : first ≠ byte '\\') (hcontrol : ¬ first < 0x20)
    (hhead : Utf8.head first more = .char c rest) :
    stringStep draft (first :: more) =
      .ok (.again { draft with reversed := c :: draft.reversed }, rest) := by
  rw [stringStep, bind_of_ok (next?_cons first more)]
  simp only [if_neg hquote, if_neg hescape, if_neg hcontrol]
  have hget : (get : Reader Bytes) more = .ok (more, more) := rfl
  rw [bind_of_ok hget, hhead]
  rfl

theorem stringStep_of_escaped {more : Bytes} (h : escaped more = .ok (c, rest)) :
    stringStep draft (byte '\\' :: more) =
      .ok (.again { draft with reversed := c :: draft.reversed }, rest) := by
  have hquote : byte '\\' ≠ byte '"' := by decide
  rw [stringStep, bind_of_ok (next?_cons _ more)]
  simp only [if_neg hquote, if_true]
  rw [bind_of_ok h]
  rfl

theorem stringStep_quote (hsound : draft.broken = none) (rest : Bytes) :
    stringStep draft (byte '"' :: rest) =
      .ok (.done (String.ofList draft.reversed.reverse), rest) := by
  rw [stringStep, bind_of_ok (next?_cons _ rest)]
  simp only [if_true, hsound]
  rfl

/-! ## Escapes -/

theorem escaped_of_short {letter : Char} (h : shortEscape? (byte letter) = some c) (rest : Bytes) :
    escaped (byte letter :: rest) = .ok (c, rest) := by
  rw [escaped, bind_of_ok (next?_cons _ rest)]
  simp only [h]
  rfl

theorem shortEscape?_of_shortLetter? {letter : Char} (h : Quoted.shortLetter? c = some letter) :
    String.utf8EncodeChar letter = [byte letter] ∧ shortEscape? (byte letter) = some c := by
  unfold Quoted.shortLetter? at h
  split at h <;> cases h <;> decide

/-- A digit below sixteen is written as one byte, and read as the digit. -/
theorem hexValue?_digitChar : ∀ n < 16,
    String.utf8EncodeChar (Nat.digitChar n) = [byte (Nat.digitChar n)] ∧
      hexValue? (byte (Nat.digitChar n)) = some n := by
  decide

theorem escaped_hex {unit : Nat} (h : unit < 256) (rest : Bytes) :
    escaped (byte 'u' :: byte '0' :: byte '0' :: byte (Quoted.hexDigit (unit / 16)) ::
      byte (Quoted.hexDigit unit) :: rest) = .ok (Char.ofNat unit, rest) := by
  have hzero : hexValue? (byte '0') = some 0 := by decide
  have hhigh := (hexValue?_digitChar (unit / 16 % 16) (by omega)).2
  have hlow := (hexValue?_digitChar (unit % 16) (by omega)).2
  have hfour : hexFour (byte '0' :: byte '0' :: byte (Quoted.hexDigit (unit / 16)) ::
      byte (Quoted.hexDigit unit) :: rest) = .ok (unit, rest) := by
    rw [hexFour, hzero, Quoted.hexDigit, Quoted.hexDigit, hhigh, hlow]
    exact congrArg (fun n => Except.ok (n, rest)) (by omega)
  have hshort : shortEscape? (byte 'u') = none := by decide
  have htrailing : isTrailing unit = false := by
    rw [isTrailing, Bool.and_eq_false_iff]
    exact Or.inl (decide_eq_false (by omega))
  have hleading : isLeading unit = false := by
    rw [isLeading, Bool.and_eq_false_iff]
    exact Or.inl (decide_eq_false (by omega))
  rw [escaped, bind_of_ok (next?_cons _ _)]
  simp only [hshort, if_true]
  rw [bind_of_ok hfour]
  simp only [htrailing, hleading, Bool.false_eq_true, if_false]
  rfl

/-- The written form of a character is read as the character. -/
theorem stringStep_escape (c : Char) (rest : Bytes) :
    stringStep draft ((Quoted.escape c).flatMap String.utf8EncodeChar ++ rest) =
      .ok (.again { draft with reversed := c :: draft.reversed }, rest) := by
  unfold Quoted.escape
  split
  · rename_i hmark
    rcases hmark with rfl | rfl
    · exact stringStep_of_escaped (escaped_of_short (by decide) rest)
    · exact stringStep_of_escaped (escaped_of_short (by decide) rest)
  · rename_i hmark
    obtain ⟨hquote, hescape⟩ := not_or.mp hmark
    split
    · rename_i letter hletter
      obtain ⟨hbyte, hshort⟩ := shortEscape?_of_shortLetter? hletter
      rw [List.flatMap_cons, List.flatMap_cons, hbyte]
      exact stringStep_of_escaped (escaped_of_short hshort rest)
    · split
      · rename_i hcontrol
        have hhigh := (hexValue?_digitChar (c.toNat / 16 % 16) (by omega)).1
        have hlow := (hexValue?_digitChar (c.toNat % 16) (by omega)).1
        have hread := @escaped_hex c.toNat (by omega) rest
        rw [Char.ofNat_toNat] at hread
        rw [Quoted.hexDigit, Quoted.hexDigit] at *
        simp only [List.flatMap_cons, List.flatMap_nil, hhigh, hlow]
        exact stringStep_of_escaped hread
      · rename_i hcontrol
        obtain ⟨first, more, hbytes, hhead⟩ := Utf8.head_encodeChar c rest
        -- a byte below 128 is the character itself, which has no need to be escaped
        have hself : first.toNat < 0x80 → c = Char.ofNat first.toNat := by
          intro hlt
          rw [Utf8.head_of_lt hlt] at hhead
          exact (Utf8.Head.char.inj hhead).1.symm
        rw [List.flatMap_singleton, hbytes]
        refine stringStep_of_plain ?_ ?_ ?_ hhead
        · rintro rfl
          exact hquote (hself (by decide))
        · rintro rfl
          exact hescape (hself (by decide))
        · intro hlt
          have hlt' : first.toNat < 0x20 := UInt8.lt_iff_toNat_lt.mp hlt
          rw [hself (by omega)] at hcontrol
          exact hcontrol ((by decide : ∀ n < 0x20, (Char.ofNat n).toNat < 0x20) _ hlt')

theorem length_escape_pos (c : Char) :
    0 < ((Quoted.escape c).flatMap String.utf8EncodeChar).length := by
  obtain ⟨first, more, hchars⟩ : ∃ first more, Quoted.escape c = first :: more := by
    unfold Quoted.escape
    split
    · exact ⟨_, _, rfl⟩
    · split
      · exact ⟨_, _, rfl⟩
      · split <;> exact ⟨_, _, rfl⟩
  have hfirst := List.length_pos_iff.mpr (String.utf8EncodeChar_ne_nil (c := first))
  rw [hchars, List.flatMap_cons, List.length_append]
  omega

/-- The written form of a text, up to the closing quote, is read as the text. -/
theorem loop_body (text : List Char) (rest : Bytes) {draft : Draft} (hsound : draft.broken = none) :
    loop stringStep draft
        ((Quoted.body text).flatMap String.utf8EncodeChar ++ byte '"' :: rest) =
      .ok (String.ofList (draft.reversed.reverse ++ text), rest) := by
  induction text generalizing draft with
  | nil =>
    rw [List.append_nil]
    exact loop_of_done (stringStep_quote hsound rest)
  | cons c text ih =>
    have hshrinks : ∀ more : Bytes, more.length <
        ((Quoted.escape c).flatMap String.utf8EncodeChar ++ more).length := by
      intro more
      have hpositive := length_escape_pos c
      rw [List.length_append]
      omega
    have hrest := @ih { draft with reversed := c :: draft.reversed } hsound
    rw [Quoted.body, List.flatMap_cons, ← Quoted.body, List.flatMap_append, List.append_assoc,
      loop_of_again (stringStep_escape c _) (hshrinks _), hrest, List.reverse_cons,
      List.append_assoc]
    rfl

end Reader

/-! ## Quoted texts -/

/-- A quoted text opens with a quote. -/
theorem encode_quote (text : String) : ∃ more, Utf8.encode (quote text) = byte '"' :: more ∧
    ∀ rest, Reader.string (more ++ rest) = .ok (text, rest) := by
  refine ⟨(Quoted.body text.toList).flatMap String.utf8EncodeChar ++ [byte '"'], ?_, fun rest => ?_⟩
  · rw [Utf8.encode_eq, quote, String.toList_ofList, List.cons_append, List.flatMap_cons,
      List.flatMap_append]
    rfl
  · rw [List.append_assoc, Reader.string]
    exact (Reader.loop_body text.toList rest rfl).trans (by simp)

end Json

end SchemaClient
