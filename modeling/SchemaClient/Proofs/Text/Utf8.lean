/-
SchemaClient.Proofs.Text.Utf8 — the bytes of a text and its order.

Texts are compared character by character. Their bytes come in the same order: of two characters the
one with the smaller code point has the bytes that come first, and they differ before either of them
ends.

* `Utf8.encode_append` — the bytes of texts one after the other.
* `Utf8.encode_le` — ascending texts have ascending bytes.
* `Utf8.head_encodeChar`, `Utf8.decode?_encode` — what is read from the bytes of a text is the text.
-/
import Mathlib.Tactic.SplitIfs
import SchemaClient.Text.Utf8

namespace SchemaClient

namespace Utf8

/-! ## Bytes as a list -/

theorem toList_loop_eq (bytes : ByteArray) (i : Nat) (done : List UInt8) :
    ByteArray.toList.loop bytes i done = done.reverse ++ bytes.data.toList.drop i := by
  fun_induction ByteArray.toList.loop bytes i done with
  | case1 i done hi ih =>
    have hsize : i < bytes.data.size := hi
    have hlength : i < bytes.data.toList.length := hi
    have hget : bytes.get! i = bytes.data[i]! := rfl
    rw [ih, List.drop_eq_getElem_cons hlength, hget, getElem!_pos bytes.data i hsize]
    simp
  | case2 i done hi =>
    rw [List.drop_eq_nil_of_le (Nat.le_of_not_lt hi), List.append_nil]

theorem encode_eq (text : String) : encode text = text.toList.flatMap String.utf8EncodeChar := by
  rw [encode, String.toUTF8_eq_toByteArray, ByteArray.toList, toList_loop_eq, List.reverse_nil,
    List.nil_append, List.drop_zero, ← String.utf8Encode_toList, List.utf8Encode,
    List.toList_data_toByteArray]

theorem encode_append (first second : String) :
    encode (first ++ second) = encode first ++ encode second := by
  rw [encode_eq, encode_eq, encode_eq, String.toList_append, List.flatMap_append]

theorem encode_empty : encode "" = [] := by
  rw [encode_eq]; rfl

/-! ## Order -/

/-- At the first byte in which two byte sequences differ, the first has the smaller one. -/
inductive Before : Bytes → Bytes → Prop where
  | here {a b : UInt8} {s t : Bytes} : a < b → Before (a :: s) (b :: t)
  | later {a : UInt8} {s t : Bytes} : Before s t → Before (a :: s) (a :: t)

theorem Before.append_lt {a b : Bytes} (h : Before a b) (s t : Bytes) : a ++ s < b ++ t := by
  induction h with
  | here hlt => exact List.cons_lt_cons_iff.mpr (Or.inl hlt)
  | later _ ih => exact List.cons_lt_cons_iff.mpr (Or.inr ⟨rfl, ih⟩)

theorem Before.ofNat {x y : Nat} {s t : Bytes} (hx : x < 256) (hy : y < 256)
    (h : x < y ∨ x = y ∧ Before s t) : Before (UInt8.ofNat x :: s) (UInt8.ofNat y :: t) := by
  rcases h with h | ⟨rfl, h⟩
  · refine .here ?_
    rw [UInt8.lt_iff_toNat_lt, UInt8.toNat_ofNat', UInt8.toNat_ofNat']
    omega
  · exact .later h

/-- The encodings of two characters differ as the characters do, within their length. -/
theorem before_of_lt {c d : Char} (h : c < d) :
    Before (String.utf8EncodeChar c) (String.utf8EncodeChar d) := by
  have hlt : c.val.toNat < d.val.toNat := h
  have hd : d.val.toNat < 0x110000 := by
    rcases d.valid with hvalid | hvalid <;> omega
  unfold String.utf8EncodeChar
  simp only
  generalize c.val.toNat = v at hlt
  generalize d.val.toNat = w at hlt hd
  split_ifs
  all_goals try omega
  -- encodings of different lengths differ in the first byte
  all_goals try exact .ofNat (by omega) (by omega) (Or.inl (by omega))
  all_goals refine .ofNat (by omega) (by omega) ?_
  · rcases Nat.lt_or_ge (v / 64) (w / 64) with hfirst | hfirst
    · exact Or.inl (by omega)
    · exact Or.inr ⟨by omega, .ofNat (by omega) (by omega) (Or.inl (by omega))⟩
  · rcases Nat.lt_or_ge (v / 4096) (w / 4096) with hfirst | hfirst
    · exact Or.inl (by omega)
    · refine Or.inr ⟨by omega, .ofNat (by omega) (by omega) ?_⟩
      rcases Nat.lt_or_ge (v / 64) (w / 64) with hsecond | hsecond
      · exact Or.inl (by omega)
      · exact Or.inr ⟨by omega, .ofNat (by omega) (by omega) (Or.inl (by omega))⟩
  · rcases Nat.lt_or_ge (v / 262144) (w / 262144) with hfirst | hfirst
    · exact Or.inl (by omega)
    · refine Or.inr ⟨by omega, .ofNat (by omega) (by omega) ?_⟩
      rcases Nat.lt_or_ge (v / 4096) (w / 4096) with hsecond | hsecond
      · exact Or.inl (by omega)
      · refine Or.inr ⟨by omega, .ofNat (by omega) (by omega) ?_⟩
        rcases Nat.lt_or_ge (v / 64) (w / 64) with hthird | hthird
        · exact Or.inl (by omega)
        · exact Or.inr ⟨by omega, .ofNat (by omega) (by omega) (Or.inl (by omega))⟩

theorem flatMap_lt {as bs : List Char} (h : as < bs) :
    as.flatMap String.utf8EncodeChar < bs.flatMap String.utf8EncodeChar := by
  induction h with
  | @nil b bs =>
    obtain ⟨byte, rest, hbytes⟩ :=
      List.exists_cons_of_ne_nil (String.utf8EncodeChar_ne_nil (c := b))
    rw [List.flatMap_cons, hbytes]
    exact List.nil_lt_cons _ _
  | rel hlt => exact (before_of_lt hlt).append_lt _ _
  | cons _ ih => exact List.append_left_lt ih

theorem encode_lt {a b : String} (h : a < b) : encode a < encode b := by
  rw [encode_eq, encode_eq]
  exact flatMap_lt h

/-- Ascending texts have ascending bytes. -/
theorem encode_le {a b : String} (h : a ≤ b) : encode a ≤ encode b := by
  by_cases hab : a = b
  · rw [hab]
    exact List.le_refl _
  · exact List.le_of_lt (encode_lt (String.not_le.mp fun hba => hab (String.le_antisymm h hba)))

/-- A text can be told from its bytes. -/
theorem encode_injective {a b : String} (h : encode a = encode b) : a = b := by
  have hle : ∀ {a b : String}, encode a = encode b → a ≤ b := by
    intro a b h
    refine String.not_lt.mp fun hlt => ?_
    have hbytes := encode_lt hlt
    rw [h] at hbytes
    exact List.lt_irrefl _ hbytes
  exact String.le_antisymm (hle h) (hle h.symm)

/-! ## Reading bytes -/

theorem follow_owed {owed low high bits byte : Nat} (rest : Bytes) (hlow : low ≤ byte)
    (hhigh : byte ≤ high) (hbyte : byte < 256) :
    follow (owed + 1) low high bits (UInt8.ofNat byte :: rest) =
      follow owed 0x80 0xBF (bits * 64 + byte % 64) rest := by
  have htoNat : (UInt8.ofNat byte).toNat = byte := by
    rw [UInt8.toNat_ofNat']
    omega
  rw [follow, htoNat, if_pos ⟨hlow, hhigh⟩]

theorem follow_done {low high bits : Nat} {c : Char} (rest : Bytes) (h : bits = c.val.toNat) :
    follow 0 low high bits rest = .char c rest := by
  rw [follow, h]
  exact congrArg (Head.char · rest) (Char.ofNat_toNat c)

/-- The bytes of a character are read as the character, whatever follows them. -/
theorem head_encodeChar (c : Char) (rest : Bytes) :
    ∃ first more, String.utf8EncodeChar c = first :: more ∧ head first (more ++ rest) = .char c rest := by
  have hbound : c.val.toNat < 0x110000 := by
    rcases c.valid with hvalid | hvalid <;> omega
  have hvalid : c.val.toNat < 0xD800 ∨ 0xDFFF < c.val.toNat := by
    rcases c.valid with hvalid | hvalid <;> omega
  unfold String.utf8EncodeChar
  simp only
  generalize hv : c.val.toNat = v at hbound hvalid
  -- the first byte, of which `lead` says how many follow
  have hfirst : ∀ byte < 256, (UInt8.ofNat byte).toNat = byte := by
    intro byte hbyte
    rw [UInt8.toNat_ofNat', Nat.mod_eq_of_lt hbyte]
  split_ifs with h1 h2 h3
  · refine ⟨_, _, rfl, ?_⟩
    rw [head, hfirst _ (by omega), lead, if_pos (by omega)]
    exact follow_done _ hv.symm
  · refine ⟨_, _, rfl, ?_⟩
    rw [head, hfirst _ (by omega), lead, if_neg (by omega), if_neg (by omega), if_pos (by omega)]
    simp only [List.cons_append, List.nil_append]
    rw [follow_owed rest (by omega) (by omega) (by omega)]
    exact follow_done rest (by omega)
  · refine ⟨_, _, rfl, ?_⟩
    rw [head, hfirst _ (by omega), lead, if_neg (by omega), if_neg (by omega), if_neg (by omega),
      if_pos (by omega)]
    simp only [List.cons_append, List.nil_append]
    rw [follow_owed _ (by split <;> omega) (by split <;> omega) (by omega),
      follow_owed rest (by omega) (by omega) (by omega)]
    exact follow_done rest (by omega)
  · refine ⟨_, _, rfl, ?_⟩
    rw [head, hfirst _ (by omega), lead, if_neg (by omega), if_neg (by omega), if_neg (by omega),
      if_neg (by omega), if_pos (by omega)]
    simp only [List.cons_append, List.nil_append]
    rw [follow_owed _ (by split <;> omega) (by split <;> omega) (by omega),
      follow_owed _ (by omega) (by omega) (by omega), follow_owed rest (by omega) (by omega) (by omega)]
    exact follow_done rest (by omega)

/-- A byte below 128 is a character of its own. -/
theorem head_of_lt {first : UInt8} (h : first.toNat < 0x80) (rest : Bytes) :
    head first rest = .char (Char.ofNat first.toNat) rest := by
  rw [head, lead, if_pos h]
  rfl

/-- The bytes that follow the first byte of a character, or of a broken part, are no ASCII. -/
theorem exists_append_follow {owed low high bits : Nat} (hlow : owed = 0 ∨ 0x80 ≤ low)
    (bytes : Bytes) : ∃ passed, bytes = passed ++ (follow owed low high bits bytes).rest ∧
      ∀ byte ∈ passed, 0x80 ≤ byte.toNat := by
  fun_induction follow owed low high bits bytes with
  | case1 => exact ⟨[], rfl, by simp⟩
  | case2 => exact ⟨[], rfl, by simp⟩
  | case3 low high bits owed byte rest hbyte ih =>
    obtain ⟨passed, hpassed, hall⟩ := ih (Or.inr (Nat.le_refl _))
    have hfirst : 0x80 ≤ byte.toNat := by omega
    exact ⟨byte :: passed, congrArg (byte :: ·) hpassed, List.forall_mem_cons.mpr ⟨hfirst, hall⟩⟩
  | case4 => exact ⟨[], rfl, by simp⟩

/-- Of a byte that follows at least the highest bit is set. -/
theorem low_of_lead {byte : Nat} {l : Lead} (h : lead byte = some l) :
    l.owed = 0 ∨ 0x80 ≤ l.low := by
  unfold lead at h
  split_ifs at h <;> cases h <;> simp

theorem exists_append_head (first : UInt8) (rest : Bytes) :
    ∃ passed, rest = passed ++ (head first rest).rest ∧ ∀ byte ∈ passed, 0x80 ≤ byte.toNat := by
  unfold head
  split
  · exact ⟨[], rfl, by simp⟩
  · rename_i l hlead
    exact exists_append_follow (low_of_lead hlead) rest

/-- The bytes of a text are nothing but its characters. -/
theorem isValid_encode (text : String) : isValid (encode text) = true := by
  rw [encode_eq]
  induction text.toList with
  | nil => rw [List.flatMap_nil, isValid]
  | cons c chars ih =>
    obtain ⟨first, more, hbytes, hhead⟩ := head_encodeChar c (chars.flatMap String.utf8EncodeChar)
    rw [List.flatMap_cons, hbytes, List.cons_append, isValid, hhead]
    exact ih

theorem lossyChars_encode (text : String) : lossyChars (encode text) = text.toList := by
  rw [encode_eq]
  induction text.toList with
  | nil => rw [List.flatMap_nil, lossyChars]
  | cons c chars ih =>
    obtain ⟨first, more, hbytes, hhead⟩ := head_encodeChar c (chars.flatMap String.utf8EncodeChar)
    rw [List.flatMap_cons, hbytes, List.cons_append, lossyChars, hhead]
    exact congrArg (c :: ·) ih

/-- The bytes of a text are read as the text. -/
theorem decode?_encode (text : String) : decode? (encode text) = some text := by
  rw [decode?, if_pos (isValid_encode text), lossy, lossyChars_encode, String.ofList_toList]

end Utf8

end SchemaClient
