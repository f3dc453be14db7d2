/-
SchemaClient.Proofs.Json.Grammar — what a JSON text is.

The rules of the format, as relations between the bytes before something and the bytes after it. Blanks
and digits reach as far as they can: after a number there is nothing that could go on with it. With that
no rule leaves a choice, so where a value ends can be told from the bytes it begins with.

* `Json.Derives` — a value, and the parts of lists and objects.
* `Json.Derives.unique` — a value ends in one place only.
* `Json.IsText` — a whole text: characters that make one value, with nothing but blanks around it.
-/
import SchemaClient.Json.Lexeme

namespace SchemaClient

namespace Json

open Reader

variable {b : UInt8} {text rest rest' : Bytes} {isObject first : Bool}

/-! ## Blanks -/

/-- The bytes from the first one on that is no blank. -/
def pastBlanks (text : Bytes) : Bytes := text.dropWhile Reader.isBlank

theorem pastBlanks_cons (h : Reader.isBlank b = false) (text : Bytes) :
    pastBlanks (b :: text) = b :: text := by
  rw [pastBlanks, List.dropWhile_cons, h]
  rfl

theorem isBlank_of_pastBlanks (h : pastBlanks text = b :: rest) : Reader.isBlank b = false := by
  have hne : text.dropWhile Reader.isBlank ≠ [] := by
    rw [show text.dropWhile Reader.isBlank = b :: rest from h]
    exact List.cons_ne_nil b rest
  have hhead := List.head_dropWhile_not Reader.isBlank hne
  simpa only [show text.dropWhile Reader.isBlank = b :: rest from h, List.head_cons] using hhead

theorem pastBlanks_pastBlanks (text : Bytes) : pastBlanks (pastBlanks text) = pastBlanks text := by
  cases h : pastBlanks text with
  | nil => rfl
  | cons b rest => exact pastBlanks_cons (isBlank_of_pastBlanks h) rest

/-! ## Numbers -/

/-- One digit or more, as many as there are. -/
inductive Digits : Bytes → Bytes → Prop where
  | intro {digit : UInt8} {text : Bytes} : isDigit digit = true →
      Digits (digit :: text) (text.dropWhile isDigit)

/-- The digits before a point: a zero that no digit follows, or digits the first of which is no zero. -/
inductive Integer : Bytes → Bytes → Prop where
  | zero {rest : Bytes} : rest.head?.any isDigit = false → Integer (byte '0' :: rest) rest
  | digits {text rest : Bytes} : text.head? ≠ some (byte '0') → Digits text rest → Integer text rest

/-- A point with the digits after it, unless no point follows. -/
inductive Fraction : Bytes → Bytes → Prop where
  | absent {text : Bytes} : text.head? ≠ some (byte '.') → Fraction text text
  | present {text rest : Bytes} : Digits text rest → Fraction (byte '.' :: text) rest

/-- The bytes after a sign, if there is one. -/
def pastSign (text : Bytes) : Bytes :=
  if text.head? = some (byte '+') ∨ text.head? = some (byte '-') then text.tail else text

/-- A mark and the exponent after it, unless no mark follows. -/
inductive Exponent : Bytes → Bytes → Prop where
  | absent {text : Bytes} : text.head?.any isExponentMark = false → Exponent text text
  | present {mark : UInt8} {text rest : Bytes} : isExponentMark mark = true →
      Digits (pastSign text) rest → Exponent (mark :: text) rest

/-- A number without its sign. -/
inductive Magnitude : Bytes → Bytes → Prop where
  | intro {text point mark rest : Bytes} : Integer text point → Fraction point mark →
      Exponent mark rest → Magnitude text rest

/-- A number. -/
inductive Numeral : Bytes → Bytes → Prop where
  | positive {text rest : Bytes} : Magnitude text rest → Numeral text rest
  | negative {text rest : Bytes} : Magnitude text rest → Numeral (byte '-' :: text) rest

theorem Digits.unique (h : Digits text rest) (h' : Digits text rest') : rest' = rest := by
  cases h
  cases h'
  rfl

theorem Integer.unique (h : Integer text rest) (h' : Integer text rest') : rest' = rest := by
  cases h with
  | zero =>
    cases h' with
    | zero => rfl
    | digits hzero _ => exact absurd rfl hzero
  | digits hzero hdigits =>
    cases h' with
    | zero => exact absurd rfl hzero
    | digits _ hdigits' => exact hdigits.unique hdigits'

theorem Fraction.unique (h : Fraction text rest) (h' : Fraction text rest') : rest' = rest := by
  cases h with
  | absent hpoint =>
    cases h' with
    | absent => rfl
    | present => exact absurd rfl hpoint
  | present hdigits =>
    cases h' with
    | absent hpoint => exact absurd rfl hpoint
    | present hdigits' => exact hdigits.unique hdigits'

theorem Exponent.unique (h : Exponent text rest) (h' : Exponent text rest') : rest' = rest := by
  cases h with
  | absent hmark =>
    cases h' with
    | absent => rfl
    | present hmark' => exact absurd hmark' (by simpa using hmark)
  | present hmark hdigits =>
    cases h' with
    | absent hmark' => exact absurd hmark (by simpa using hmark')
    | present _ hdigits' => exact hdigits.unique hdigits'

theorem Magnitude.unique (h : Magnitude text rest) (h' : Magnitude text rest') : rest' = rest := by
  obtain ⟨hinteger, hfraction, hexponent⟩ := h
  obtain ⟨hinteger', hfraction', hexponent'⟩ := h'
  obtain rfl := hinteger.unique hinteger'
  obtain rfl := hfraction.unique hfraction'
  exact hexponent.unique hexponent'

/-- A magnitude begins with a digit. -/
theorem Magnitude.exists_digit (h : Magnitude text rest) :
    ∃ digit more, text = digit :: more ∧ isDigit digit = true := by
  obtain ⟨hinteger, -, -⟩ := h
  cases hinteger with
  | zero => exact ⟨_, _, rfl, by decide⟩
  | digits _ hdigits =>
    cases hdigits with
    | intro hdigit => exact ⟨_, _, rfl, hdigit⟩

theorem not_magnitude_minus (text rest : Bytes) : ¬ Magnitude (byte '-' :: text) rest := by
  intro h
  obtain ⟨digit, more, htext, hdigit⟩ := h.exists_digit
  obtain rfl := (List.cons.inj htext).1
  exact absurd hdigit (by decide)

theorem Numeral.unique (h : Numeral text rest) (h' : Numeral text rest') : rest' = rest := by
  cases h with
  | positive h =>
    cases h' with
    | positive h' => exact h.unique h'
    | negative => exact absurd h (not_magnitude_minus _ _)
  | negative h =>
    cases h' with
    | positive h' => exact absurd h' (not_magnitude_minus _ _)
    | negative h' => exact h.unique h'

/-! ## Strings -/

/-- A byte that stands for itself in a string. -/
def isPlain (b : UInt8) : Bool := b != byte '"' && b != byte '\\' && 0x20 ≤ b

/-- The rest of a string after its opening quote. -/
inductive StringRest : Bytes → Bytes → Prop where
  | close {rest : Bytes} : StringRest (byte '"' :: rest) rest
  | plain {b : UInt8} {text rest : Bytes} : isPlain b = true → StringRest text rest →
      StringRest (b :: text) rest
  | short {letter : UInt8} {text rest : Bytes} : (shortEscape? letter).isSome = true →
      StringRest text rest → StringRest (byte '\\' :: letter :: text) rest
  | unit {a b c d : UInt8} {text rest : Bytes} :
      (∀ digit ∈ [a, b, c, d], (Reader.hexValue? digit).isSome = true) → StringRest text rest →
      StringRest (byte '\\' :: byte 'u' :: a :: b :: c :: d :: text) rest

theorem StringRest.plain_append {bytes : Bytes} (hplain : ∀ b ∈ bytes, isPlain b = true)
    (h : StringRest text rest) : StringRest (bytes ++ text) rest := by
  induction bytes with
  | nil => exact h
  | cons b bytes ih =>
    obtain ⟨hb, hbytes⟩ := List.forall_mem_cons.mp hplain
    exact .plain hb (ih hbytes)

theorem StringRest.unique (h : StringRest text rest) (h' : StringRest text rest') : rest' = rest := by
  induction h with
  | close =>
    cases h' with
    | close => rfl
    | plain hplain _ => exact absurd hplain (by decide)
  | plain hplain _ ih =>
    cases h' with
    | close => exact absurd hplain (by decide)
    | plain _ h' => exact ih h'
    | short _ _ => exact absurd hplain (by decide)
    | unit _ _ => exact absurd hplain (by decide)
  | short hshort _ ih =>
    cases h' with
    | plain hplain _ => exact absurd hplain (by decide)
    | short _ h' => exact ih h'
    | unit _ _ => exact absurd hshort (by decide)
  | unit hdigits _ ih =>
    cases h' with
    | plain hplain _ => exact absurd hplain (by decide)
    | short hshort _ => exact absurd hshort (by decide)
    | unit _ h' => exact ih h'

/-! ## Values -/

/-- The words that are values. -/
def words : List (List Char) := [['n', 'u', 'l', 'l'], ['t', 'r', 'u', 'e'], ['f', 'a', 'l', 's', 'e']]

/-- The bracket that opens a list or an object. -/
def opening (isObject : Bool) : UInt8 := byte (if isObject then '{' else '[')

/-- The bracket that closes it. -/
def closing (isObject : Bool) : UInt8 := byte (if isObject then '}' else ']')

theorem comma_ne_closing (isObject : Bool) : byte ',' ≠ closing isObject := by
  cases isObject <;> decide

/-- What there are rules for. -/
inductive Form where
  | value
  /-- An item of a list, or an entry of an object. -/
  | member (isObject : Bool)
  /-- The rest of a list or object, with its closing bracket; `first` if it has had no member yet. -/
  | within (isObject first : Bool)

/-- What reaches from some bytes to the bytes that are left after it. Before a member and its parts, a
comma and a bracket there may be blanks; a value begins with a byte of its own. -/
inductive Derives : Form → Bytes → Bytes → Prop where
  | word {letters : List Char} {rest : Bytes} : letters ∈ words →
      Derives .value (letters.map byte ++ rest) rest
  | numeral {text rest : Bytes} : Numeral text rest → Derives .value text rest
  | string {text rest : Bytes} : StringRest text rest → Derives .value (byte '"' :: text) rest
  | bracketed (isObject : Bool) {text rest : Bytes} : Derives (.within isObject true) text rest →
      Derives .value (opening isObject :: text) rest
  | item {text rest : Bytes} : Derives .value (pastBlanks text) rest →
      Derives (.member false) text rest
  | entry {text key colon after rest : Bytes} : pastBlanks text = byte '"' :: key →
      StringRest key colon → pastBlanks colon = byte ':' :: after →
      Derives .value (pastBlanks after) rest → Derives (.member true) text rest
  | close {isObject first : Bool} {text rest : Bytes} : pastBlanks text = closing isObject :: rest →
      Derives (.within isObject first) text rest
  | first {isObject : Bool} {text next rest : Bytes} : Derives (.member isObject) text next →
      Derives (.within isObject false) next rest → Derives (.within isObject true) text rest
  | next {isObject : Bool} {text after next rest : Bytes} : pastBlanks text = byte ',' :: after →
      Derives (.member isObject) after next → Derives (.within isObject false) next rest →
      Derives (.within isObject false) text rest

/-! Which rule a value is made by shows in its first byte. -/

/-- The kinds of values that differ in their first byte. -/
inductive Lead where
  | word
  | numeral
  | string
  | bracket (isObject : Bool)

/-- The kind of value that begins with the first of some bytes. -/
def lead? (text : Bytes) : Option Lead :=
  text.head?.bind fun b =>
    if b = byte 'n' ∨ b = byte 't' ∨ b = byte 'f' then some .word
    else if b = byte '-' ∨ isDigit b = true then some .numeral
    else if b = byte '"' then some .string
    else if b = opening false then some (.bracket false)
    else if b = opening true then some (.bracket true)
    else none

theorem lead?_word {letters : List Char} (h : letters ∈ words) (rest : Bytes) :
    lead? (letters.map byte ++ rest) = some .word := by
  simp only [words, List.mem_cons, List.not_mem_nil, or_false] at h
  rcases h with rfl | rfl | rfl <;> rfl

theorem lead?_digit (h : isDigit b = true) (rest : Bytes) :
    lead? (b :: rest) = some .numeral := by
  have hletter : ¬ (b = byte 'n' ∨ b = byte 't' ∨ b = byte 'f') := by
    rintro (rfl | rfl | rfl) <;> exact absurd h (by decide)
  rw [lead?, List.head?_cons, Option.bind_some, if_neg hletter, if_pos (Or.inr h)]

theorem lead?_numeral (h : Numeral text rest) : lead? text = some .numeral := by
  cases h with
  | positive h =>
    obtain ⟨digit, more, rfl, hdigit⟩ := h.exists_digit
    exact lead?_digit hdigit more
  | negative => rfl

theorem lead?_bracket (isObject : Bool) (rest : Bytes) :
    lead? (opening isObject :: rest) = some (.bracket isObject) := by
  cases isObject <;> rfl

/-- A value is what its first byte says. -/
theorem Derives.of_lead? (h : Derives .value text rest) :
    match lead? text with
    | some .word => ∃ letters ∈ words, text = letters.map byte ++ rest
    | some .numeral => Numeral text rest
    | some .string => ∃ body, text = byte '"' :: body ∧ StringRest body rest
    | some (.bracket isObject) =>
      ∃ inner, text = opening isObject :: inner ∧ Derives (.within isObject true) inner rest
    | none => False := by
  cases h with
  | word hmem =>
    rw [lead?_word hmem]
    exact ⟨_, hmem, rfl⟩
  | numeral h =>
    rw [lead?_numeral h]
    exact h
  | string h => exact ⟨_, rfl, h⟩
  | bracketed _ h =>
    rw [lead?_bracket]
    exact ⟨_, rfl, h⟩

theorem word_unique {letters letters' : List Char} (h : letters ∈ words) (h' : letters' ∈ words)
    (heq : letters.map byte ++ rest = letters'.map byte ++ rest') : rest' = rest := by
  have hletters : letters = letters' := by
    simp only [words, List.mem_cons, List.not_mem_nil, or_false] at h h'
    -- words that differ do so in their first letter
    rcases h with rfl | rfl | rfl <;> rcases h' with rfl | rfl | rfl <;>
      first
        | rfl
        | exact absurd (List.cons.inj heq).1 (by decide)
  subst hletters
  exact (List.append_cancel_left heq).symm

/-- A value does not begin with the bracket that would close the list it stands in. -/
theorem Derives.ne_closing (h : Derives .value text rest) : text.head? ≠ some (closing isObject) := by
  intro hhead
  have hlead := h.of_lead?
  have hnone : lead? text = none := by
    rw [lead?, hhead]
    cases isObject <;> decide
  rw [hnone] at hlead
  exact hlead

/-- No member begins with a closing bracket. -/
theorem Derives.member_ne_closing (h : Derives (.member isObject) text rest) (after : Bytes) :
    pastBlanks text ≠ closing isObject :: after := by
  intro hclosing
  cases h with
  | item h => exact h.ne_closing (congrArg List.head? hclosing)
  | entry hkey _ _ _ =>
    rw [hkey] at hclosing
    exact absurd (List.cons.inj hclosing).1 (by decide)

/-- What a rule is made for ends in one place only. -/
theorem Derives.unique {form : Form} (h : Derives form text rest) :
    ∀ {rest' : Bytes}, Derives form text rest' → rest' = rest := by
  induction h with
  | word hmem =>
    intro rest' h'
    have hlead := h'.of_lead?
    rw [lead?_word hmem] at hlead
    obtain ⟨letters', hmem', heq⟩ := hlead
    exact word_unique hmem hmem' heq
  | numeral h =>
    intro rest' h'
    have hlead := h'.of_lead?
    rw [lead?_numeral h] at hlead
    exact h.unique hlead
  | string h =>
    intro rest' h'
    obtain ⟨body, heq, hbody⟩ := h'.of_lead?
    obtain rfl := (List.cons.inj heq).2
    exact h.unique hbody
  | bracketed _ _ ih =>
    intro rest' h'
    have hlead := h'.of_lead?
    rw [lead?_bracket] at hlead
    obtain ⟨inner, heq, hinner⟩ := hlead
    obtain rfl := (List.cons.inj heq).2
    exact ih hinner
  | item _ ih =>
    intro rest' h'
    cases h' with
    | item h' => exact ih h'
  | entry hkey hstring hcolon _ ih =>
    intro rest' h'
    cases h' with
    | entry hkey' hstring' hcolon' h' =>
      rw [hkey] at hkey'
      obtain rfl := (List.cons.inj hkey').2
      obtain rfl := hstring.unique hstring'
      rw [hcolon] at hcolon'
      obtain rfl := (List.cons.inj hcolon').2
      exact ih h'
  | close hclosing =>
    intro rest' h'
    cases h' with
    | close hclosing' => exact (List.cons.inj (hclosing'.symm.trans hclosing)).2
    | first hmember _ => exact absurd hclosing (hmember.member_ne_closing _)
    | next hcomma _ _ =>
      exact absurd (List.cons.inj (hcomma.symm.trans hclosing)).1 (comma_ne_closing _)
  | first hmember _ ihmember ih =>
    intro rest' h'
    cases h' with
    | close hclosing => exact absurd hclosing (hmember.member_ne_closing _)
    | first hmember' h' =>
      obtain rfl := ihmember hmember'
      exact ih h'
  | next hcomma _ _ ihmember ih =>
    intro rest' h'
    cases h' with
    | close hclosing =>
      exact absurd (List.cons.inj (hcomma.symm.trans hclosing)).1 (comma_ne_closing _)
    | next hcomma' hmember' h' =>
      obtain rfl := (List.cons.inj (hcomma.symm.trans hcomma')).2
      obtain rfl := ihmember hmember'
      exact ih h'

/-! ## Texts -/

/-- A whole text: its bytes are characters, and make one value with nothing but blanks around it. -/
def IsText (text : Bytes) : Prop :=
  Utf8.isValid text = true ∧ ∃ rest, Derives .value (pastBlanks text) rest ∧ pastBlanks rest = []

/-- Bytes that begin with a value are a whole text if nothing but blanks follows the value. -/
theorem isText_iff (h : Derives .value (pastBlanks text) rest) :
    IsText text ↔ pastBlanks rest = [] ∧ Utf8.isValid text = true := by
  constructor
  · rintro ⟨hvalid, rest', h', hblank⟩
    obtain rfl := h.unique h'
    exact ⟨hblank, hvalid⟩
  · rintro ⟨hblank, hvalid⟩
    exact ⟨hvalid, rest, h, hblank⟩

end Json

end SchemaClient
