/-
SchemaClient.Proofs.Json.Lexemes — strings and numbers are read as the format has them.

Whatever a reader takes off the front of a text is what the rules of the format say. A reader that only
skips takes as much as one that reads in full; it just looks less closely at what it takes.

* `Json.Reader.of_loop_ok` — what one step keeps, a repetition keeps.
* `Json.Reader.stringRest_of_string`, `Json.Reader.stringRest_of_skipString` — strings.
* `Json.Reader.magnitude_of_number`, `Json.Reader.magnitude_of_skipNumber` — numbers.
-/
import Mathlib.Tactic.SplitIfs
import SchemaClient.Proofs.Json.Grammar
import SchemaClient.Proofs.Json.Strings

namespace SchemaClient

namespace Json

namespace Reader

variable {σ α β : Type} {text rest : Bytes} {a : α}

/-! ## Readers in sequence -/

theorem exists_read_of_bind {reader : Reader α} {next : α → Reader β} {b : β}
    (h : (reader >>= next) text = .ok (b, rest)) :
    ∃ a middle, reader text = .ok (a, middle) ∧ next a middle = .ok (b, rest) := by
  have hbind : (reader >>= next) text = reader text >>= fun read => next read.1 read.2 := rfl
  rw [hbind] at h
  cases hread : reader text with
  | error fault =>
    rw [hread] at h
    cases h
  | ok read =>
    rw [hread] at h
    exact ⟨read.1, read.2, rfl, h⟩

theorem exists_read_of_map {reader : Reader α} {f : α → β} {b : β}
    (h : (f <$> reader) text = .ok (b, rest)) : ∃ a, reader text = .ok (a, rest) ∧ f a = b := by
  have hbind : (reader >>= fun a => pure (f a)) text = .ok (b, rest) := h
  obtain ⟨a, middle, hreader, hpure⟩ := exists_read_of_bind hbind
  cases hpure
  exact ⟨a, hreader, rfl⟩

theorem of_under_ok {reader : Reader α} {step : Step} (h : reader.under step text = .ok (a, rest)) :
    reader text = .ok (a, rest) := by
  unfold under at h
  cases hread : reader text with
  | error fault =>
    rw [hread] at h
    cases h
  | ok read =>
    rw [hread] at h
    exact h

/-! What does not fail is left out of a sequence, what always fails is its end. -/

@[simp] theorem peek?_bind (next : Option UInt8 → Reader β) (text : Bytes) :
    (peek? >>= next) text = next text.head? text := rfl

@[simp] theorem next?_bind (next : Option UInt8 → Reader β) (text : Bytes) :
    (next? >>= next) text = next text.head? text.tail := rfl

@[simp] theorem skip_bind (next : Unit → Reader β) (text : Bytes) :
    (skip >>= next) text = next () text.tail := rfl

@[simp] theorem takeWhile_bind (fits : UInt8 → Bool) (next : Bytes → Reader β) (text : Bytes) :
    (takeWhile fits >>= next) text = next (text.takeWhile fits) (text.dropWhile fits) := rfl

@[simp] theorem peekWord?_bind (next : Option UInt8 → Reader β) (text : Bytes) :
    (peekWord? >>= next) text = next (pastBlanks text).head? (pastBlanks text) := rfl

@[simp] theorem pure_ok (a b : α) (text rest : Bytes) :
    (pure a : Reader α) text = .ok (b, rest) ↔ a = b ∧ text = rest := by
  constructor
  · intro h
    cases h
    exact ⟨rfl, rfl⟩
  · rintro ⟨rfl, rfl⟩
    rfl

@[simp] theorem failHere_ne_ok (cause : Cause) (text : Bytes) (read : α × Bytes) :
    (failHere cause : Reader α) text ≠ .ok read := nofun

@[simp] theorem failPast_ne_ok (cause : Cause) (text : Bytes) (read : α × Bytes) :
    (failPast cause : Reader α) text ≠ .ok read := nofun

/-- A reader that always finds a fault. -/
def Refuses (reader : Reader α) : Prop := ∀ text read, reader text ≠ .ok read

theorem refuses_failHere (cause : Cause) : Refuses (failHere cause : Reader α) :=
  failHere_ne_ok cause

theorem refuses_failPast (cause : Cause) : Refuses (failPast cause : Reader α) :=
  failPast_ne_ok cause

theorem Refuses.bind {reader : Reader α} {next : α → Reader β} (h : ∀ a, Refuses (next a)) :
    Refuses (reader >>= next) := by
  intro text read hread
  obtain ⟨a, middle, -, hnext⟩ := exists_read_of_bind hread
  exact h a middle read hnext

theorem Refuses.then {reader : Reader α} (h : Refuses reader) (next : α → Reader β) :
    Refuses (reader >>= next) := by
  intro text read hread
  obtain ⟨a, middle, hreader, -⟩ := exists_read_of_bind hread
  exact h text _ hreader

/-! Where the text must not be at its end. -/

theorem exists_of_next {fault : Reader β} {next : UInt8 → Reader β} {b : β} (hfault : Refuses fault)
    (h : (next? >>= fun byte? => match byte? with
      | none => fault
      | some byte => next byte) text = .ok (b, rest)) :
    ∃ byte more, text = byte :: more ∧ next byte more = .ok (b, rest) := by
  cases text with
  | nil => exact absurd h (hfault _ _)
  | cons byte more => exact ⟨byte, more, rfl, h⟩

theorem exists_of_peek {fault : Reader β} {next : UInt8 → Reader β} {b : β} (hfault : Refuses fault)
    (h : (peek? >>= fun byte? => match byte? with
      | none => fault
      | some byte => next byte) text = .ok (b, rest)) :
    ∃ byte more, text = byte :: more ∧ next byte (byte :: more) = .ok (b, rest) := by
  cases text with
  | nil => exact absurd h (hfault _ _)
  | cons byte more => exact ⟨byte, more, rfl, h⟩

theorem exists_of_peekWord {fault : Reader β} {next : UInt8 → Reader β} {b : β}
    (hfault : Refuses fault) (h : (peekWord? >>= fun byte? => match byte? with
      | none => fault
      | some byte => next byte) text = .ok (b, rest)) :
    ∃ byte more, pastBlanks text = byte :: more ∧ next byte (byte :: more) = .ok (b, rest) := by
  rw [peekWord?_bind] at h
  cases hpast : pastBlanks text with
  | nil =>
    rw [hpast] at h
    exact absurd h (hfault _ _)
  | cons byte more =>
    rw [hpast] at h
    exact ⟨byte, more, rfl, h⟩

/-! A condition under which a sequence goes on differently. -/

theorem of_guard_ok {c : Prop} [Decidable c] {fault : Reader Unit}
    (hfault : Refuses fault) {next : Unit → Reader β} {b : β}
    (h : (if c then fault >>= fun u => next u else next ()) text = .ok (b, rest)) :
    ¬ c ∧ next () text = .ok (b, rest) := by
  split at h
  · obtain ⟨u, middle, hread, -⟩ := exists_read_of_bind h
    exact absurd hread (hfault _ _)
  · exact ⟨‹_›, h⟩

theorem skip_if (c : Prop) [Decidable c] (next : Unit → Reader β) (text : Bytes) :
    (if c then skip >>= fun u => next u else next ()) text =
      next () (if c then text.tail else text) := by
  split <;> rfl

theorem takeWhile_if (c : Prop) [Decidable c] (fits : UInt8 → Bool) (next : Reader β)
    (text : Bytes) :
    (if c then takeWhile fits >>= fun _ => next else next) text =
      next (if c then text.dropWhile fits else text) := by
  split <;> rfl

/-! ## Repetition -/

/-- What has been read up to the end of a step is part of what `reads` says, whatever is still to
come. -/
def Continues (reads : σ → Bytes → α → Bytes → Prop) (state : σ) (text : Bytes) :
    Turn σ α → Bytes → Prop
  | .done a, rest => reads state text a rest
  | .again next, middle => ∀ {a rest}, reads next middle a rest → reads state text a rest

/-- What one step keeps, a repetition keeps. -/
theorem of_loop_ok {step : σ → Reader (Turn σ α)} (reads : σ → Bytes → α → Bytes → Prop)
    (hstep : ∀ {state text turn middle}, step state text = .ok (turn, middle) →
      Continues reads state text turn middle) :
    ∀ {state text a rest}, loop step state text = .ok (a, rest) → reads state text a rest := by
  intro state text
  -- each repetition has less to read
  induction hlength : text.length using Nat.strongRecOn generalizing state text with
  | ind length ih =>
    intro a rest h
    rw [loop, loopOn] at h
    split at h
    · cases h
    · rename_i result middle hread
      cases h
      exact hstep hread
    · rename_i next middle hread
      split at h
      · rename_i hlt
        exact hstep hread (ih _ (hlength ▸ hlt) rfl h)
      · cases h

/-! ## Words -/

theorem eq_of_word {letters : List Char} {u : Unit} (h : word letters text = .ok (u, rest)) :
    text = letters.map byte ++ rest := by
  induction letters generalizing text with
  | nil =>
    cases h
    rfl
  | cons c letters ih =>
    obtain ⟨b, more, rfl, hmore⟩ := exists_of_next (refuses_failHere _) h
    split at hmore
    · rename_i hbyte
      rw [ih hmore, hbyte]
      rfl
    · simp at hmore

/-! ## Strings -/

/-- Four hexadecimal digits are taken. -/
theorem exists_of_hexFour {n : Nat} (h : hexFour text = .ok (n, rest)) :
    ∃ a b c d, text = a :: b :: c :: d :: rest ∧
      ∀ digit ∈ [a, b, c, d], (hexValue? digit).isSome = true := by
  unfold hexFour at h
  split at h
  · split at h
    · cases h
      refine ⟨_, _, _, _, rfl, ?_⟩
      simp [*]
    · simp at h
  · simp at h

theorem eq_of_pairByte {expected : Char} {u : Unit} (h : pairByte expected text = .ok (u, rest)) :
    text = byte expected :: rest := by
  obtain ⟨b, more, rfl, hmore⟩ := exists_of_next (refuses_failHere _) h
  split at hmore
  · rename_i hbyte
    obtain ⟨-, rfl⟩ := (pure_ok ..).mp hmore
    rw [hbyte]
  · simp at hmore

variable {c : Char} {after : Bytes}

/-- The second half of a surrogate pair is an escape like the first. -/
theorem stringRest_of_secondUnit {unit : Nat} (h : secondUnit unit text = .ok (c, after))
    (hafter : StringRest after rest) : StringRest text rest := by
  obtain ⟨_, _, hbackslash, hletter⟩ := exists_read_of_bind h
  obtain rfl := eq_of_pairByte hbackslash
  obtain ⟨_, _, hletter, hunit⟩ := exists_read_of_bind hletter
  obtain rfl := eq_of_pairByte hletter
  obtain ⟨second, middle, hfour, hpair⟩ := exists_read_of_bind hunit
  obtain ⟨_, _, _, _, rfl, hdigits⟩ := exists_of_hexFour hfour
  refine .unit hdigits ?_
  split at hpair
  · obtain ⟨-, rfl⟩ := (pure_ok ..).mp hpair
    exact hafter
  · simp at hpair

/-- An escape, its backslash before it, is part of a string. -/
theorem stringRest_of_escaped (h : escaped text = .ok (c, after)) (hafter : StringRest after rest) :
    StringRest (byte '\\' :: text) rest := by
  obtain ⟨b, more, rfl, hmore⟩ := exists_of_next (refuses_failHere _) h
  cases hshort : shortEscape? b with
  | some c =>
    simp only [hshort] at hmore
    obtain ⟨-, rfl⟩ := (pure_ok ..).mp hmore
    exact .short (Option.isSome_iff_exists.mpr ⟨c, hshort⟩) hafter
  | none =>
    simp only [hshort] at hmore
    split at hmore
    · rename_i hbyte
      subst hbyte
      obtain ⟨unit, middle, hfour, hunit⟩ := exists_read_of_bind hmore
      obtain ⟨_, _, _, _, rfl, hdigits⟩ := exists_of_hexFour hfour
      refine .unit hdigits ?_
      split at hunit
      · simp at hunit
      · split at hunit
        · exact stringRest_of_secondUnit hunit hafter
        · obtain ⟨-, rfl⟩ := (pure_ok ..).mp hunit
          exact hafter
    · simp at hmore

theorem isPlain_of_not {b : UInt8} (hquote : b ≠ byte '"') (hescape : b ≠ byte '\\')
    (hcontrol : ¬ b < 0x20) : isPlain b = true := by
  simp [isPlain, hquote, hescape, UInt8.not_lt.mp hcontrol]

/-- Bytes above ASCII stand for themselves. -/
theorem isPlain_of_ge {b : UInt8} (h : 0x80 ≤ b.toNat) : isPlain b = true := by
  refine isPlain_of_not ?_ ?_ ?_
  · rintro rfl
    exact absurd h (by decide)
  · rintro rfl
    exact absurd h (by decide)
  · intro hlt
    have hlt' : b.toNat < 0x20 := UInt8.lt_iff_toNat_lt.mp hlt
    omega

theorem continues_of_stringStep {draft : Draft} {turn : Turn Draft String}
    (h : stringStep draft text = .ok (turn, after)) :
    Continues (fun _ text _ rest => StringRest text rest) draft text turn after := by
  obtain ⟨b, more, rfl, hmore⟩ := exists_of_next (refuses_failHere _) h
  split at hmore
  · rename_i hquote
    subst hquote
    cases hbroken : draft.broken with
    | none =>
      simp only [hbroken] at hmore
      obtain ⟨rfl, rfl⟩ := (pure_ok ..).mp hmore
      exact .close
    | some left =>
      simp only [hbroken] at hmore
      cases hmore
  · rename_i hquote
    split at hmore
    · rename_i hescape
      subst hescape
      obtain ⟨c, middle, hescaped, hmore⟩ := exists_read_of_bind hmore
      obtain ⟨rfl, rfl⟩ := (pure_ok ..).mp hmore
      exact stringRest_of_escaped hescaped
    · rename_i hescape
      split at hmore
      · simp at hmore
      · rename_i hcontrol
        obtain ⟨bytes, middle, hget, hmore⟩ := exists_read_of_bind hmore
        cases hget
        obtain ⟨u, middle, hset, hmore⟩ := exists_read_of_bind hmore
        cases hset
        obtain ⟨rfl, rfl⟩ := (pure_ok ..).mp hmore
        intro a rest hrest
        -- what makes up a character with the first byte is above ASCII
        obtain ⟨passed, hpassed, hhigh⟩ := Utf8.exists_append_head b more
        rw [hpassed]
        exact .plain (isPlain_of_not hquote hescape hcontrol)
          (hrest.plain_append fun byte hbyte => isPlain_of_ge (hhigh byte hbyte))

theorem stringRest_of_string {s : String} (h : string text = .ok (s, rest)) : StringRest text rest :=
  of_loop_ok _ continues_of_stringStep h

theorem continues_of_skipStringStep {u : Unit} {turn : Turn Unit Unit}
    (h : skipStringStep u text = .ok (turn, after)) :
    Continues (fun _ text _ rest => StringRest text rest) u text turn after := by
  obtain ⟨b, more, rfl, hmore⟩ := exists_of_peek (refuses_failHere _) h
  obtain ⟨hcontrol, hmore⟩ := of_guard_ok (refuses_failHere _) hmore
  rw [skip_bind, List.tail_cons] at hmore
  split at hmore
  · rename_i hquote
    subst hquote
    obtain ⟨rfl, rfl⟩ := (pure_ok ..).mp hmore
    exact .close
  · rename_i hquote
    split at hmore
    · rename_i hescape
      subst hescape
      obtain ⟨letter, more, rfl, hletter⟩ := exists_of_next (refuses_failHere _) hmore
      split at hletter
      · rename_i hbyte
        subst hbyte
        obtain ⟨unit, middle, hfour, hletter⟩ := exists_read_of_bind hletter
        obtain ⟨rfl, rfl⟩ := (pure_ok ..).mp hletter
        obtain ⟨_, _, _, _, rfl, hdigits⟩ := exists_of_hexFour hfour
        exact .unit hdigits
      · split at hletter
        · rename_i hshort
          obtain ⟨rfl, rfl⟩ := (pure_ok ..).mp hletter
          exact .short hshort
        · simp at hletter
    · rename_i hescape
      obtain ⟨rfl, rfl⟩ := (pure_ok ..).mp hmore
      exact .plain (isPlain_of_not hquote hescape hcontrol)

theorem stringRest_of_skipString {u : Unit} (h : skipString text = .ok (u, rest)) :
    StringRest text rest :=
  of_loop_ok _ continues_of_skipStringStep h

/-! ## Numbers -/

variable {n : Number} {negative : Bool} {significand : Nat} {exponent : Int}

/-- Digits are taken as far as they go. -/
theorem digits_of_head? {text : Bytes} (h : text.head?.any isDigit = true) :
    Digits text (text.tail.dropWhile isDigit) := by
  cases text with
  | nil => cases h
  | cons digit text => exact .intro h

/-- The same digits, taken all at once. -/
theorem digits_of_takeWhile (h : (text.takeWhile isDigit).isEmpty = false) :
    Digits text (text.dropWhile isDigit) := by
  cases text with
  | nil => cases h
  | cons digit text =>
    cases hdigit : isDigit digit with
    | false =>
      rw [List.takeWhile_cons, hdigit] at h
      cases h
    | true =>
      rw [List.dropWhile_cons, hdigit]
      exact .intro hdigit

theorem eq_of_realNumber (h : realNumber negative significand exponent text = .ok (n, rest)) :
    rest = text := by
  cases hscaled : Decimal.scaled significand exponent with
  | none => simp [realNumber, hscaled] at h
  | some x =>
    simp only [realNumber, hscaled] at h
    exact ((pure_ok ..).mp h).2.symm

theorem eq_of_wholeNumber {s : Significand} (h : wholeNumber negative s text = .ok (n, rest)) :
    rest = text := by
  unfold wholeNumber at h
  split_ifs at h
  · exact eq_of_realNumber h
  all_goals exact ((pure_ok ..).mp h).2.symm

/-- The digits of an exponent are taken up to the first one that makes it too large. -/
theorem dropWhile_of_exponentLoop {value : Nat} {written : Option Nat}
    (h : loop exponentStep value text = .ok (written, rest)) :
    if written.isSome then rest = text.dropWhile isDigit
    else rest.dropWhile isDigit = text.dropWhile isDigit := by
  refine of_loop_ok (fun _ text written rest =>
    if written.isSome then rest = text.dropWhile isDigit
    else rest.dropWhile isDigit = text.dropWhile isDigit) ?_ h
  intro value text turn middle h
  simp only [exponentStep, peek?_bind] at h
  cases text with
  | nil =>
    obtain ⟨rfl, rfl⟩ := (pure_ok ..).mp h
    rfl
  | cons b text =>
    dsimp only [List.head?_cons] at h
    split at h
    · rename_i hdigit
      have hdrop : (b :: text).dropWhile isDigit = text.dropWhile isDigit :=
        List.dropWhile_cons_of_pos hdigit
      simp only [skip_bind, List.tail_cons] at h
      obtain ⟨rfl, rfl⟩ := (pure_ok ..).mp h
      split
      · intro written rest hrest
        rw [hdrop]
        exact hrest
      · exact hdrop.symm
    · rename_i hdigit
      obtain ⟨rfl, rfl⟩ := (pure_ok ..).mp h
      exact (List.dropWhile_cons_of_neg hdigit).symm

/-- The exponent after its mark. -/
theorem digits_of_exponentPart
    (h : exponentPart negative significand exponent text = .ok (n, rest)) :
    Digits (pastSign text) rest := by
  simp only [exponentPart, peek?_bind] at h
  rw [skip_if, ← pastSign] at h
  obtain ⟨digit, more, hdigits, h⟩ := exists_of_next (refuses_failHere _) h
  split at h
  · simp at h
  · rename_i hdigit
    obtain ⟨written, middle, hloop, h⟩ := exists_read_of_bind h
    have hmiddle := dropWhile_of_exponentLoop hloop
    have hmore : rest = more.dropWhile isDigit := by
      cases written with
      | some written =>
        rw [eq_of_realNumber h]
        exact hmiddle
      | none =>
        dsimp only at h
        split at h
        · simp at h
        · rw [takeWhile_bind] at h
          obtain ⟨-, rfl⟩ := (pure_ok ..).mp h
          exact hmiddle
    rw [hdigits, hmore]
    exact .intro (Decidable.not_not.mp hdigit)

/-- A mark and the exponent after it, or none. -/
theorem exponent_of_parts {read : Reader Number}
    (hread : ∀ {n rest}, read text = .ok (n, rest) → rest = text)
    (h : (if text.head?.any isExponentMark = true then
      skip >>= fun _ => exponentPart negative significand exponent else read) text = .ok (n, rest)) :
    Exponent text rest := by
  split at h
  · rename_i hmark
    rw [skip_bind] at h
    cases text with
    | nil => cases hmark
    | cons mark text => exact .present hmark (digits_of_exponentPart h)
  · rename_i hmark
    rw [hread h]
    exact .absent (Bool.eq_false_iff.mpr hmark)

theorem fraction_of_fractionPart {significand exponent : Nat}
    (h : fractionPart negative significand exponent text = .ok (n, rest)) :
    ∃ mark, Digits text mark ∧ Exponent mark rest := by
  simp only [fractionPart, takeWhile_bind, peek?_bind] at h
  split at h
  · simp at h
  · rename_i hdigits
    exact ⟨_, digits_of_takeWhile (Bool.eq_false_iff.mpr hdigits),
      exponent_of_parts eq_of_realNumber h⟩

theorem integer_digits {digit : UInt8} (hdigit : isDigit digit = true) (hzero : digit ≠ byte '0')
    (text : Bytes) : Integer (digit :: text) (text.dropWhile isDigit) :=
  .digits (fun hhead => hzero (Option.some.inj hhead)) (.intro hdigit)

/-- What follows the digits before a point; after a zero these have to have ended. -/
theorem magnitude_of_afterInteger {point : Bytes} {s : Significand}
    (hinteger : point.head?.any isDigit = false → Integer text point)
    (h : (peek? >>= fun after =>
      if after.any isDigit then failPast .numberInvalid
      else if after = some (byte '.') then skip >>= fun _ => fractionPart negative s.value s.dropped
      else if after.any isExponentMark then skip >>= fun _ => exponentPart negative s.value s.dropped
      else wholeNumber negative s) point = .ok (n, rest)) :
    Magnitude text rest := by
  rw [peek?_bind] at h
  split at h
  · simp at h
  · rename_i hpoint
    have hinteger := hinteger (Bool.eq_false_iff.mpr hpoint)
    split at h
    · rename_i hdot
      rw [skip_bind] at h
      obtain ⟨mark, hdigits, hexponent⟩ := fraction_of_fractionPart h
      obtain ⟨more, rfl⟩ := List.head?_eq_some_iff.mp hdot
      exact .intro hinteger (.present hdigits) hexponent
    · rename_i hdot
      exact .intro hinteger (.absent hdot) (exponent_of_parts eq_of_wholeNumber h)

theorem magnitude_of_number (h : number negative text = .ok (n, rest)) : Magnitude text rest := by
  obtain ⟨first, more, rfl, hmore⟩ := exists_of_next (refuses_failHere _) h
  split at hmore
  · simp at hmore
  · rename_i hfirst
    split at hmore
    · rename_i hzero
      subst hzero
      exact magnitude_of_afterInteger .zero hmore
    · rename_i hzero
      exact magnitude_of_afterInteger
        (fun _ => integer_digits (Decidable.not_not.mp hfirst) hzero more) hmore

theorem exponent_of_skipExponent {u : Unit} (h : skipExponent text = .ok (u, rest)) :
    Exponent text rest := by
  simp only [skipExponent, peek?_bind] at h
  split at h
  · rename_i hmark
    rw [skip_bind, peek?_bind, skip_if, ← pastSign, next?_bind] at h
    split at h
    · rename_i hdigit
      cases text with
      | nil => cases hmark
      | cons mark text =>
        cases h
        exact .present hmark (digits_of_head? hdigit)
    · simp at h
  · rename_i hmark
    obtain ⟨-, rfl⟩ := (pure_ok ..).mp h
    exact .absent (Bool.eq_false_iff.mpr hmark)

theorem magnitude_of_skipNumber {u : Unit} (h : skipNumber text = .ok (u, rest)) :
    Magnitude text rest := by
  simp only [skipNumber, next?_bind] at h
  obtain ⟨hfirst, h⟩ := of_guard_ok (refuses_failHere _) h
  rw [takeWhile_if, peek?_bind] at h
  obtain ⟨hpoint, h⟩ := of_guard_ok (refuses_failPast _) h
  have hinteger : Integer text
      (if text.head? ≠ some (byte '0') then text.tail.dropWhile isDigit else text.tail) := by
    split
    · rename_i hzero
      exact .digits hzero (digits_of_head? (Decidable.not_not.mp hfirst))
    · rename_i hzero
      rw [if_neg hzero] at hpoint
      obtain ⟨more, rfl⟩ := List.head?_eq_some_iff.mp (Decidable.not_not.mp hzero)
      exact .zero (Bool.eq_false_iff.mpr hpoint)
  generalize (if text.head? ≠ some (byte '0') then text.tail.dropWhile isDigit else text.tail) = point
    at h hinteger
  split at h
  · rename_i hdot
    rw [skip_bind, takeWhile_bind] at h
    obtain ⟨more, rfl⟩ := List.head?_eq_some_iff.mp hdot
    obtain ⟨hdigits, h⟩ := of_guard_ok (refuses_failPast _) h
    exact .intro hinteger (.present (digits_of_takeWhile (Bool.eq_false_iff.mpr hdigits)))
      (exponent_of_skipExponent h)
  · rename_i hdot
    exact .intro hinteger (.absent hdot) (exponent_of_skipExponent h)

end Reader

end Json

end SchemaClient
