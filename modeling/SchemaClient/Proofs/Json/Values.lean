/-
SchemaClient.Proofs.Json.Values — what is read of a value is one value.

A reader of lists or objects goes from member to member, and one that skips keeps the brackets that are
still open. What either of them takes off the front of a text is what the rules have for a value, up to
the byte where it ends, and where a value of another type stands there is nothing to be read.

* `Json.Decoder.Takes` — a reader takes one value.
* `Json.Decoder.within_of_items`, `Json.Decoder.within_of_entries` — the rest of a list or object.
* `Json.Decoder.takes_skipValue`, `Json.Decoder.takes_value` — any value.
* `Json.Decoder.refuses_wrongType` — a value of the wrong type is never read.
-/
import SchemaClient.Json.Decoder
import SchemaClient.Proofs.Json.Lexemes

namespace SchemaClient

namespace Json

open Reader

namespace Decoder

variable {σ α β : Type} {b : UInt8} {text middle rest more : Bytes} {a : α} {isObject first : Bool}

/-! ## The next byte -/

theorem exists_of_start {next : UInt8 → Reader β} {x : β}
    (h : (start >>= next) text = .ok (x, rest)) :
    ∃ b more, pastBlanks text = b :: more ∧ next b (b :: more) = .ok (x, rest) := by
  obtain ⟨b, middle, hstart, hnext⟩ := exists_read_of_bind h
  obtain ⟨c, more, hpast, hpure⟩ := exists_of_peekWord (refuses_failPast _) hstart
  obtain ⟨rfl, rfl⟩ := (pure_ok ..).mp hpure
  exact ⟨c, more, hpast, hnext⟩

/-- A decoder that is run may leave something of the text. -/
theorem exists_of_run_ok {decoder : Decoder α} (h : decoder.run text = .ok a) :
    ∃ rest, decoder greatestDepth text = .ok (a, rest) := by
  rw [run] at h
  cases hread : decoder greatestDepth text with
  | error fault =>
    rw [hread] at h
    cases h
  | ok read =>
    rw [hread] at h
    cases h
    exact ⟨read.2, rfl⟩

/-- A reader takes one value, and the blanks before it. -/
def Takes (reader : Reader α) : Prop :=
  ∀ {text a rest}, reader text = .ok (a, rest) → Derives .value (pastBlanks text) rest

theorem derives_word {c : Char} {letters : List Char} (hword : c :: letters ∈ words) {u : Unit}
    (h : word letters more = .ok (u, rest)) : Derives .value (byte c :: more) rest := by
  rw [eq_of_word h]
  exact .word hword

theorem derives_minus {n : Number} (h : number true more = .ok (n, rest)) :
    Derives .value (byte '-' :: more) rest :=
  .numeral (.negative (magnitude_of_number h))

theorem derives_number {n : Number} (h : number false text = .ok (n, rest)) :
    Derives .value text rest :=
  .numeral (.positive (magnitude_of_number h))

/-! ## Values of the wrong type -/

/-- A value of the wrong type is never read. -/
theorem refuses_wrongType (expected : String) : Refuses (wrongType expected : Reader α) := by
  have hmismatch : ∀ found, Refuses
      (failHere (.mismatch (.wrongType found expected)) : Reader α) := fun _ => refuses_failHere _
  unfold wrongType
  refine .bind fun b => ?_
  dsimp only
  split_ifs
  · exact .bind fun _ => .bind fun _ => hmismatch _
  · exact .bind fun _ => .bind fun _ => hmismatch _
  · exact .bind fun _ => .bind fun _ => hmismatch _
  · refine .bind fun _ => .bind fun n => ?_
    cases n <;> exact hmismatch _
  · refine .bind fun n => ?_
    cases n <;> exact hmismatch _
  · exact .bind fun _ => .bind fun _ => hmismatch _
  · exact hmismatch _
  · exact hmismatch _
  · exact refuses_failPast _

/-! ## From member to member -/

theorem Derives.member_of_pastBlanks (h : Derives (.member isObject) (pastBlanks text) rest) :
    Derives (.member isObject) text rest := by
  cases h with
  | item h =>
    rw [pastBlanks_pastBlanks] at h
    exact .item h
  | entry hkey hstring hcolon h =>
    rw [pastBlanks_pastBlanks] at hkey
    exact .entry hkey hstring hcolon h

/-- Up to `middle` there is what stands before another member; `first` if it is the first one. -/
def Follows (isObject first : Bool) (text middle : Bytes) : Prop :=
  ∀ {next rest}, Derives (.member isObject) middle next → Derives (.within isObject false) next rest →
    Derives (.within isObject first) text rest

theorem follows_first : Follows isObject true text (pastBlanks text) := fun hmember hrest =>
  .first (Derives.member_of_pastBlanks hmember) hrest

theorem follows_comma (h : pastBlanks text = byte ',' :: more) :
    Follows isObject false text (pastBlanks more) := fun hmember hrest =>
  .next h (Derives.member_of_pastBlanks hmember) hrest

/-- What a list or an object goes on with: a member, or its closing bracket. -/
def GoesOn (isObject first : Bool) (text : Bytes) : Bool → Bytes → Prop
  | true, middle => Follows isObject first text middle
  | false, middle => pastBlanks text = middle ∧ ∃ more, middle = closing isObject :: more

theorem goesOn_of_itemFollows {follows : Bool} (h : itemFollows first text = .ok (follows, middle)) :
    GoesOn false first text follows middle := by
  obtain ⟨b, more, hpast, h⟩ := exists_of_peekWord (refuses_failPast _) h
  split at h
  · rename_i hclosing
    obtain ⟨rfl, rfl⟩ := (pure_ok ..).mp h
    exact ⟨hpast, more, congrArg (· :: more) hclosing⟩
  · split at h
    · rename_i hfirst
      obtain ⟨rfl, rfl⟩ := (pure_ok ..).mp h
      rw [hfirst, ← hpast]
      exact follows_first
    · rename_i hfirst
      rw [Bool.eq_false_iff.mpr hfirst]
      split at h
      · rename_i hcomma
        subst hcomma
        rw [skip_bind, List.tail_cons] at h
        obtain ⟨c, after, hmore, h⟩ := exists_of_peekWord (refuses_failPast _) h
        split at h
        · simp at h
        · obtain ⟨rfl, rfl⟩ := (pure_ok ..).mp h
          rw [← hmore]
          exact follows_comma hpast
      · simp at h

theorem goesOn_of_keyFollows {follows : Bool} (h : keyFollows first text = .ok (follows, middle)) :
    GoesOn true first text follows middle ∧
      (follows = true → ∃ key, middle = byte '"' :: key) := by
  obtain ⟨b, more, hpast, h⟩ := exists_of_peekWord (refuses_failPast _) h
  split at h
  · rename_i hclosing
    obtain ⟨rfl, rfl⟩ := (pure_ok ..).mp h
    exact ⟨⟨hpast, more, congrArg (· :: more) hclosing⟩, nofun⟩
  · split at h
    · rename_i hfirst
      split at h
      · rename_i hquote
        obtain ⟨rfl, rfl⟩ := (pure_ok ..).mp h
        rw [hfirst]
        exact ⟨hpast ▸ follows_first, fun _ => ⟨more, congrArg (· :: more) hquote⟩⟩
      · simp at h
    · rename_i hfirst
      rw [Bool.eq_false_iff.mpr hfirst]
      split at h
      · rename_i hcomma
        subst hcomma
        rw [skip_bind, List.tail_cons] at h
        obtain ⟨c, after, hmore, h⟩ := exists_of_peekWord (refuses_failPast _) h
        split at h
        · rename_i hquote
          obtain ⟨rfl, rfl⟩ := (pure_ok ..).mp h
          exact ⟨hmore ▸ follows_comma hpast, fun _ => ⟨after, congrArg (· :: after) hquote⟩⟩
        · split at h <;> simp at h
      · simp at h

/-- The closing bracket ends a list or an object. -/
theorem within_of_closing (h : GoesOn isObject first text false middle) :
    Derives (.within isObject first) text middle.tail := by
  obtain ⟨hpast, more, hclosing⟩ := h
  rw [hclosing] at hpast ⊢
  exact .close hpast

/-! ## Lists -/

/-- The items of a list are read up to its closing bracket. -/
theorem within_of_items {item : Reader α} (hitem : Takes item) {read : List α}
    (h : items item text = .ok (read, rest)) : Derives (.within false true) text rest := by
  refine of_loop_ok (fun (state : Nat × List α) text _ rest =>
    Derives (.within false (state.1 == 0)) text rest) ?_ h
  intro (index, reversed) text turn middle h
  obtain ⟨follows, after, hfollows, h⟩ := exists_read_of_bind h
  have hgoesOn := goesOn_of_itemFollows hfollows
  cases follows with
  | true =>
    obtain ⟨value, next, hvalue, h⟩ := exists_read_of_bind h
    obtain ⟨rfl, rfl⟩ := (pure_ok ..).mp h
    intro _ rest hrest
    exact hgoesOn (.item (hitem (of_under_ok hvalue))) hrest
  | false =>
    obtain ⟨rfl, rfl⟩ := (pure_ok ..).mp h
    exact within_of_closing hgoesOn

/-! ## Objects -/

/-- A reader of an entry after its key takes the colon and one value. -/
def TakesEntry (entry : String → σ → Reader σ) : Prop :=
  ∀ {key state text a rest}, entry key state text = .ok (a, rest) →
    ∃ after, pastBlanks text = byte ':' :: after ∧ Derives .value (pastBlanks after) rest

/-- The entries of an object are read up to its closing brace. -/
theorem within_of_entries {entry : String → σ → Reader σ} (hentry : TakesEntry entry) {state read : σ}
    (h : entries entry state text = .ok (read, rest)) : Derives (.within true true) text rest := by
  refine of_loop_ok (fun (state : Bool × σ) text _ rest =>
    Derives (.within true state.1) text rest) ?_ h
  intro (first, state) text turn middle h
  obtain ⟨follows, after, hfollows, h⟩ := exists_read_of_bind h
  obtain ⟨hgoesOn, hquote⟩ := goesOn_of_keyFollows (of_under_ok hfollows)
  cases follows with
  | true =>
    obtain ⟨key, rfl⟩ := hquote rfl
    rw [if_pos rfl, skip_bind, List.tail_cons] at h
    obtain ⟨name, colon, hstring, h⟩ := exists_read_of_bind h
    obtain ⟨next, after, hnext, h⟩ := exists_read_of_bind h
    obtain ⟨rfl, rfl⟩ := (pure_ok ..).mp h
    obtain ⟨value, hcolon, hvalue⟩ := hentry hnext
    intro _ rest hrest
    exact hgoesOn (.entry (pastBlanks_cons (by decide) key)
      (stringRest_of_string (of_under_ok hstring)) hcolon hvalue) hrest
  | false =>
    obtain ⟨rfl, rfl⟩ := (pure_ok ..).mp h
    exact within_of_closing hgoesOn

theorem exists_of_colon {u : Unit} (h : colon text = .ok (u, rest)) :
    pastBlanks text = byte ':' :: rest := by
  obtain ⟨b, more, hpast, h⟩ := exists_of_peekWord (refuses_failPast _) h
  split at h
  · rename_i hcolon
    cases h
    rw [hpast, hcolon]
    rfl
  · simp at h

theorem exists_of_valueOf {key : String} {value : Reader α} (hvalue : Takes value)
    (h : valueOf key value text = .ok (a, rest)) :
    ∃ after, pastBlanks text = byte ':' :: after ∧ Derives .value (pastBlanks after) rest := by
  obtain ⟨u, after, hcolon, h⟩ := exists_read_of_bind h
  exact ⟨after, exists_of_colon hcolon, hvalue (of_under_ok h)⟩

/-- To put values into a table is to take them. -/
theorem takesEntry_put {value : Reader α} (hvalue : Takes value) :
    TakesEntry (fun key read => do pure (Table.put read key (← valueOf key value))) := by
  intro key state text a rest h
  obtain ⟨v, middle, hread, h⟩ := exists_read_of_bind h
  obtain ⟨-, rfl⟩ := (pure_ok ..).mp h
  exact exists_of_valueOf hvalue hread

/-! ## Any value -/

theorem takes_valueWith {list object : Reader Json}
    (hlist : ∀ {more v rest}, list (opening false :: more) = .ok (v, rest) →
      Derives (.within false true) more rest)
    (hobject : ∀ {more v rest}, object (opening true :: more) = .ok (v, rest) →
      Derives (.within true true) more rest) :
    Takes (valueWith list object) := by
  intro text v rest h
  obtain ⟨b, more, hpast, h⟩ := exists_of_start h
  rw [hpast]
  have hword : ∀ {c : Char} {letters : List Char} {v' : Json}, c :: letters ∈ words → b = byte c →
      (skip >>= fun _ => word letters >>= fun _ => pure v') (b :: more) = .ok (v, rest) →
      Derives .value (b :: more) rest := by
    intro c letters v' hmem hb h
    rw [skip_bind] at h
    obtain ⟨u, middle, hword, h⟩ := exists_read_of_bind h
    obtain ⟨-, rfl⟩ := (pure_ok ..).mp h
    exact hb ▸ derives_word hmem hword
  split_ifs at h with hn ht hf hminus hdigit hquote hbracket hbrace
  · exact hword (by decide) hn h
  · exact hword (by decide) ht h
  · exact hword (by decide) hf h
  · rw [skip_bind, List.tail_cons] at h
    obtain ⟨n, hnumber, -⟩ := exists_read_of_map h
    exact hminus ▸ derives_minus hnumber
  · obtain ⟨n, hnumber, -⟩ := exists_read_of_map h
    exact derives_number hnumber
  · rw [skip_bind, List.tail_cons] at h
    obtain ⟨s, hstring, -⟩ := exists_read_of_map h
    exact hquote ▸ .string (stringRest_of_string hstring)
  · subst hbracket
    exact .bracketed false (hlist h)
  · subst hbrace
    exact .bracketed true (hobject h)
  · simp at h

theorem takes_value (depth : Nat) : Takes (value depth) := by
  induction depth with
  | zero =>
    refine takes_valueWith ?_ ?_ <;>
    · intro more v rest h
      simp at h
  | succ depth ih =>
    refine takes_valueWith ?_ ?_
    · intro more v rest h
      rw [skip_bind, List.tail_cons] at h
      obtain ⟨items, hitems, -⟩ := exists_read_of_map h
      exact within_of_items ih hitems
    · intro more v rest h
      rw [skip_bind, List.tail_cons] at h
      obtain ⟨entries, hentries, -⟩ := exists_read_of_map h
      exact within_of_entries (takesEntry_put ih) hentries

/-! ## Skipping -/

/-- The brackets that are open, the innermost first. -/
def brackets : Option Open → List Bool
  | none => []
  | some o => o.isObject :: o.outer

/-- The rest of the lists and objects that are open and have had a member. -/
inductive Closes : List Bool → Bytes → Bytes → Prop where
  | nil {text : Bytes} : Closes [] text text
  | cons {isObject : Bool} {outer : List Bool} {text next rest : Bytes} :
      Derives (.within isObject false) text next → Closes outer next rest →
      Closes (isObject :: outer) text rest

/-- A value to be skipped, and the rest of what it stands in. -/
def Skips (opened : Option Open) (text rest : Bytes) : Prop :=
  ∃ next, Derives .value (pastBlanks text) next ∧ Closes (brackets opened) next rest

/-- What is still to come when brackets have been closed up to another value, or all of them. -/
def SkipsNext : Option Open → Bytes → Bytes → Prop
  | none, text, rest => text = rest
  | some o, text, rest => Skips (some o) text rest

variable {outer : List Bool} {opened : Option Open}

/-- Before a value of an object its key is passed over, before an item nothing. -/
theorem member_of_entryKey (h : skipToNext.entryKey isObject outer text = .ok (opened, middle)) :
    opened = some ⟨isObject, outer⟩ ∧ ∀ {next}, Derives .value (pastBlanks middle) next →
      Derives (.member isObject) text next := by
  unfold skipToNext.entryKey at h
  cases isObject with
  | false =>
    obtain ⟨rfl, rfl⟩ := (pure_ok ..).mp h
    exact ⟨rfl, .item⟩
  | true =>
    rw [if_pos rfl] at h
    obtain ⟨b, more, hpast, h⟩ := exists_of_peekWord ((refuses_failPast _).then _) h
    split at h
    · rename_i hquote
      rw [skip_bind, List.tail_cons] at h
      obtain ⟨u, colon, hkey, h⟩ := exists_read_of_bind h
      obtain ⟨c, after, hcolon, h⟩ := exists_of_peekWord ((refuses_failPast _).then _) h
      split at h
      · rename_i hbyte
        obtain ⟨rfl, rfl⟩ := (pure_ok ..).mp h
        exact ⟨rfl, .entry (hquote ▸ hpast) (stringRest_of_skipString hkey) (hbyte ▸ hcolon)⟩
      · exact absurd h ((refuses_failPast _).then _ _ _)
    · exact absurd h ((refuses_failPast _).then _ _ _)

/-- Where another member follows, its value is the next one to be skipped. -/
theorem within_of_entryKey {before : Bytes} (hfollows : Follows isObject first text before)
    (h : skipToNext.entryKey isObject outer before = .ok (opened, middle))
    (hrest : SkipsNext opened middle rest) :
    ∃ next, Derives (.within isObject first) text next ∧ Closes outer next rest := by
  obtain ⟨rfl, hkey⟩ := member_of_entryKey h
  obtain ⟨value, hvalue, hcloses⟩ := hrest
  cases hcloses with
  | cons hwithin hcloses => exact ⟨_, hfollows (hkey hvalue) hwithin, hcloses⟩

/-- Either another member follows, or the closing bracket, and then what is around it goes on. -/
theorem of_skipToNext (h : skipToNext first isObject outer text = .ok (opened, middle)) :
    (∃ before, Follows isObject first text before ∧
      skipToNext.entryKey isObject outer before = .ok (opened, middle)) ∨
    ∃ after, pastBlanks text = closing isObject :: after ∧
      (outer = [] ∧ opened = none ∧ after = middle ∨
        ∃ isObject outer', outer = isObject :: outer' ∧
          skipToNext false isObject outer' after = .ok (opened, middle)) := by
  unfold skipToNext at h
  rw [show byte (if isObject then '}' else ']') = closing isObject from rfl] at h
  obtain ⟨b, more, hpast, h⟩ := exists_of_peekWord (refuses_failPast _) h
  split at h
  · rename_i hcomma
    obtain ⟨rfl, hfirst⟩ := hcomma
    rw [Bool.eq_false_iff.mpr hfirst]
    exact Or.inl ⟨more, .next hpast, h⟩
  · split at h
    · rename_i hclosing
      refine Or.inr ⟨more, hpast.trans (congrArg (· :: more) hclosing), ?_⟩
      rw [skip_bind, List.tail_cons] at h
      cases outer with
      | nil =>
        obtain ⟨rfl, rfl⟩ := (pure_ok ..).mp h
        exact Or.inl ⟨rfl, rfl, rfl⟩
      | cons isObject outer => exact Or.inr ⟨isObject, outer, rfl, h⟩
    · split at h
      · rename_i hfirst
        rw [hfirst]
        exact Or.inl ⟨b :: more, hpast ▸ follows_first, h⟩
      · simp at h

/-- A list or an object is skipped up to its next value, or to its end and that of all around it. -/
theorem exists_of_skipToNext (h : skipToNext first isObject outer text = .ok (opened, middle))
    (hrest : SkipsNext opened middle rest) :
    ∃ next, Derives (.within isObject first) text next ∧ Closes outer next rest := by
  induction outer generalizing isObject first text with
  | nil =>
    rcases of_skipToNext h with ⟨before, hfollows, hkey⟩ | ⟨after, hclosing, hend⟩
    · exact within_of_entryKey hfollows hkey hrest
    · rcases hend with ⟨-, rfl, rfl⟩ | ⟨_, _, houter, -⟩
      · exact ⟨after, .close hclosing, hrest ▸ .nil⟩
      · cases houter
  | cons isObject outer ih =>
    rcases of_skipToNext h with ⟨before, hfollows, hkey⟩ | ⟨after, hclosing, hend⟩
    · exact within_of_entryKey hfollows hkey hrest
    · rcases hend with ⟨houter, -, -⟩ | ⟨_, _, houter, hnext⟩
      · cases houter
      · cases houter
        obtain ⟨next, hwithin, hcloses⟩ := ih hnext
        exact ⟨after, .close hclosing, .cons hwithin hcloses⟩

/-- Where the next value is one step away, the brackets are those that were opened before. -/
theorem continues_of_skipToNext {turn : Turn (Option Open) Unit} {before : Bytes}
    (h : (skipToNext first isObject outer >>= fun next? => match next? with
      | none => pure (.done ())
      | some o => pure (.again (some o))) text = .ok (turn, middle))
    (hopened : ∀ {next rest}, Derives (.within isObject first) text next → Closes outer next rest →
      Skips opened before rest) :
    Continues (fun opened text _ rest => Skips opened text rest) opened before turn middle := by
  obtain ⟨next?, after, hnext, h⟩ := exists_read_of_bind h
  cases next? with
  | none =>
    obtain ⟨rfl, rfl⟩ := (pure_ok ..).mp h
    obtain ⟨next, hwithin, hcloses⟩ := exists_of_skipToNext hnext rfl
    exact hopened hwithin hcloses
  | some o =>
    obtain ⟨rfl, rfl⟩ := (pure_ok ..).mp h
    intro _ rest hrest
    obtain ⟨next, hwithin, hcloses⟩ := exists_of_skipToNext hnext hrest
    exact hopened hwithin hcloses

/-- After a value what is around it goes on. -/
theorem continues_of_after {turn : Turn (Option Open) Unit} {after : Bytes}
    (hvalue : Derives .value (pastBlanks text) after)
    (h : (match opened with
      | none => pure (.done ())
      | some o => skipToNext false o.isObject o.outer >>= fun next? => match next? with
        | none => pure (.done ())
        | some o => pure (.again (some o)) : Reader (Turn (Option Open) Unit)) after =
          .ok (turn, middle)) :
    Continues (fun opened text _ rest => Skips opened text rest) opened text turn middle := by
  cases opened with
  | none =>
    obtain ⟨rfl, rfl⟩ := (pure_ok ..).mp h
    exact ⟨_, hvalue, .nil⟩
  | some o =>
    exact continues_of_skipToNext h fun hwithin hcloses => ⟨after, hvalue, .cons hwithin hcloses⟩

theorem continues_of_skipStep {turn : Turn (Option Open) Unit}
    (h : skipStep opened text = .ok (turn, middle)) :
    Continues (fun opened text _ rest => Skips opened text rest) opened text turn middle := by
  unfold skipStep at h
  obtain ⟨b, more, hpast, h⟩ := exists_of_start h
  split_ifs at h with hn ht hf hminus hdigit hquote hbracket hbrace
  · rw [skip_bind, List.tail_cons] at h
    obtain ⟨u, after, hword, h⟩ := exists_read_of_bind h
    exact continues_of_after (hpast ▸ hn ▸ derives_word (by decide) hword) h
  · rw [skip_bind, List.tail_cons] at h
    obtain ⟨u, after, hword, h⟩ := exists_read_of_bind h
    exact continues_of_after (hpast ▸ ht ▸ derives_word (by decide) hword) h
  · rw [skip_bind, List.tail_cons] at h
    obtain ⟨u, after, hword, h⟩ := exists_read_of_bind h
    exact continues_of_after (hpast ▸ hf ▸ derives_word (by decide) hword) h
  · rw [skip_bind, List.tail_cons] at h
    obtain ⟨u, after, hnumber, h⟩ := exists_read_of_bind h
    have hvalue := Derives.numeral (.negative (magnitude_of_skipNumber hnumber))
    exact continues_of_after (hpast ▸ hminus ▸ hvalue) h
  · obtain ⟨u, after, hnumber, h⟩ := exists_read_of_bind h
    exact continues_of_after (hpast ▸ .numeral (.positive (magnitude_of_skipNumber hnumber))) h
  · rw [skip_bind, List.tail_cons] at h
    obtain ⟨u, after, hstring, h⟩ := exists_read_of_bind h
    exact continues_of_after (hpast ▸ hquote ▸ .string (stringRest_of_skipString hstring)) h
  · dsimp only at h
    rw [skip_bind, List.tail_cons] at h
    refine continues_of_skipToNext h fun hwithin hcloses => ?_
    have hvalue := Derives.bracketed false hwithin
    cases opened <;> exact ⟨_, hpast ▸ hbracket ▸ hvalue, hcloses⟩
  · dsimp only at h
    rw [skip_bind, List.tail_cons] at h
    refine continues_of_skipToNext h fun hwithin hcloses => ?_
    have hvalue := Derives.bracketed true hwithin
    cases opened <;> exact ⟨_, hpast ▸ hbrace ▸ hvalue, hcloses⟩
  · simp at h

theorem takes_skipValue : Takes skipValue := by
  intro text u rest h
  obtain ⟨next, hvalue, hcloses⟩ := of_loop_ok (fun opened text _ rest => Skips opened text rest)
    continues_of_skipStep h
  cases hcloses
  exact hvalue

end Decoder

end Json

end SchemaClient
