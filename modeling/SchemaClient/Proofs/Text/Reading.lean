/-
SchemaClient.Proofs.Text.Reading — reading source text for its strings and brackets.

A reader goes through a text from left to right. Outside strings it keeps the brackets that are open,
the innermost first; a double quote opens a string, in which a backslash takes the next character
with it and nothing but another double quote ends it. The reader stops where a bracket closes that is
not the innermost open one.

* `Balance`, `Balance.step`, `Balance.read` — what a reader keeps in mind.
* `Leads before text after` — a text that takes the open brackets `before` to `after`, outside of
  strings at both ends, and has no control character in it.
* `Leads.append`, `Leads.within` — texts one after the other, and inside of further brackets.
* `Whole` — a text that closes every bracket and every string that it opens.
* `whole_quote` — so does a quoted text, whatever is quoted.
-/
import SchemaClient.Text.Quoted

namespace SchemaClient

/-- Where a reader is: outside of strings, inside of one, or after a backslash inside of one; with the
brackets that are open, the innermost first. -/
inductive Balance where
  | code (opened : List Char)
  | string (opened : List Char)
  | escape (opened : List Char)
  deriving DecidableEq, Repr

namespace Balance

/-- The bracket that a closing bracket closes. -/
def opening? : Char → Option Char
  | ')' => some '('
  | ']' => some '['
  | '}' => some '{'
  | _ => none

def isOpening (c : Char) : Bool := c == '(' || c == '[' || c == '{'

/-- Read one character. -/
def step : Balance → Char → Option Balance
  | code opened, c =>
    if c = '"' then some (string opened)
    else if isOpening c then some (code (c :: opened))
    else match opening? c with
      | none => some (code opened)
      | some bracket =>
        match opened with
        | [] => none
        | innermost :: rest => if innermost = bracket then some (code rest) else none
  | string opened, c =>
    if c = '"' then some (code opened)
    else if c = '\\' then some (escape opened)
    else some (string opened)
  | escape opened, _ => some (string opened)

/-- Read a text. -/
def read (balance : Balance) : List Char → Option Balance
  | [] => some balance
  | c :: rest => (balance.step c).bind (·.read rest)

theorem read_cons {balance next : Balance} {c : Char} (h : balance.step c = some next)
    (rest : List Char) : balance.read (c :: rest) = next.read rest := by
  rw [read, h, Option.bind_some]

theorem read_append (balance : Balance) (first second : List Char) :
    balance.read (first ++ second) = (balance.read first).bind (·.read second) := by
  induction first generalizing balance with
  | nil => rfl
  | cons c rest ih =>
    simp only [List.cons_append, read]
    cases balance.step c with
    | none => rfl
    | some next => exact ih next

/-- The reader with further brackets open around. -/
def within (outer : List Char) : Balance → Balance
  | code opened => code (opened ++ outer)
  | string opened => string (opened ++ outer)
  | escape opened => escape (opened ++ outer)

theorem step_within {balance next : Balance} {c : Char} (outer : List Char)
    (h : balance.step c = some next) : (balance.within outer).step c = some (next.within outer) := by
  cases balance with
  | code opened =>
    simp only [within, step] at h ⊢
    split
    · rename_i hquote
      rw [if_pos hquote] at h
      cases h
      rfl
    · rename_i hquote
      rw [if_neg hquote] at h
      split
      · rename_i hopening
        rw [if_pos hopening] at h
        cases h
        rfl
      · rename_i hopening
        rw [if_neg hopening] at h
        cases hbracket : opening? c with
        | none =>
          rw [hbracket] at h
          cases h
          rfl
        | some bracket =>
          rw [hbracket] at h
          cases opened with
          | nil => cases h
          | cons innermost rest =>
            simp only [List.cons_append] at h ⊢
            split at h
            · rename_i heq
              cases h
              rw [if_pos heq]
            · cases h
  | string opened =>
    simp only [within, step] at h ⊢
    split at h
    · rename_i hquote
      cases h
      rw [if_pos hquote]
    · rename_i hquote
      rw [if_neg hquote]
      split at h
      · rename_i hslash
        cases h
        rw [if_pos hslash]
      · rename_i hslash
        cases h
        rw [if_neg hslash]
  | escape opened =>
    cases h
    rfl

/-- What is read the same way with further brackets open around. -/
theorem read_within {balance last : Balance} {text : List Char} (outer : List Char)
    (h : balance.read text = some last) : (balance.within outer).read text = some (last.within outer) := by
  induction text generalizing balance with
  | nil =>
    cases h
    rfl
  | cons c rest ih =>
    obtain ⟨next, hstep, hrest⟩ := Option.bind_eq_some_iff.mp h
    rw [read_cons (step_within outer hstep)]
    exact ih hrest

end Balance

/-! ## Texts that lead from one place to another -/

/-- The text takes the open brackets `before` to `after`, outside of strings at both ends, and has no
control character in it. -/
structure Leads (before : List Char) (text : String) (after : List Char) : Prop where
  read : (Balance.code before).read text.toList = some (.code after)
  printable : ∀ c ∈ text.toList, ' ' ≤ c

/-- The text closes every bracket and every string that it opens, and has no control character. -/
def Whole (text : String) : Prop := Leads [] text []

instance (before : List Char) (text : String) (after : List Char) :
    Decidable (Leads before text after) :=
  decidable_of_iff ((Balance.code before).read text.toList = some (.code after) ∧
      text.toList.all (fun c => decide (' ' ≤ c)) = true)
    ⟨fun ⟨hread, hall⟩ => ⟨hread, fun c hc => of_decide_eq_true (List.all_eq_true.mp hall c hc)⟩,
      fun h => ⟨h.read, List.all_eq_true.mpr fun c hc => decide_eq_true (h.printable c hc)⟩⟩

instance (text : String) : Decidable (Whole text) := inferInstanceAs (Decidable (Leads [] text []))

namespace Leads

variable {a b c : List Char} {s t : String}

theorem append (hs : Leads a s b) (ht : Leads b t c) : Leads a (s ++ t) c where
  read := by
    rw [String.toList_append, Balance.read_append, hs.read]
    exact ht.read
  printable := by
    intro d hd
    rw [String.toList_append, List.mem_append] at hd
    exact hd.elim (hs.printable d) (ht.printable d)

theorem empty (a : List Char) : Leads a "" a where
  read := rfl
  printable := by simp

/-- Inside of further brackets a text does the same. -/
theorem within (h : Leads a s b) (outer : List Char) : Leads (a ++ outer) s (b ++ outer) where
  read := Balance.read_within outer h.read
  printable := h.printable

end Leads

theorem Whole.leads {text : String} (h : Whole text) (opened : List Char) :
    Leads opened text opened := Leads.within h opened

/-- A whole text may follow wherever a text leads to. -/
theorem Leads.insert {a b : List Char} {s t : String} (hs : Leads a s b) (ht : Whole t) :
    Leads a (s ++ t) b := hs.append (ht.leads b)

theorem Whole.append {s t : String} (hs : Whole s) (ht : Whole t) : Whole (s ++ t) :=
  Leads.append hs ht

/-! ## Texts without quotes and brackets -/

/-- The characters that mean something to a reader outside of strings. -/
def Balance.marks : List Char := ['"', '(', ')', '[', ']', '{', '}']

/-- A character that a reader passes over. -/
def isInert (c : Char) : Bool := decide (' ' ≤ c) && !Balance.marks.contains c

theorem Balance.step_of_isInert {c : Char} (h : isInert c = true) (opened : List Char) :
    (code opened).step c = some (code opened) := by
  simp only [isInert, marks, Bool.and_eq_true, Bool.not_eq_true', List.contains_eq_mem,
    decide_eq_false_iff_not, List.mem_cons, List.not_mem_nil, or_false, not_or] at h
  obtain ⟨-, hquote, hround, hround', hsquare, hsquare', hcurly, hcurly'⟩ := h
  have hclosing : opening? c = none := by
    unfold opening?
    split <;> first | rfl | contradiction
  simp [step, isOpening, hclosing, hquote, hround, hsquare, hcurly]

theorem isInert_of_isAlphanum {c : Char} (h : c.isAlphanum = true) : isInert c = true := by
  -- the letters and digits by their code points: upper case, lower case, digits
  have hcases : (decide (c.val ≥ 'A'.val ∧ c.val ≤ 'Z'.val) ||
      (decide (c.val ≥ 'a'.val) && decide (c.val ≤ 'z'.val)) ||
      (decide (c.val ≥ '0'.val) && decide (c.val ≤ '9'.val))) = true := h
  have hspace : ' ' ≤ c := by
    simp only [Bool.or_eq_true, Bool.and_eq_true, decide_eq_true_eq, ge_iff_le,
      UInt32.le_iff_toNat_le] at hcases
    have hdigit : '0'.val.toNat = 48 := rfl
    have hupper : 'A'.val.toNat = 65 := rfl
    have hlower : 'a'.val.toNat = 97 := rfl
    have hblank : ' '.val.toNat = 32 := rfl
    rw [Char.le_def, UInt32.le_iff_toNat_le]
    omega
  have hmark : c ∉ Balance.marks := by
    intro hmem
    simp only [Balance.marks, List.mem_cons, List.not_mem_nil, or_false] at hmem
    rcases hmem with rfl | rfl | rfl | rfl | rfl | rfl | rfl <;> exact absurd h (by decide)
  simp [isInert, hspace, hmark]

theorem whole_of_isInert {text : List Char} (h : ∀ c ∈ text, isInert c = true) :
    Whole (String.ofList text) where
  read := by
    rw [String.toList_ofList]
    induction text with
    | nil => rfl
    | cons c rest ih =>
      rw [Balance.read_cons (Balance.step_of_isInert (h c List.mem_cons_self) [])]
      exact ih fun d hd => h d (List.mem_cons_of_mem _ hd)
  printable := by
    intro c hc
    rw [String.toList_ofList] at hc
    have hinert := h c hc
    simp only [isInert, Bool.and_eq_true, decide_eq_true_eq] at hinert
    exact hinert.1

/-! ## Quoted texts -/

namespace Quoted

/-- What one character is written as: after a backslash at most one character is special, and a
character without a backslash is not. -/
inductive Written : List Char → Prop where
  | itself {c : Char} : c ≠ '"' → c ≠ '\\' → ' ' ≤ c → Written [c]
  | escaped {c : Char} {rest : List Char} : ' ' ≤ c →
      (∀ d ∈ rest, d ≠ '"' ∧ d ≠ '\\' ∧ ' ' ≤ d) → Written ('\\' :: c :: rest)

theorem digitChar_harmless : ∀ n < 16,
    Nat.digitChar n ≠ '"' ∧ Nat.digitChar n ≠ '\\' ∧ ' ' ≤ Nat.digitChar n := by decide

theorem hexDigit_harmless (n : Nat) : hexDigit n ≠ '"' ∧ hexDigit n ≠ '\\' ∧ ' ' ≤ hexDigit n :=
  digitChar_harmless (n % 16) (Nat.mod_lt _ (by decide))

theorem shortLetter_printable {c letter : Char} (h : shortLetter? c = some letter) :
    ' ' ≤ letter := by
  unfold shortLetter? at h
  split at h <;> cases h <;> decide

theorem written_escape (c : Char) : Written (escape c) := by
  unfold escape
  split
  · rename_i hspecial
    refine .escaped ?_ (by simp)
    rcases hspecial with rfl | rfl <;> decide
  · rename_i hspecial
    rw [not_or] at hspecial
    split
    · rename_i letter hletter
      exact .escaped (shortLetter_printable hletter) (by simp)
    · split
      · refine .escaped (by decide) fun d hd => ?_
        simp only [List.mem_cons, List.not_mem_nil, or_false] at hd
        rcases hd with rfl | rfl | rfl | rfl
        · decide
        · decide
        · exact hexDigit_harmless _
        · exact hexDigit_harmless _
      · rename_i hcontrol
        refine .itself hspecial.1 hspecial.2 ?_
        have hspace : ' '.toNat = 32 := rfl
        rw [Char.le_def, UInt32.le_iff_toNat_le]
        change ' '.toNat ≤ c.toNat
        omega

/-- Characters that are not special stay inside of the string. -/
theorem read_harmless {text : List Char} (h : ∀ d ∈ text, d ≠ '"' ∧ d ≠ '\\' ∧ ' ' ≤ d)
    (opened rest : List Char) :
    (Balance.string opened).read (text ++ rest) = (Balance.string opened).read rest := by
  induction text with
  | nil => rfl
  | cons c text ih =>
    obtain ⟨hquote, hslash, -⟩ := h c List.mem_cons_self
    have hstep : (Balance.string opened).step c = some (.string opened) := by
      simp [Balance.step, hquote, hslash]
    rw [List.cons_append, Balance.read_cons hstep]
    exact ih fun d hd => h d (List.mem_cons_of_mem _ hd)

/-- Between the quotes no character ends the string. -/
theorem read_escape (c : Char) (opened rest : List Char) :
    (Balance.string opened).read (escape c ++ rest) = (Balance.string opened).read rest := by
  have hwritten := written_escape c
  generalize escape c = written at hwritten
  cases hwritten with
  | @itself c hquote hslash hspace =>
    have hself : ∀ d ∈ [c], d ≠ '"' ∧ d ≠ '\\' ∧ ' ' ≤ d := by
      simpa using ⟨hquote, hslash, hspace⟩
    exact read_harmless hself opened rest
  | @escaped c text _ hrest =>
    have hslash : (Balance.string opened).step '\\' = some (.escape opened) := by
      simp [Balance.step]
    have hnext : (Balance.escape opened).step c = some (.string opened) := rfl
    rw [List.cons_append, List.cons_append, Balance.read_cons hslash, Balance.read_cons hnext]
    exact read_harmless hrest opened rest

theorem printable_escape {c d : Char} (hd : d ∈ escape c) : ' ' ≤ d := by
  have hwritten := written_escape c
  generalize escape c = written at hwritten hd
  cases hwritten with
  | itself _ _ hspace => rwa [List.mem_singleton.mp hd]
  | escaped hspace hrest =>
    simp only [List.mem_cons] at hd
    rcases hd with rfl | rfl | hd
    · decide
    · exact hspace
    · exact (hrest d hd).2.2

end Quoted

/-- A quoted text ends where its closing quote is, whatever is quoted. -/
theorem whole_quote (text : String) : Whole (quote text) where
  read := by
    have hbody : ∀ chars : List Char, (Balance.string []).read (Quoted.body chars ++ ['"']) =
        some (.code []) := by
      intro chars
      induction chars with
      | nil => rfl
      | cons c rest ih =>
        have hcons : Quoted.body (c :: rest) = Quoted.escape c ++ Quoted.body rest := rfl
        rw [hcons, List.append_assoc, Quoted.read_escape]
        exact ih
    rw [quote, String.toList_ofList]
    exact hbody text.toList
  printable := by
    intro c hc
    rw [quote, String.toList_ofList] at hc
    simp only [List.cons_append, List.mem_cons, List.mem_append, List.not_mem_nil, or_false] at hc
    rcases hc with rfl | hc | rfl
    · decide
    · obtain ⟨d, -, hc⟩ := List.mem_flatMap.mp hc
      exact Quoted.printable_escape hc
    · decide

example : Leads [] "z.union([" ['[', '('] := by decide

end SchemaClient
