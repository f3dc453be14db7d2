/-
SchemaClient.Proofs.Json.Remainder — what follows a value that is decoded.

A decoder is done at the end of the value that it reads, and nobody looks at what is left. So a text
that is decoded begins with a value, after blanks; it is a whole text only if nothing but blanks is
left. One thing more can be wrong with it: the strings that are skipped may have bytes that are no
characters.

* `Json.Decoder.Used` — the decoders that the program decodes texts with.
* `Json.Decoded` — the ways in which a text is decoded.
* `Json.isText_iff_of_decoded` — which of the texts that are decoded are whole texts.
* `Json.Decoder.Used.isText_iff` — the same for whatever text the program decodes.
* `WorkspaceStore.parseLine_append` — what follows a workspace on its line is ignored.
* `WorkspaceStore.parseLine_joined` — two workspaces on one line are read as the first of them.
-/
import Mathlib.Data.List.Basic
import SchemaClient.Catalog.Decoding
import SchemaClient.Proofs.Json.Decoders
import SchemaClient.Proofs.Workspace.Line

namespace SchemaClient

namespace Json

/-! ## The decoders of the program -/

namespace Decoder

theorem Built.of_forall {α : Type} {shape : RecordShape Decoder α}
    (h : shape.fields.Forall fun field => Built field.read) : Built (Decoder.record shape) :=
  .record (List.forall_iff_forall_mem.mp h)

theorem built_workspace : Built (Workspace.decoder : Decoder Workspace) :=
  .of_forall ⟨.map _ .text, .map _ .text, .map _ .text, .map _ .text⟩

theorem built_present : Built present := .optional .value

theorem built_resourceType : Built ResourceType.decoder :=
  .of_forall ⟨.map _ .text, .map _ built_present, .map _ (.optional .text)⟩

theorem built_resourceInstance : Built ResourceInstance.decoder :=
  .of_forall ⟨.map _ .text, .map _ .text⟩

theorem built_artifact : Built Artifact.decoder := .of_forall ⟨.map _ .text, .map _ built_present⟩

theorem built_scriptDetail : Built ScriptDetail.decoder :=
  .of_forall ⟨.map _ .text, .map _ built_present, .map _ .switch⟩

theorem built_flowListing : Built FlowListing.decoder := .of_forall (.map _ .text)

/-- The decoders of a line of the store, and of the answers that a server gives. -/
inductive Used : {α : Type} → Decoder α → Prop where
  | workspace : Used (Workspace.decoder : Decoder Workspace)
  | resourceTypes : Used (list ResourceType.decoder)
  | resources : Used (list ResourceInstance.decoder)
  | paths : Used (list Decoder.text)
  | script : Used ScriptDetail.decoder
  | flows : Used (list FlowListing.decoder)
  | flow : Used Artifact.decoder

theorem Used.built {α : Type} {decoder : Decoder α} (h : Used decoder) : Built decoder := by
  cases h with
  | workspace => exact built_workspace
  | resourceTypes => exact .list built_resourceType
  | resources => exact .list built_resourceInstance
  | paths => exact .list .text
  | script => exact built_scriptDetail
  | flows => exact .list built_flowListing
  | flow => exact built_artifact

end Decoder

/-! ## Whole texts -/

/-- The ways in which a text is decoded: by itself, as the body of an answer, and as a line of the
store of credentials. -/
inductive Decoded : {α : Type} → Decoder α → Bytes → α → Prop where
  | read {α : Type} {decoder : Decoder α} {text : Bytes} {a : α} :
      decoder.read text = .ok a → Decoded decoder text a
  | answer {α : Type} {decoder : Decoder α} {url : String} {body : Bytes} {a : α} :
      decodeAnswer decoder url body = .ok a → Decoded decoder body a
  | line {path : String} {number : Nat} {line : List Char} {workspace : Workspace} :
      WorkspaceStore.parseLine path number line = .ok workspace →
      Decoded Workspace.decoder (Utf8.encode (String.ofList line)) workspace

variable {α : Type} {decoder : Decoder α} {text : Bytes} {a : α}

theorem exists_of_mapError_ok {ε ε' : Type} {f : ε → ε'} {result : Except ε α}
    (h : result.mapError f = .ok a) : result = .ok a := by
  cases result with
  | error fault => cases h
  | ok b =>
    cases h
    rfl

theorem Decoder.exists_of_read (h : decoder.read text = .ok a) :
    ∃ rest, decoder greatestDepth text = .ok (a, rest) :=
  exists_of_run_ok (exists_of_mapError_ok h)

/-- Whichever way a text is decoded, it is read from the front, and something may be left. -/
theorem Decoded.exists_rest (h : Decoded decoder text a) :
    ∃ rest, decoder Decoder.greatestDepth text = .ok (a, rest) := by
  cases h with
  | read h => exact Decoder.exists_of_read h
  | answer h => exact Decoder.exists_of_read (exists_of_mapError_ok h)
  | line h => exact Decoder.exists_of_read (exists_of_mapError_ok h)

theorem Decoded.exists_value (hbuilt : Decoder.Built decoder) (h : Decoded decoder text a) :
    ∃ rest, decoder Decoder.greatestDepth text = .ok (a, rest) ∧
      Derives .value (pastBlanks text) rest := by
  obtain ⟨rest, hread⟩ := h.exists_rest
  exact ⟨rest, hread, hbuilt.takes Decoder.greatestDepth hread⟩

/-- What is decoded of a text is one value, after blanks, and all of the text is that value if and only
if nothing but blanks is left and the text has nothing but characters. -/
theorem isText_iff_of_decoded (hbuilt : Decoder.Built decoder) (h : Decoded decoder text a) :
    ∃ rest, decoder Decoder.greatestDepth text = .ok (a, rest) ∧
      Derives .value (pastBlanks text) rest ∧
      (IsText text ↔ pastBlanks rest = [] ∧ Utf8.isValid text = true) := by
  obtain ⟨rest, hread, hvalue⟩ := h.exists_value hbuilt
  exact ⟨rest, hread, hvalue, isText_iff hvalue⟩

/-- Of whatever the program decodes it takes one value, and what is left of the text goes unseen: the
text is that value if and only if nothing but blanks is left and it has nothing but characters. -/
theorem Decoder.Used.isText_iff (hused : Decoder.Used decoder) (h : Decoded decoder text a) :
    ∃ rest, decoder Decoder.greatestDepth text = .ok (a, rest) ∧
      Derives .value (pastBlanks text) rest ∧
      (IsText text ↔ pastBlanks rest = [] ∧ Utf8.isValid text = true) := by
  obtain ⟨rest, hread, hvalue⟩ := h.exists_value hused.built
  exact ⟨rest, hread, hvalue, Json.isText_iff hvalue⟩

/-- The value of a key that is no field is skipped, though its only byte is no character. -/
example : FlowListing.decoder.run
    ("\x7b\"path\":\"a\",\"x\":\"".toList.map byte ++ 0xFF :: "\"\x7d".toList.map byte) =
      .ok ⟨"a"⟩ := by
  cbv

end Json

namespace WorkspaceStore

open Json (pastBlanks IsText isText_iff isText_iff_of_decoded)

/-- A workspace as a line of the store. -/
def lineOf (w : Workspace) : List Char := (Json.text (.obj (Json.Decoder.texts w.fields))).toList

theorem decoder_lineOf (w : Workspace) (more : List Char) :
    (Workspace.decoder : Json.Decoder Workspace) Json.Decoder.greatestDepth
      (Utf8.encode (String.ofList (lineOf w ++ more))) =
        .ok (w, Utf8.encode (String.ofList more)) := by
  rw [String.ofList_append, Utf8.encode_append, lineOf, String.ofList_toList]
  exact Workspace.decoder_append (List.Perm.refl _) _

/-- What follows a workspace on its line is ignored. -/
theorem parseLine_append (path : String) (number : Nat) (w : Workspace) (more : List Char) :
    parseLine path number (lineOf w ++ more) = .ok w := by
  rw [parseLine, Json.Decoder.read, Json.Decoder.run, decoder_lineOf]
  rfl

/-- The line is a whole text if what is ignored is blank. -/
theorem isText_lineOf_append (w : Workspace) (more : List Char) :
    IsText (Utf8.encode (String.ofList (lineOf w ++ more))) ↔
      pastBlanks (Utf8.encode (String.ofList more)) = [] := by
  rw [isText_iff (Json.Decoder.built_workspace.takes _ (decoder_lineOf w more)), Utf8.isValid_encode]
  exact and_iff_left rfl

theorem pastBlanks_lineOf_ne (w : Workspace) :
    pastBlanks (Utf8.encode (String.ofList (lineOf w))) ≠ [] := by
  intro hblank
  have hread := decoder_lineOf w []
  rw [List.append_nil] at hread
  have hvalue := Json.Decoder.built_workspace.takes _ hread
  rw [hblank] at hvalue
  exact hvalue.of_lead?

/-- Two workspaces on one line are read as the first of them, and the line is no whole text. -/
theorem parseLine_lineOf_lineOf (path : String) (number : Nat) (w v : Workspace) :
    parseLine path number (lineOf w ++ lineOf v) = .ok w ∧
      ¬ IsText (Utf8.encode (String.ofList (lineOf w ++ lineOf v))) :=
  ⟨parseLine_append path number w (lineOf v),
    (isText_lineOf_append w (lineOf v)).not.mpr (pastBlanks_lineOf_ne v)⟩

/-- Two workspaces of one server. -/
def north : Workspace := ⟨"http://a/", "n", "north", "t1"⟩

def south : Workspace := ⟨"http://a/", "s", "south", "t2"⟩

/-- Where the line break between two workspaces is lost, the second one is. -/
theorem parseLine_joined :
    parseLine "remotes.ndjson" 1 (lineOf north ++ lineOf south) = .ok north ∧
      ¬ IsText (Utf8.encode (String.ofList (lineOf north ++ lineOf south))) :=
  parseLine_lineOf_lineOf "remotes.ndjson" 1 north south

/-- With a blank after it, the line of a workspace is read as a whole. -/
theorem isText_iff_of_decoded_padded :
    Json.Decoder.Built (Workspace.decoder : Json.Decoder Workspace) ∧
      parseLine "remotes.ndjson" 1 (lineOf north ++ [' ']) = .ok north ∧
      IsText (Utf8.encode (String.ofList (lineOf north ++ [' ']))) := by
  have hline := parseLine_append "remotes.ndjson" 1 north [' ']
  refine ⟨Json.Decoder.built_workspace, hline, ?_⟩
  obtain ⟨rest, hread, -, hiff⟩ := isText_iff_of_decoded Json.Decoder.built_workspace (.line hline)
  rw [decoder_lineOf] at hread
  obtain rfl := (Prod.mk.inj (Except.ok.inj hread)).2
  have hblank : pastBlanks (Utf8.encode (String.ofList [' '])) = [] := by
    rw [Utf8.encode_eq]
    rfl
  exact hiff.mpr ⟨hblank, Utf8.isValid_encode _⟩

end WorkspaceStore

end SchemaClient
