/-
SchemaClient.Proofs.Workspace.Line — a workspace is read from the line that it was written on.

* `Workspace.fields` — the four texts of a workspace.
* `Workspace.decoder_append`, `Workspace.run_decoder` — in whatever order the four are written, they
  are read as they are.
* `WorkspaceStore.isSkipped_object` — a line with an object that is not empty is not skipped.
-/
import SchemaClient.Proofs.Json.Objects
import SchemaClient.Workspace.Store

namespace SchemaClient

open Json.Decoder (texts TakesText putAll)

namespace Workspace

/-- The texts of a workspace, by their keys. -/
def fields (w : Workspace) : List (String × String) :=
  [("remote", w.remote), ("workspaceId", w.workspaceId), ("name", w.name), ("token", w.token)]

/-- A workspace with another text for a key. -/
def put (key value : String) (w : Workspace) : Workspace :=
  if key = "remote" then { w with remote := value }
  else if key = "workspaceId" then { w with workspaceId := value }
  else if key = "name" then { w with name := value }
  else { w with token := value }

variable {w : Workspace} {pairs : List (String × String)}

/-- The texts of a workspace make it, in any order. -/
theorem putAll_of_perm (h : pairs.Perm w.fields) (v : Workspace) : putAll put pairs v = w := by
  have hcomm : ∀ x ∈ w.fields, ∀ y ∈ w.fields, ∀ v : Workspace,
      put y.1 y.2 (put x.1 x.2 v) = put x.1 x.2 (put y.1 y.2 v) := by
    intro x hx y hy v
    simp only [fields, List.mem_cons, List.not_mem_nil, or_false] at hx hy
    rcases hx with rfl | rfl | rfl | rfl <;> rcases hy with rfl | rfl | rfl | rfl <;> rfl
  rw [putAll, h.foldl_eq' (fun x hx y hy => hcomm x (h.subset hx) y (h.subset hy)) v]
  rfl

/-- The bytes of a workspace, its texts in any order, are read as the workspace, whatever follows
them. -/
theorem decoder_append (h : pairs.Perm w.fields) (rest : Bytes) :
    (decoder : Json.Decoder Workspace) Json.Decoder.greatestDepth
      (Utf8.encode (Json.text (.obj (texts pairs))) ++ rest) = .ok (w, rest) := by
  have hkeys : (pairs.map Prod.fst).Perm ["remote", "workspaceId", "name", "token"] :=
    h.map Prod.fst
  refine (@Json.Decoder.record_texts Workspace _ put pairs ?fields ?nodup ?all rest).trans ?made
  case fields =>
    intro pair hpair
    have hmem := h.subset hpair
    simp only [fields, List.mem_cons, List.not_mem_nil, or_false] at hmem
    rcases hmem with rfl | rfl | rfl | rfl <;> rfl
  case nodup => exact hkeys.nodup_iff.mpr (by decide)
  case all =>
    intro field hfield _
    rw [hkeys.mem_iff]
    simp only [List.mem_cons, List.not_mem_nil, or_false] at hfield
    rcases hfield with rfl | rfl | rfl | rfl <;> simp [Field.mustHave]
  case made => exact congrArg (fun w => Except.ok (w, rest)) (putAll_of_perm h _)

/-- The bytes of a workspace are read as the workspace. -/
theorem run_decoder (h : pairs.Perm w.fields) :
    Json.Decoder.run decoder (Utf8.encode (Json.text (.obj (texts pairs)))) = .ok w := by
  have hdecoder := decoder_append h []
  rw [List.append_nil] at hdecoder
  rw [Json.Decoder.run, hdecoder]
  rfl

end Workspace

namespace WorkspaceStore

open Json (entriesText)

/-- A text between two characters that are no blanks has none to be dropped. -/
theorem trimmed_of_ends {first last : Char} (hfirst : isBlank first = false)
    (hlast : isBlank last = false) (middle : List Char) :
    trimmed (first :: middle ++ [last]) = first :: middle ++ [last] := by
  simp [trimmed, hfirst, hlast]

theorem entriesText_ends (entries : List (String × Json)) :
    ∃ front, (entriesText entries).toList = front ++ ['}'] := by
  induction entries with
  | nil => exact ⟨[], rfl⟩
  | cons entry rest ih =>
    obtain ⟨front, hfront⟩ := ih
    rw [entriesText, String.toList_append, hfront, ← List.append_assoc]
    exact ⟨_, rfl⟩

/-- An object with entries is longer than what is skipped. -/
theorem isSkipped_object {entries : List (String × Json)} (hne : entries ≠ []) :
    isSkipped (Json.text (.obj entries)).toList = false := by
  obtain ⟨⟨key, value⟩, rest, rfl⟩ := List.exists_cons_of_ne_nil hne
  obtain ⟨front, hfront⟩ := entriesText_ends rest
  have hline : ∃ middle, (Json.text (.obj ((key, value) :: rest))).toList =
      '{' :: ('"' :: middle) ++ ['}'] := by
    refine ⟨Quoted.body key.toList ++ '"' :: ':' :: (value.text.toList ++ front), ?_⟩
    rw [Json.text, String.toList_append, hfront]
    simp [quote]
  obtain ⟨middle, hmiddle⟩ := hline
  rw [isSkipped, hmiddle, trimmed_of_ends (by decide) (by decide), Utf8.encode_eq,
    String.toList_ofList, List.cons_append, List.cons_append, List.flatMap_cons, List.flatMap_cons,
    List.flatMap_append]
  have hends : String.utf8EncodeChar '{' = [0x7b] ∧ String.utf8EncodeChar '"' = [0x22] ∧
      ['}'].flatMap String.utf8EncodeChar = [0x7d] := by decide
  rw [hends.1, hends.2.1, hends.2.2]
  simp

end WorkspaceStore

end SchemaClient
