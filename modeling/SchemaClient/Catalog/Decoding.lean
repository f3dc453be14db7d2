/-
SchemaClient.Catalog.Decoding — the items of a workspace as a server sends them.

Each item is a JSON record. A server may send more fields than are listed here; they are skipped.
-/
import SchemaClient.Catalog.Basic
import SchemaClient.Json.Decoder

namespace SchemaClient

open DataFormat

/-- A JSON value of any form, or null for none. -/
def Json.Decoder.present : Json.Decoder (Option Json) := optional Json.Decoder.value

def ResourceType.decoder : Json.Decoder ResourceType :=
  record {
    name := "ResourceType"
    start := { name := "" }
    fields := [
      .mustHave "name" text fun name t => { t with name := name },
      .mayHave "schema" Json.Decoder.present fun schema t => { t with schema := schema },
      .mayHave "description" (optional text) fun description t =>
        { t with description := description }] }

def ResourceInstance.decoder : Json.Decoder ResourceInstance :=
  record {
    name := "ResourceInstance"
    start := ⟨"", ""⟩
    fields := [
      .mustHave "path" text fun path r => { r with path := path },
      .mustHave "resource_type" text fun resourceType r => { r with resourceType := resourceType }] }

def Artifact.decoder : Json.Decoder Artifact :=
  record {
    name := "Artifact"
    start := { path := "" }
    fields := [
      .mustHave "path" text fun path a => { a with path := path },
      .mayHave "schema" Json.Decoder.present fun schema a => { a with schema := schema }] }

/-- A script in full: it may have been archived. -/
structure ScriptDetail where
  artifact : Artifact
  archived : Bool := false
  deriving DecidableEq, Repr

def ScriptDetail.decoder : Json.Decoder ScriptDetail :=
  record {
    name := "ScriptDetail"
    start := { artifact := { path := "" } }
    fields := [
      .mustHave "path" text fun path s => { s with artifact.path := path },
      .mayHave "schema" Json.Decoder.present fun schema s => { s with artifact.schema := schema },
      .mayHave "archived" switch fun archived s => { s with archived := archived }] }

/-- A flow as its listing shows it. -/
structure FlowListing where
  path : String
  deriving DecidableEq, Repr

def FlowListing.decoder : Json.Decoder FlowListing :=
  record {
    name := "FlowListing"
    start := ⟨""⟩
    fields := [.mustHave "path" text fun path _ => ⟨path⟩] }

/-- Decode the body of an answer, naming the URL it came from if it has the wrong form. -/
def decodeAnswer {α : Type} (decoder : Json.Decoder α) (url : String) (body : Bytes) :
    Except Error α :=
  (decoder.read body).mapError (Error.decode url)

end SchemaClient
