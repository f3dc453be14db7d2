/-
SchemaClient.Declaration — the declarations that a run emits, and their names.

A declaration gives a name to a validator. It is wrapped in a thunk, so that declarations may stand
in any order and refer to each other.
-/
import SchemaClient.Text.Identifier
import SchemaClient.Validator.Source

namespace SchemaClient

/-- A name and the source text of the validator it stands for. -/
structure Declaration where
  name : String
  source : String
  deriving DecidableEq, Repr

/-- The declaration as one line. -/
def Declaration.render (declaration : Declaration) : String :=
  "const " ++ declaration.name ++ " = lazyObject(() => " ++ declaration.source ++ ");"

/-! ## Names that belong to a resource type -/

/-- The validator of the type's own values. -/
def typeName (resourceType : String) : String := identifier (resourceType ++ "_type")

/-- The validator of references to the type's instances. -/
def referencesName (resourceType : String) : String := identifier (resourceType ++ "_references")

/-- The validator of either. -/
def unionName (resourceType : String) : String := identifier (resourceType ++ "_resource")

/-! ## Declarations that all types share -/

namespace Declaration

/-- Raw base64 text, or a data URI with a base64 payload. -/
def base64Content : Declaration where
  name := "base64Content"
  source := r#"z.string().refine((value) => { const match = /^data:[^;,]+;base64,(.*)$/s.exec(value); return z.base64().safeParse(match ? match[1] : value).success; }, { message: "Expected base64 content or a base64 data URI" })"#

/-- A file handle in object storage: a key and, optionally, the storage and the file's name. -/
def storageObject : Declaration where
  name := "s3Object"
  source := (Validator.object
    [⟨"s3", .plainText, true⟩, ⟨"storage", .plainText, false⟩, ⟨"filename", .plainText, false⟩]
    .strip).source

end Declaration

end SchemaClient
