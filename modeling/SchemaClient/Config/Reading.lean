/-
SchemaClient.Config.Reading — the configuration that a file holds.

A file of blanks is an empty configuration. The module of a hook is resolved against the directory
of the file if it is a file itself, and at least one detail is fetched at a time.
-/
import SchemaClient.Config.Basic
import SchemaClient.Error
import SchemaClient.Text.Parts
import SchemaClient.Yaml.Decoder

namespace SchemaClient

/-- A hook of a configuration file, with its module resolved against the file's directory. -/
def Hook.resolved (hook : Hook) (file : String) : Hook :=
  match Path.parent? file with
  | some directory =>
    if hook.isLocal then { hook with module := Path.join directory hook.module } else hook
  | none => hook

namespace Config

/-- What remains to be done once a configuration is decoded. -/
def settled (config : Config) (file : String) : Config :=
  { config with
    path := some file
    resources.postProcess := config.resources.postProcess.map (·.resolved file)
    concurrency := max 1 config.concurrency }

/-- The configuration that the text of a file is. -/
def ofYaml (text file : String) : Except Error Config :=
  if text.toList.all isBlank then .ok { path := some file }
  else
    match Yaml.Decoder.read Config.decoder text with
    | .ok config => .ok (config.settled file)
    | .error fault => .error (.config file fault)

end Config

end SchemaClient
