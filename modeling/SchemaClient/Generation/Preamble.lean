/-
SchemaClient.Generation.Preamble — the head of the generated file.

A comment, the imports, and the thunk wrapper that every declaration uses. If a hook is configured,
it is imported as well: a package by its name, a file by its path as seen from the directory of the
output, with the extension it has once compiled.
-/
import SchemaClient.Config.Basic
import SchemaClient.Section.Resources

namespace SchemaClient

namespace Preamble

/-- The wrapper around declarations: the thunk runs when the first property is asked for. -/
def lazyObject : String :=
  "const lazyObject = <T,>(fn: () => T) => {
  let instance: T | null = null;
  return new Proxy({}, {
    get(_target, prop) {
      if (instance == null) {
        instance = fn();
      }

      return (instance as any)[prop];
    }
  }) as T;
};
"

/-- The number of components that two paths share from the front. -/
def common : List Path.Component → List Path.Component → Nat
  | a :: as, b :: bs => if a = b then common as bs + 1 else 0
  | _, _ => 0

/-- The components of a path, without the one that stays in place. -/
def moving (path : String) : List Path.Component :=
  (Path.components path).filter (· != .current)

/-- The path to `target` as seen from the directory `start`: up out of what they do not share, then
down. -/
def relativePath (start target : String) : String :=
  let start := moving start
  let target := moving target
  let shared := common start target
  Path.ofComponents
    (List.replicate (start.length - shared) .up ++ target.drop shared)

/-- The compiled form of a file name: of the source extensions the first that fits is replaced. -/
def compiledName (name : List Char) : List Char :=
  let replace? (extension compiled : String) : Option (List Char) :=
    if extension.toList.isSuffixOf name then
      some (name.take (name.length - extension.toList.length) ++ compiled.toList)
    else none
  ((replace? ".mts" ".mjs").orElse fun _ =>
    (replace? ".cts" ".cjs").orElse fun _ => replace? ".ts" ".js").getD name

/-- The import specifier of a file for files in a directory. -/
def localSpecifier (directory file : String) : String :=
  let relative := relativePath directory file
  let joined := String.intercalate "/" ((Path.components relative).map Path.Component.text)
  let specifier := compiledName joined.toList
  if "../".toList.isPrefixOf specifier then String.ofList specifier
  else "./" ++ String.ofList specifier

/-- The import of a hook. -/
def hookImport (hook : Hook) (outputRoot : String) : String :=
  let specifier := quote
    (if hook.isLocal then localSpecifier outputRoot hook.module else hook.module)
  if hook.exportName = "default" then "import " ++ Section.hookName ++ " from " ++ specifier ++ ";"
  else "import \x7b " ++ hook.exportName ++ " as " ++ Section.hookName ++ " \x7d from " ++
    specifier ++ ";"

/-- The head of the file. -/
def text (config : Config) (outputRoot : String) : String :=
  let hook := match config.resources.postProcess with
    | some hook => [hookImport hook outputRoot]
    | none => []
  String.intercalate "\n"
    (["// Generated by windmill-ts. Do not edit by hand.", "import { z } from 'zod';",
      "import * as wmill from 'windmill-client';"] ++ hook ++ ["", lazyObject])

end Preamble

end SchemaClient
