/-
SchemaClient.Config.Basic — the configuration of a run.

Every part of a configuration has a default, so an empty configuration is a complete one. What its
records are called and which fields they have is said once, for every format that they can be
decoded from (`Config.decoder`).
-/
import SchemaClient.DataFormat
import SchemaClient.Path

namespace SchemaClient

/-- A function that every fetched resource passes through before it is validated. -/
structure Hook where
  /-- The module that has the function: a file if the specifier is relative or absolute, else a
  package. -/
  module : String
  exportName : String := "default"
  deriving DecidableEq, Repr

/-- Whether the hook's module is a file. -/
def Hook.isLocal (hook : Hook) : Bool :=
  "./".toList.isPrefixOf hook.module.toList || "../".toList.isPrefixOf hook.module.toList ||
    Path.isAbsolute hook.module

structure ResourceOptions where
  /-- For some resource types the path of the default resource, or none to have no default. -/
  defaults : Table (Option String) := []
  postProcess : Option Hook := none
  deriving DecidableEq, Repr

structure RunnableOptions where
  enabled : Bool := true
  /-- Accept arguments that are not declared. -/
  looseArgs : Bool := false
  deriving DecidableEq, Repr

/-- How failed requests are repeated. Times are in milliseconds. -/
structure RetryPolicy where
  enabled : Bool := true
  retries : Nat := 3
  minTimeout : Nat := 1000
  maxTimeout : Nat := 10000
  factor : Float := 2.0
  deriving DecidableEq, Repr

structure Config where
  resources : ResourceOptions := {}
  scripts : RunnableOptions := {}
  flows : RunnableOptions := {}
  /-- How many details of a listing may be fetched at a time. -/
  concurrency : Nat := 5
  fetchRetry : RetryPolicy := {}
  /-- The file the configuration comes from. -/
  path : Option String := none
  deriving DecidableEq, Repr

section

open DataFormat

variable {D : Type → Type} [DataFormat D]

def Hook.decoder : D Hook :=
  record {
    name := "PostProcessHook"
    start := { module := "" }
    fields := [
      .mustHave "module" text fun module hook => { hook with module := module },
      .mayHave "export" text fun exportName hook => { hook with exportName := exportName }]
    strict := true }

def ResourceOptions.decoder : D ResourceOptions :=
  record {
    name := "ResourceOptions"
    start := {}
    fields := [
      .mayHave "defaults" (table (optional text)) fun defaults o => { o with defaults := defaults },
      .mayHave "postProcess" (optional Hook.decoder) fun hook o => { o with postProcess := hook }]
    strict := true }

def RunnableOptions.decoder : D RunnableOptions :=
  record {
    name := "RunnableOptions"
    start := {}
    fields := [
      .mayHave "enabled" switch fun enabled o => { o with enabled := enabled },
      .mayHave "looseArgs" switch fun looseArgs o => { o with looseArgs := looseArgs }]
    strict := true }

def RetryPolicy.decoder : D RetryPolicy :=
  record {
    name := "FetchRetryConfig"
    start := {}
    fields := [
      .mayHave "enabled" switch fun enabled p => { p with enabled := enabled },
      .mayHave "retries" (size .u32) fun retries p => { p with retries := retries },
      .mayHave "minTimeout" (size .u64) fun minTimeout p => { p with minTimeout := minTimeout },
      .mayHave "maxTimeout" (size .u64) fun maxTimeout p => { p with maxTimeout := maxTimeout },
      .mayHave "factor" real fun factor p => { p with factor := factor }]
    strict := true }

def Config.decoder : D Config :=
  record {
    name := "Config"
    start := {}
    fields := [
      .mayHave "resources" ResourceOptions.decoder fun resources c =>
        { c with resources := resources },
      .mayHave "scripts" RunnableOptions.decoder fun scripts c => { c with scripts := scripts },
      .mayHave "flows" RunnableOptions.decoder fun flows c => { c with flows := flows },
      .mayHave "concurrency" (size .usize) fun concurrency c =>
        { c with concurrency := concurrency },
      .mayHave "fetchRetry" RetryPolicy.decoder fun policy c => { c with fetchRetry := policy }]
    strict := true }

end

end SchemaClient
