import QueryDomain.Json.Document
import QueryDomain.Reader
import QueryDomain.Text.Shown

/-! Batches of domain texts. They are collected from a file of patterns and from arguments, all are
read under one limit of nesting, and there is a report on each, in their order, as a line for readers
or a line of JSON. What the arguments are and how a file is written is left open: a run is given the
options that were accepted, and what is stated in the file under a path. -/
namespace QueryDomain

structure Report where
  domain : String
  outcome : Except Fault Domain

namespace Report

inductive Format
  | text
  | json
  deriving DecidableEq, Repr

def of (limit : Nat) (domain : String) : Report := ⟨domain, Domain.read limit domain⟩

def all (limit : Nat) (domains : List String) : List Report := domains.map (of limit)

def isFailure (r : Report) : Bool :=
  match r.outcome with
  | .ok _ => false
  | .error _ => true

def failures (reports : List Report) : Nat := reports.countP isFailure

def sentence (r : Report) : Text :=
  match r.outcome with
  | .ok domain =>
    "Parsed domain '".toList ++ r.domain.toList ++ "' to filter: ".toList ++ domain.literal
  | .error fault =>
    "Error parsing domain '".toList ++ r.domain.toList ++ "': ".toList ++ fault.message.toList

def toJson (r : Report) : Json :=
  match r.outcome with
  | .ok domain =>
    .object [("domain".toList, .text r.domain.toList), ("filter".toList, domain.toJson)]
  | .error fault =>
    .object [("domain".toList, .text r.domain.toList), ("error".toList, .text fault.message.toList)]

def entry : Format → Report → Text
  | .text, r => r.sentence
  | .json, r => r.toJson.write

def write (format : Format) (reports : List Report) : Text :=
  reports.flatMap fun r => entry format r ++ ['\n']

end Report

structure Settings where
  limit : Option Nat

/-- What a file of patterns states. Each of its keys may be missing. -/
structure PatternFile where
  patterns : Option (List String)
  settings : Option Settings

namespace PatternFile

def domains (file : PatternFile) : List String := file.patterns.getD []

/-- The default limit stands in for missing settings and for settings without a limit. -/
def limit (file : PatternFile) : Nat :=
  match file.settings with
  | none => defaultLimit
  | some settings => settings.limit.getD defaultLimit

end PatternFile

structure Batch where
  domains : List String
  limit : Nat

inductive BatchFault
  | unloadable (path : String)
  | noDomains
  deriving DecidableEq, Repr

namespace BatchFault

def message : BatchFault → String
  | unloadable path =>
    "Config: Failed to load patterns from " ++ String.ofList (Text.shown path.toList)
  | noDomains => "CLI: No domains given; pass them as arguments or use --patterns"

end BatchFault

/-- What a run leaves behind. -/
structure Outcome where
  exitCode : UInt32
  output : String
  complaint : Option String
  deriving DecidableEq, Repr

namespace Batch

/-- The domains of the file stand before those of the arguments. A file that cannot be loaded is
reported first. -/
def collect (file : Option (String × Option PatternFile)) (domains : List String)
    (limit : Option Nat) : Except BatchFault Batch := do
  let loaded : Batch ← match file with
    | none => pure ⟨[], defaultLimit⟩
    | some (_, some file) => pure ⟨file.domains, file.limit⟩
    | some (path, none) => throw (.unloadable path)
  if loaded.domains ++ domains = [] then throw .noDomains
  return ⟨loaded.domains ++ domains, limit.getD loaded.limit⟩

/-- The reports are written also when some of the domains fail. -/
def report (batch : Batch) (format : Report.Format) : Outcome :=
  let reports := Report.all batch.limit batch.domains
  let output := String.ofList (Report.write format reports)
  match Report.failures reports with
  | 0 => ⟨0, output, none⟩
  | failures =>
    ⟨1, output, some ("Error: " ++ toString failures ++ " of " ++ toString reports.length ++
      " domains failed to parse")⟩

end Batch

/-- The options of a run, once its arguments are accepted. Threads and verbosity do not change what
is left behind. -/
structure Options where
  domains : List String
  patterns : Option String
  format : Report.Format
  limit : Option Nat
  threads : Option Nat
  verbose : Bool
  deriving DecidableEq, Repr

namespace Options

/-- A run, in which the file of patterns under a path is what `load` finds there. -/
def execute (o : Options) (load : String → Option PatternFile) : Outcome :=
  let file := o.patterns.map fun path => (path, load path)
  match Batch.collect file o.domains o.limit with
  | .error fault => ⟨1, "", some ("Error: " ++ fault.message)⟩
  | .ok batch => batch.report o.format

end Options
end QueryDomain
