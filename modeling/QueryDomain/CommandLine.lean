import QueryDomain.Batch
import QueryDomain.Json.Token

/-! The outer layer of the program: how it gets its options and its files. Arguments are read from
left to right, and the first one that is no option, has no value or a bad one, or repeats an option
ends the reading. Files of patterns are taken as JSON documents. A run itself does not depend on any
of this: it is given the accepted options and what is stated in the files. -/
namespace QueryDomain

namespace Text

/-- Digits with an optional plus sign, as far as they fit into a word of 64 bits. -/
def word? (cs : Text) : Option Nat :=
  (natural? (if cs.head? = some '+' then cs.tail else cs)).filter (· < 0x10000000000000000)

/-- The decimal that an unsigned JSON number is. Exponents are cut where nothing but zero or
infinity is left of every number with as many digits. -/
def jsonDecimal (cs : Text) : Decimal :=
  let mantissa := cs.takeWhile fun c => c ≠ 'e' && c ≠ 'E'
  let power := (cs.dropWhile fun c => c ≠ 'e' && c ≠ 'E').tail
  let size := Nat.ofDigitChars 10 (power.filter Char.isDigit) 0
  let fraction := (mantissa.dropWhile (· ≠ '.')).tail
  let exponent : Int := if power.head? = some '-' then -(size : Int) else size
  let digits := Nat.ofDigitChars 10 (mantissa.filter Char.isDigit) 0
  let bound : Int := mantissa.length + 400
  ⟨digits, max (-bound) (min bound exponent) - fraction.length⟩

end Text

namespace Magnitude

def round (x : Magnitude) : Nat := (2 * x.units + unitsPerOne) / (2 * unitsPerOne)

end Magnitude

namespace PatternFile

def largestWord : Nat := 0xFFFFFFFFFFFFFFFF

/-- Whole numbers of 64 bits with a sign are taken as they are, others as the nearest binary
number, rounded into the range of words. -/
def limitOfNumeral? (cs : Text) : Option Nat :=
  let negative := cs.head? = some '-'
  let unsigned := if negative then cs.tail else cs
  let rounded := match Magnitude.ofDecimal? (Text.jsonDecimal unsigned) with
    | some x => min x.round largestWord
    | none => largestWord
  match Text.natural? unsigned with
  | some n =>
    if negative then
      if n = 0 then some 0 else if n ≤ 0x8000000000000000 then none else some 0
    else if n < 0x8000000000000000 then some n else some rounded
  | none => some (if negative then 0 else rounded)

def limitOfText? (cs : Text) : Option Nat :=
  let lower := String.ofList (cs.map Char.toLower)
  if lower ∈ ["true", "on", "yes"] then some 1
  else if lower ∈ ["false", "off", "no"] then some 0
  else Text.word? cs

def limit? : Json → Option Nat
  | .number numeral => limitOfNumeral? numeral
  | .text content => limitOfText? content
  | .boolean truth => some truth.toNat
  | _ => none

def pattern? : Json → Option String
  | .text content => some (String.ofList content)
  | _ => none

def patterns? : Json → Option (List String)
  | .array items => items.mapM pattern?
  | _ => none

def settings? : Json → Option Settings
  | .object members =>
    match Json.get? "max_depth".toList (.object members) with
    | some limit => (limit? limit).map fun n => ⟨some n⟩
    | none => some ⟨none⟩
  | _ => none

def ofJson? : Json → Option PatternFile
  | .object members => do
    let patterns ← match Json.get? "patterns".toList (.object members) with
      | some patterns => (patterns? patterns).map some
      | none => some none
    let settings ← match Json.get? "parser".toList (.object members) with
      | some settings => (settings? settings).map some
      | none => some none
    return ⟨patterns, settings⟩
  | _ => none

def read? (text : String) : Option PatternFile := (Json.read? text.toList).bind ofJson?

end PatternFile

namespace Path

/-- A reversed path without the slashes and the single dots in front. -/
def dropTrail : Text → Text
  | '/' :: cs => dropTrail cs
  | '.' :: '/' :: cs => dropTrail cs
  | cs => cs

def stem (path : String) : Text := (dropTrail path.toList.reverse).reverse

def lastName (stem : Text) : Text := (stem.reverse.takeWhile (· ≠ '/')).reverse

def endings : List Text := ["yaml".toList, "yml".toList, "json".toList]

/-- What follows the last dot of a file name, unless the name starts with this dot. -/
def ending? (path : String) : Option Text :=
  let name := (lastName (stem path)).reverse
  match name.dropWhile (· ≠ '.') with
  | _ :: _ :: _ => some (name.takeWhile (· ≠ '.')).reverse
  | _ => none

def hasKnownEnding (path : String) : Bool := (ending? path).any (· ∈ endings)

/-- The names under which a file that does not exist as given is looked for; the dots that stand
for a directory take no ending. -/
def alternatives (path : String) : List String :=
  let stem := stem path
  if lastName stem ∈ [[], ['.'], ['.', '.']] then []
  else endings.map fun e => String.ofList (stem ++ '.' :: e)

end Path

structure Directory where
  files : List (Text × String)

namespace Directory

/-- A file is reached by its name, in front of which single dots and slashes between them lead
nowhere. -/
def content? (directory : Directory) (path : String) : Option String :=
  match (path.toList.splitOn '/').reverse with
  | name :: way =>
    if way.getLast? ≠ some [] ∧ way.all (· ∈ [[], ['.']]) then directory.files.lookup name else none
  | [] => none

end Directory

namespace CommandLine

inductive Setting
  | format
  | limit
  | patterns
  | threads
  deriving DecidableEq, Repr

inductive Switch
  | verbose
  | version
  | help
  deriving DecidableEq, Repr

inductive Rejection
  | unknownOption (name : String)
  | missingValue (setting : Setting)
  | badValue (setting : Setting) (value : String)
  | needlessValue (switch : Switch)
  | repeated (name : String)
  | badEnvironment (value : String)
  deriving DecidableEq, Repr

/-- The options as they are given so far. -/
structure Given where
  format : Option Report.Format
  limit : Option Nat
  patterns : Option String
  threads : Option Nat
  verbose : Bool
  domains : List String
  deriving DecidableEq, Repr

inductive Invocation
  | answer (text : String)
  | run (given : Given)
  deriving DecidableEq, Repr

def Setting.name : Setting → String
  | format => "--format"
  | limit => "--max-depth"
  | patterns => "--patterns"
  | threads => "--threads"

def Setting.all : List Setting := [.format, .limit, .patterns, .threads]

def Setting.ofLetter? (c : Char) : Option Setting :=
  if c = 'p' then some .patterns else if c = 't' then some .threads else none

def Switch.name : Switch → String
  | verbose => "--verbose"
  | version => "--version"
  | help => "--help"

def Switch.all : List Switch := [.verbose, .version, .help]

def Switch.ofLetter? (c : Char) : Option Switch :=
  if c = 'v' then some .verbose
  else if c = 'V' then some .version
  else if c = 'h' then some .help
  else none

namespace Given

def empty : Given := ⟨none, none, none, none, false, []⟩

def format? (value : String) : Option Report.Format :=
  if value = "text" then some .text
  else if value = "json" ∨ value = "jsonl" then some .json
  else none

def isSet (o : Given) : Setting → Bool
  | .format => o.format.isSome
  | .limit => o.limit.isSome
  | .patterns => o.patterns.isSome
  | .threads => o.threads.isSome

def put? (o : Given) (setting : Setting) (value : String) : Option Given :=
  match setting with
  | .format => (format? value).map fun f => { o with format := some f }
  | .limit => (Text.word? value.toList).map fun n => { o with limit := some n }
  | .patterns => if value = "" then none else some { o with patterns := some value }
  | .threads => (Text.word? value.toList).map fun n => { o with threads := some n }

def set (o : Given) (setting : Setting) (value : String) : Except Rejection Given :=
  if o.isSet setting then .error (.repeated setting.name)
  else match o.put? setting value with
    | some o => .ok o
    | none => .error (.badValue setting value)

def options (o : Given) : Options :=
  ⟨o.domains, o.patterns, o.format.getD .text, o.limit, o.threads, o.verbose⟩

end Given

inductive Progress
  | ready (given : Given)
  | awaiting (given : Given) (setting : Setting)
  | answered (text : String)

def turnOn (o : Given) : Switch → Except Rejection Progress
  | .version => .ok (.answered "searchdomain 0.1.0\n")
  | .help => .ok (.answered "Usage: searchdomain [OPTIONS] [DOMAINS]...\n")
  | .verbose =>
    if o.verbose then .error (.repeated Switch.verbose.name)
    else .ok (.ready { o with verbose := true })

def longOption (o : Given) (cs : Text) : Except Rejection Progress :=
  let name := String.ofList (cs.takeWhile (· ≠ '='))
  let value := match cs.dropWhile (· ≠ '=') with
    | [] => none
    | _ :: value => some (String.ofList value)
  match Setting.all.find? (·.name = name), Switch.all.find? (·.name = name), value with
  | some setting, _, some value => (o.set setting value).map .ready
  | some setting, _, none => .ok (.awaiting o setting)
  | none, some switch, none => turnOn o switch
  | none, some switch, some _ => .error (.needlessValue switch)
  | none, none, _ => .error (.unknownOption name)

/-- Letters behind one dash; what follows the letter of a setting is its value. -/
def letters (o : Given) : Text → Except Rejection Progress
  | [] => .ok (.ready o)
  | c :: cs =>
    match Setting.ofLetter? c, Switch.ofLetter? c with
    | some setting, _ =>
      if cs = [] then .ok (.awaiting o setting)
      else
        (o.set setting (String.ofList (if cs.head? = some '=' then cs.tail else cs))).map .ready
    | none, some switch => do
      match ← turnOn o switch with
      | .ready o => letters o cs
      | other => return other
    | none, none => .error (.unknownOption (String.ofList ['-', c]))

def isOption (arg : String) : Bool := arg.toList.head? = some '-' && arg ≠ "-"

/-- Options and domains mix; behind two dashes there are only domains. -/
def readFrom : Progress → List String → Except Rejection Invocation
  | .answered text, _ => .ok (.answer text)
  | .ready o, [] => .ok (.run o)
  | .awaiting _ setting, [] => .error (.missingValue setting)
  | .awaiting o setting, arg :: args =>
    if isOption arg then .error (.missingValue setting)
    else do readFrom (.ready (← o.set setting arg)) args
  | .ready o, arg :: args =>
    if arg = "--" then .ok (.run { o with domains := o.domains ++ args })
    else if isOption arg then
      match arg.toList with
      | '-' :: '-' :: _ => do readFrom (← longOption o arg.toList) args
      | _ :: cs => do readFrom (← letters o cs) args
      | [] => .error (.unknownOption arg)
    else readFrom (.ready { o with domains := o.domains ++ [arg] }) args

/-- A limit in the environment stands in for a missing option, and must then be a number. -/
def read (environment : Option String) (args : List String) : Except Rejection Invocation := do
  match ← readFrom (.ready Given.empty) args, environment with
  | .run o, some value =>
    if o.limit.isSome then return .run o
    match Text.word? value.toList with
    | some n => return .run { o with limit := some n }
    | none => throw (.badEnvironment value)
  | invocation, _ => return invocation

def load (files : String → Option String) (path : String) : Option PatternFile :=
  match files path with
  | some content =>
    if Path.hasKnownEnding path then PatternFile.read? content else none
  | none => ((Path.alternatives path).findSome? files).bind PatternFile.read?

namespace Rejection

def message : Rejection → String
  | unknownOption name => "unexpected argument '" ++ name ++ "'"
  | missingValue setting => "a value is required for '" ++ setting.name ++ "'"
  | badValue setting value => "invalid value '" ++ value ++ "' for '" ++ setting.name ++ "'"
  | needlessValue switch => "'" ++ switch.name ++ "' takes no value"
  | repeated name => "'" ++ name ++ "' is given more than once"
  | badEnvironment value => "invalid value '" ++ value ++ "' in SEARCHDOMAIN_MAX_DEPTH"

end Rejection

def run (environment : Option String) (files : String → Option String) (args : List String) :
    Outcome :=
  match read environment args with
  | .error rejection => ⟨2, "", some ("error: " ++ rejection.message)⟩
  | .ok (.answer text) => ⟨0, text, none⟩
  | .ok (.run given) => given.options.execute (load files)

end CommandLine
end QueryDomain
