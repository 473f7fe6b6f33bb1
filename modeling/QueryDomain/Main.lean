import QueryDomain.CommandLine

/-! The program: it hands the environment, the files and the arguments to the command line, and
writes out what comes back. -/
namespace QueryDomain
namespace CommandLine

def contentOf (path : String) : IO (Option String) := do
  try
    return some (← IO.FS.readFile path)
  catch _ =>
    return none

def filesOf (environment : Option String) (args : List String) :
    IO (List (String × Option String)) := do
  match read environment args with
  | .ok (.run o) =>
    let paths := o.patterns.toList.flatMap fun path => path :: Path.alternatives path
    paths.mapM fun path => do return (path, ← contentOf path)
  | _ => return []

end CommandLine
end QueryDomain

open QueryDomain

def main (args : List String) : IO UInt32 := do
  let environment ← IO.getEnv "SEARCHDOMAIN_MAX_DEPTH"
  let files ← CommandLine.filesOf environment args
  let outcome := CommandLine.run environment (fun path => (files.lookup path).join) args
  IO.print outcome.output
  if let some complaint := outcome.complaint then
    IO.eprintln complaint
  return outcome.exitCode
