import SolverAudit.CommandLine.Command
import SolverAudit.Host.Shell.Execution

/-!
# The program

The command line as a program. A run starts from a storage with what is usually there, and what it
stores besides is written to the file system in the end. The command line takes the installed
programs as a parameter; only here are they those of a host, so that a solver can be looked up.
-/

open SolverAudit

def writeEntry (place : Place) : Entry → IO Unit
  | .directory => IO.FS.createDirAll ("/" ++ String.intercalate "/" place)
  | .file content => IO.FS.writeFile ("/" ++ String.intercalate "/" place) content

def main (arguments : List String) : IO UInt32 := do
  let directory ← IO.currentDir
  let seed ← IO.rand 0 0xFFFFFFFFFFFFFFFF
  let environment : CommandLine.Environment := { programs := Host.installation, seed }
  let before := Storage.usual (Path.components directory.toString)
  let (conclusion, after) := CommandLine.run environment arguments before
  for (place, entry) in after.entries.bindings do
    if before.entry? place ≠ some entry then writeEntry place entry
  match conclusion with
  | .printed text => IO.print text
  | .misused => IO.eprintln "usage: solver-audit COMMAND [SETTING VALUE]..."
  | _ => pure ()
  for complaint in conclusion.complaints do
    IO.eprintln complaint
  return UInt32.ofNat conclusion.status
