import SolverAudit.Storage.Basic
import SolverAudit.Tree.Generator
import SolverAudit.Tree.Walk

/-!
# Payload files

The payloads of an instance are stored as files of one directory, one file of each kind. The
instances of a tree are stored in numbered directories.
-/

namespace SolverAudit.Storage

variable {ι : Type} [Payloads ι]

/-- Stores one payload. The file is there before its content is known. -/
def storePayload (x : ι) (directory kind : String) : Attempt Storage String := do
  let path := Path.join directory s!"instance.{kind}"
  let shownKind := quoted kind
  let shownPath := quoted path
  Attempt.during s!"while writing payload {shownKind} into {shownPath}" do
    attempt (·.withFile path "")
    let text ← Attempt.lift (payload x kind)
    attempt (·.withFile path text)
  return path

def storePayloads (x : ι) (kinds : List String) (directory : String) :
    Attempt Storage (List String) := do
  let shown := quoted directory
  Attempt.during s!"while creating directory {shown}" (createDirectory directory)
  kinds.mapM (storePayload x directory)

def storeAllPayloads (x : ι) (directory : String) : Attempt Storage (List String) :=
  storePayloads x (Payloads.kinds ι) directory

def createOutput (directory : String) : Attempt Storage Unit :=
  let shown := quoted directory
  Attempt.during s!"while creating output directory {shown}" (createDirectory directory)

/-- The name of the directory of the instance with a number, which has six digits or more. -/
def instanceName (number : Nat) : String :=
  let digits := Nat.toDigits 10 number
  "instance_" ++ String.ofList (List.replicate (6 - digits.length) '0' ++ digits)

def storeNext (directory : String) (x : ι) : Attempt (Storage × Nat) Unit := do
  let number ← Attempt.onSecond (.change fun count => (count + 1, count + 1))
  discard (Attempt.onFirst (storeAllPayloads x (Path.join directory (instanceName number))))

def storeTree {σ : Type} (g : Generator σ ι) (depth : Nat) (source : σ) (directory : String) :
    Attempt Storage Unit := do
  createOutput directory
  ExceptT.mk fun s =>
    let (result, _, s, _) := (g.walk (storeNext directory) depth).run (Context.fresh source, s, 0)
    (result, s)

end SolverAudit.Storage
