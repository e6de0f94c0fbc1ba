import SolverAudit.Host.Shell.Expansion

/-!
# Redirections

Descriptors are made to lead to files, to where other descriptors lead, or to text in the script.
-/

namespace SolverAudit.Shell

def standardDescriptor? : String → Option Nat
  | "/dev/stdin" => some 0
  | "/dev/stdout" => some 1
  | "/dev/stderr" => some 2
  | _ => none

/-- Why a file cannot be opened. That something is missing has a wording of its own. -/
def openingReason (missing : String) : SystemFault → String
  | .notFound | .notDirectory => missing
  | fault => fault.reason

def supply (descriptor : Nat) (content : List UInt8) (r : Running) : Running :=
  { r with streams := r.streams ++ [content] }.connect descriptor (some (.stream r.streams.length))

def copyDescriptor (descriptor source : Nat) : Action Bool := do
  let r ← get
  match r.channel? source with
  | some channel =>
    set (r.connect descriptor (some channel))
    return true
  | none =>
    set (r.mistaken s!"{source}: Bad file descriptor")
    return false

def openFile (descriptor : Nat) (sign path : String) : Action Bool := do
  let r ← get
  let opened (r : Running) : Action Bool := do
    set r
    return true
  match standardDescriptor? path with
  | some source => copyDescriptor descriptor source
  | none =>
    if path = "/dev/null" then opened (r.connect descriptor (some .nothing))
    else if sign.startsWith "<" then
      match r.storage.find path with
      | .ok (_, .file content) => opened (supply descriptor (Utf8.encode content) r)
      | .ok (_, .directory) => opened (supply descriptor [] r)
      | .error fault =>
        let reason := openingReason "No such file" fault
        set (r.mistaken s!"cannot open {path}: {reason}")
        return false
    else
      let content := if sign = ">>" then Utf8.decodeLossy (r.content path) else ""
      match r.storage.withFile path content with
      | .ok storage => opened ({ r with storage }.connect descriptor (some (.file path)))
      | .error fault =>
        let reason := openingReason "Directory nonexistent" fault
        set (r.mistaken s!"cannot create {path}: {reason}")
        return false

/-- Redirects descriptors until that is not possible, and tells whether it is. -/
def redirect (run : String → Action Unit) : List Redirection → Action Bool
  | [] => return true
  | redirection :: rest => do
    let done ← match redirection with
      | .file descriptor sign target => do openFile descriptor sign (← expandWhole run target)
      | .copy descriptor target => do
        let target ← expandWhole run target
        if target = "-" then
          modify (·.connect descriptor none)
          pure true
        else
          match Numeral.natural? target.toList with
          | some source => copyDescriptor descriptor source
          | none =>
            modify (·.broken "Syntax error: Bad fd number")
            pure false
      | .document descriptor replaces text => do
        match if replaces then Word.ofText true true text else .ok [.text true text.toList] with
        | .ok word =>
          let content ← expandWhole run word
          modify (supply descriptor (Utf8.encode content))
          pure true
        | .error fault =>
          modify (·.broken fault.wording)
          pure false
    if done then redirect run rest else return false

end SolverAudit.Shell
