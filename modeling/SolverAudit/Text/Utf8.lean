/-!
# UTF-8

Reading bytes as text. Bytes that no character can start with, or that leave a character they
started unfinished, are reported with their position, or replaced.
-/

namespace SolverAudit.Utf8

/-- A character of which some bytes have been read. -/
structure Partial where
  bits : Nat
  read : Nat
  /-- How many bytes are still owed. -/
  owed : Nat
  /-- The least and the greatest next byte. -/
  least : Nat := 0x80
  greatest : Nat := 0xBF

inductive Piece where
  | character (c : Char)
  /-- Bytes that begin no character. -/
  | broken (length : Nat)
  /-- The beginning of a character, at the end of the bytes. -/
  | cut (length : Nat)

/-- What the first byte of a character says: the character itself, that more bytes follow, or
nothing. -/
def start (byte : Nat) : Piece ⊕ Partial :=
  if byte < 0x80 then .inl (.character (Char.ofNat byte))
  else if 0xC2 ≤ byte ∧ byte ≤ 0xDF then .inr { bits := byte - 0xC0, read := 1, owed := 1 }
  else if byte = 0xE0 then .inr { bits := 0, read := 1, owed := 2, least := 0xA0 }
  else if byte = 0xED then .inr { bits := 0xD, read := 1, owed := 2, greatest := 0x9F }
  else if 0xE1 ≤ byte ∧ byte ≤ 0xEF then .inr { bits := byte - 0xE0, read := 1, owed := 2 }
  else if byte = 0xF0 then .inr { bits := 0, read := 1, owed := 3, least := 0x90 }
  else if byte = 0xF4 then .inr { bits := 4, read := 1, owed := 3, greatest := 0x8F }
  else if 0xF1 ≤ byte ∧ byte ≤ 0xF3 then .inr { bits := byte - 0xF0, read := 1, owed := 3 }
  else .inl (.broken 1)

/-- The pieces of a byte sequence, when a character may have been begun before it. -/
def scan : Option Partial → List UInt8 → List Piece
  | none, [] => []
  | some begun, [] => [.cut begun.read]
  | none, byte :: rest =>
    match start byte.toNat with
    | .inl piece => piece :: scan none rest
    | .inr begun => scan (some begun) rest
  | some begun, byte :: rest =>
    if begun.least ≤ byte.toNat ∧ byte.toNat ≤ begun.greatest then
      let bits := begun.bits * 0x40 + (byte.toNat - 0x80)
      if begun.owed ≤ 1 then
        .character (Char.ofNat bits) :: scan none rest
      else
        scan (some { bits, read := begun.read + 1, owed := begun.owed - 1 }) rest
    else
      .broken begun.read ::
        match start byte.toNat with
        | .inl piece => piece :: scan none rest
        | .inr begun => scan (some begun) rest

def pieces (bytes : List UInt8) : List Piece := scan none bytes

structure Fault where
  index : Nat
  /-- How many bytes cannot stand there; none if the bytes end within a character. -/
  length? : Option Nat
deriving DecidableEq

def Fault.wording (fault : Fault) : String :=
  let index := fault.index
  match fault.length? with
  | some length => s!"invalid utf-8 sequence of {length} bytes from index {index}"
  | none => s!"incomplete utf-8 byte sequence from index {index}"

def collect (index : Nat) : List Piece → Except Fault (List Char)
  | [] => .ok []
  | .character c :: rest => (collect (index + c.utf8Size) rest).map (c :: ·)
  | .broken length :: _ => .error ⟨index, some length⟩
  | .cut _ :: _ => .error ⟨index, none⟩

def decode (bytes : List UInt8) : Except Fault String :=
  (collect 0 (pieces bytes)).map String.ofList

/-- The text of the bytes, each stretch that is not text replaced by one replacement character. -/
def decodeLossy (bytes : List UInt8) : String :=
  String.ofList <| (pieces bytes).map fun
    | .character c => c
    | _ => '\ufffd'

def encode (text : String) : List UInt8 := text.toUTF8.toList

end SolverAudit.Utf8
