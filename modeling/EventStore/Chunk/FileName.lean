import EventStore.Bytes

/-!
# Chunk file names

A chunk file is named after the first chunk number it covers and a version, bumped each time the
chunk is replaced by a new file: `chunk-NNNNNN.VVVVVV`, both numbers written with at least six
digits. Reading a name back takes exactly six characters for each number, which may carry a
leading `+`, so names of numbers below a million read back as they were written.
-/

namespace EventStore

namespace ChunkFileName

/-- The prefix of every chunk file name. -/
def prefixText : String := "chunk-"

/-- The suffix of temporary files. -/
def tempSuffix : String := ".tmp"

/-- `n` in decimal, padded with zeros to at least six digits. -/
def pad6 (n : Nat) : String :=
  let ds := Nat.toDigits 10 n
  String.ofList (List.replicate (6 - ds.length) '0' ++ ds)

/-- The file name of a chunk version. -/
def ofParts (number version : Nat) : String := prefixText ++ pad6 number ++ "." ++ pad6 version

/-- A decimal number below `2 ^ 32`, with an optional leading `+`. -/
def parseU32? (cs : List Char) : Option Nat :=
  let ds := match cs with
    | '+' :: rest => rest
    | _ => cs
  if ds.isEmpty || !ds.all Char.isDigit then none
  else
    let n := ds.foldl (fun acc c => acc * 10 + (c.toNat - 48)) 0
    if n < Nat.pow 2 32 then some n else none

/-- The chunk number and version a file name gives, if it is a chunk file name. -/
def parse? (name : String) : Option (Nat × Nat) :=
  let cs := name.toList
  if cs.take 6 = prefixText.toList then
    let rest := cs.drop 6
    match rest.idxOf? '.' with
    | some i =>
      let number := rest.take i
      let version := rest.drop (i + 1)
      if (String.ofList number).utf8ByteSize = 6 ∧ (String.ofList version).utf8ByteSize = 6 then
        do pure (← parseU32? number, ← parseU32? version)
      else none
    | none => none
  else none

end ChunkFileName

end EventStore
