/-!
# Disk

An in-memory disk of directories and files. A file is a numbered byte string; a directory maps
names to file numbers. An open file is held by its number, so it stays usable after its name is
removed or given to another file, as an open file handle does.

Reads at a position are exact (`readExact`, failing at the end of the file) or short at the end
(`readUpTo`). Writing past the end extends the file with zeros, and so does growing it with
`setSize`. A file keeps only the runs of bytes written, as a sparse file does, so a large gap of
zeros takes no room.
-/

namespace EventStore

/-- Why a file operation failed. -/
inductive IoError where
  | notFound
  | alreadyExists
  | unexpectedEof
  /-- The name holds a NUL character, which no file name can hold. -/
  | invalidName
  /-- The file would grow past the largest length a file can have. -/
  | tooLarge
  deriving DecidableEq, Repr, Inhabited

/-- The operating system's text for a file operation failure. -/
def IoError.message : IoError → String
  | .notFound => "No such file or directory (os error 2)"
  | .alreadyExists => "File exists (os error 17)"
  | .unexpectedEof => "unexpected end of file"
  | .invalidName => "file name contained an unexpected NUL byte"
  | .tooLarge => "File too large (os error 27)"

/-- A file's contents as a sparse file keeps them: the runs of bytes written, each at its offset,
and the length. Every byte outside the runs is zero, so growing a file, or writing far past its
end, costs nothing for the gap. -/
structure FileData where
  /-- Written runs, ordered by offset and not overlapping. -/
  runs : List (Nat × ByteArray) := []
  /-- The length; every run ends within it. -/
  size : Nat := 0
  deriving Inhabited

namespace FileData

/-- A byte string of `n` zeros. -/
def zeros (n : Nat) : ByteArray := ⟨Array.replicate n 0⟩

/-- The offset just past a run. -/
def runEnd (r : Nat × ByteArray) : Nat := r.1 + r.2.size

/-- `len` bytes from `off`, zeros where nothing was written. -/
def slice (f : FileData) (off len : Nat) : ByteArray :=
  f.runs.foldl (fun acc (o, bs) =>
      let lo := max o off
      let hi := min (o + bs.size) (off + len)
      if lo < hi then bs.copySlice (lo - o) acc (lo - off) (hi - lo) else acc)
    (zeros len)

/-- Places a run among runs ordered by offset. -/
def insertRun (r : Nat × ByteArray) : List (Nat × ByteArray) → List (Nat × ByteArray)
  | [] => [r]
  | s :: rest => if r.1 < s.1 then r :: s :: rest else s :: insertRun r rest

/-- The runs with the bytes of `[lo, hi)` taken out. -/
def cut (lo hi : Nat) (runs : List (Nat × ByteArray)) : List (Nat × ByteArray) :=
  runs.flatMap fun (o, bs) =>
    let e := o + bs.size
    if e ≤ lo || hi ≤ o then [(o, bs)]
    else
      (if o < lo then [(o, bs.extract 0 (lo - o))] else []) ++
        (if hi < e then [(hi, bs.extract (hi - o) bs.size)] else [])

/-- One run holding `bs` at `off` over the runs it overlaps or touches. -/
def mergeRuns (touching : List (Nat × ByteArray)) (off : Nat) (bs : ByteArray) : Nat × ByteArray :=
  let start := touching.foldl (fun m r => min m r.1) off
  let stop := touching.foldl (fun m r => max m (runEnd r)) (off + bs.size)
  let base := touching.foldl (fun acc (o, b) => b.copySlice 0 acc (o - start) b.size)
    (zeros (stop - start))
  (start, bs.copySlice 0 base (off - start) bs.size)

/-- Writes `bs` at `off`. The runs the write overlaps or touches become one with it, and the file
grows to hold it; writing nothing changes nothing. -/
def write (f : FileData) (off : Nat) (bs : ByteArray) : FileData :=
  if bs.size = 0 then f
  else
    let (touching, others) := f.runs.partition fun r => r.1 ≤ off + bs.size && off ≤ runEnd r
    let run := match touching with
      | [(o, b)] => if o ≤ off then (o, bs.copySlice 0 b (off - o) bs.size false)
        else mergeRuns touching off bs
      | _ => mergeRuns touching off bs
    { runs := insertRun run others, size := max f.size (off + bs.size) }

/-- Writes `len` zeros at `off`. -/
def writeZeros (f : FileData) (off len : Nat) : FileData :=
  if len = 0 then f else { runs := cut off (off + len) f.runs, size := max f.size (off + len) }

/-- Cuts the file to `len` bytes or grows it with zeros. -/
def setSize (f : FileData) (len : Nat) : FileData :=
  { runs := (f.runs.filter (·.1 < len)).map fun (o, b) =>
      if o + b.size ≤ len then (o, b) else (o, b.extract 0 (len - o)),
    size := len }

end FileData

/-- Directories and files. -/
structure Disk where
  /-- File contents by file number. -/
  files : Array FileData := #[]
  /-- Directory entries: directory, name and file number. -/
  names : List (String × String × Nat) := []
  deriving Inhabited

namespace Disk

/-- The file a name refers to. -/
def find? (d : Disk) (dir name : String) : Option Nat :=
  (d.names.find? fun (dr, n, _) => dr == dir && n == name).map (·.2.2)

/-- The names in a directory with their files, in creation order. -/
def list (d : Disk) (dir : String) : List (String × Nat) :=
  d.names.filterMap fun (dr, n, f) => if dr == dir then some (n, f) else none

/-- The contents of a file. -/
def file (d : Disk) (f : Nat) : FileData := d.files.getD f {}

/-- The length of a file. -/
def size (d : Disk) (file : Nat) : Nat := (d.file file).size

/-- Every byte of a file. -/
def contents (d : Disk) (file : Nat) : ByteArray :=
  let f := d.file file
  f.slice 0 f.size

/-- Adds an empty file under a name that must be new. -/
def create (d : Disk) (dir name : String) : Except IoError (Disk × Nat) :=
  if (d.find? dir name).isSome then .error .alreadyExists
  else
    let f := d.files.size
    .ok ({ files := d.files.push {}, names := d.names ++ [(dir, name, f)] }, f)

/-- The file under a name, created empty when there is none. -/
def openOrCreate (d : Disk) (dir name : String) : Disk × Nat :=
  match d.find? dir name with
  | some f => (d, f)
  | none =>
    let f := d.files.size
    ({ files := d.files.push {}, names := d.names ++ [(dir, name, f)] }, f)

/-- The file under a name, which must exist. -/
def openFile (d : Disk) (dir name : String) : Except IoError Nat :=
  match d.find? dir name with
  | some f => .ok f
  | none => .error .notFound

/-- The file under a name, created empty when there is none; a name with a NUL character names
no file and is refused. -/
def openForWrite (d : Disk) (dir name : String) : Except IoError (Disk × Nat) :=
  if name.contains (Char.ofNat 0) then .error .invalidName else .ok (d.openOrCreate dir name)

/-- Exactly `len` bytes at `off`, or a failure if the file ends before them. -/
def readExact (d : Disk) (file off len : Nat) : Except IoError ByteArray :=
  let f := d.file file
  if off + len ≤ f.size then .ok (f.slice off len) else .error .unexpectedEof

/-- Up to `len` bytes at `off`: fewer when the file ends first. -/
def readUpTo (d : Disk) (file off len : Nat) : ByteArray :=
  let f := d.file file
  f.slice off (min (off + len) f.size - off)

/-- Changes a file's contents. -/
def modifyFile (d : Disk) (file : Nat) (f : FileData → FileData) : Disk :=
  { d with files := d.files.modify file f }

/-- Writes bytes at `off`, the file reading as zeros between its old end and `off`. -/
def write (d : Disk) (file off : Nat) (bs : ByteArray) : Disk :=
  d.modifyFile file (·.write off bs)

/-- Writes `len` zeros at `off`. -/
def writeZeros (d : Disk) (file off len : Nat) : Disk :=
  d.modifyFile file (·.writeZeros off len)

/-- Cuts a file to `len` bytes or extends it with zeros. -/
def setSize (d : Disk) (file len : Nat) : Disk :=
  d.modifyFile file (·.setSize len)

/-- The largest length a file can have: file offsets are signed 64-bit numbers. -/
def maxFileSize : Nat := Nat.pow 2 63 - 1

/-- Writes bytes at `off`, refusing a write that would end past the largest file length. -/
def writeWithin (d : Disk) (file off : Nat) (bs : ByteArray) : Except IoError Disk :=
  if off + bs.size ≤ maxFileSize then .ok (d.write file off bs) else .error .tooLarge

/-- Cuts or grows a file to `len` bytes, refusing a length past the largest file length. -/
def setSizeWithin (d : Disk) (file len : Nat) : Except IoError Disk :=
  if len ≤ maxFileSize then .ok (d.setSize file len) else .error .tooLarge

/-- Copies file `src` over file `dst`: the destination is emptied first, so a file copied onto
itself ends empty. -/
def copy (d : Disk) (src dst : Nat) : Disk :=
  let d := d.setSize dst 0
  let f := d.file src
  d.modifyFile dst fun _ => f

/-- Removes a name; the file stays for whoever holds it open. -/
def remove (d : Disk) (dir name : String) : Except IoError Disk :=
  if (d.find? dir name).isSome then
    .ok { d with names := d.names.filter fun (dr, n, _) => !(dr == dir && n == name) }
  else .error .notFound

/-- Gives the file under `src` the name `dst`, replacing any file of that name. -/
def rename (d : Disk) (dir src dst : String) : Except IoError Disk :=
  match d.find? dir src with
  | none => .error .notFound
  | some f =>
    if src == dst then .ok d
    else
      let kept := d.names.filter fun (dr, n, _) => !(dr == dir && (n == src || n == dst))
      .ok { d with names := kept ++ [(dir, dst, f)] }

end Disk

end EventStore
