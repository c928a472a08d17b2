import EventStore.Disk
import EventStore.Bytes

/-!
# Checkpoints

A checkpoint is a durable log position with two values: the last one written (`readNonFlushed`)
and the last one flushed (`read`). Only the flushed value survives a crash. A checkpoint lives in
memory, or in a file of its own as eight big-endian bytes; a file checkpoint writes the file only
when a flush changes the flushed value.

A checkpoint file is created with the initial value when it is empty or missing; one of any length
other than 0 or 8 is refused.
-/

namespace EventStore

/-- Where a checkpoint keeps its flushed value. -/
inductive CheckpointStore where
  | memory
  /-- The open file with this number. -/
  | file (file : Nat)
  deriving DecidableEq, Repr, Inhabited

/-- Why a checkpoint could not be opened or flushed. -/
inductive CheckpointError where
  | io (name : String) (cause : IoError)
  | invalidLength (path : String) (len : Nat)
  deriving DecidableEq, Repr, Inhabited

namespace CheckpointError

/-- The name of the kind of failure. -/
def kind : CheckpointError → String
  | .io _ _ => "Io"
  | .invalidLength _ _ => "InvalidLength"

/-- The text of the failure. -/
def message : CheckpointError → String
  | .io name _ => s!"io error on checkpoint {name}"
  | .invalidLength path len => s!"checkpoint file {path} has invalid length {len}"

end CheckpointError

/-- A durable position. -/
structure Checkpoint where
  name : String
  store : CheckpointStore
  /-- The last value written. -/
  last : Int
  /-- The last value flushed. -/
  lastFlushed : Int
  deriving Inhabited

namespace Checkpoint

/-- A checkpoint in memory with its initial value. -/
def inMemory (name : String) (initial : Int) : Checkpoint := ⟨name, .memory, initial, initial⟩

/-- The file name of a checkpoint. -/
def fileName (name : String) : String := name ++ ".chk"

/-- Opens the file checkpoint `name` in directory `dir`, creating it with `initial` when empty. -/
def openFile (disk : Disk) (dir name : String) (initial : Int) :
    Except CheckpointError (Disk × Checkpoint) :=
  let (disk, f) := disk.openOrCreate dir (fileName name)
  match disk.size f with
  | 0 =>
    let disk := disk.write f 0 ⟨(Bytes.ofInt 8 initial).toArray⟩
    .ok (disk, ⟨name, .file f, initial, initial⟩)
  | 8 =>
    let value := Bytes.toInt (disk.contents f).toList
    .ok (disk, ⟨name, .file f, value, value⟩)
  | len => .error (.invalidLength (fileName name) len)

/-- Records a new value, not yet durable. -/
def write (c : Checkpoint) (value : Int) : Checkpoint := { c with last := value }

/-- Makes the last written value durable. -/
def flush (c : Checkpoint) (disk : Disk) : Disk × Checkpoint :=
  match c.store with
  | .memory => (disk, { c with lastFlushed := c.last })
  | .file f =>
    if c.last == c.lastFlushed then (disk, c)
    else (disk.write f 0 ⟨(Bytes.ofInt 8 c.last).toArray⟩, { c with lastFlushed := c.last })

/-- The last flushed value. -/
def read (c : Checkpoint) : Int := c.lastFlushed

/-- The last written value. -/
def readNonFlushed (c : Checkpoint) : Int := c.last

end Checkpoint

/-- The four checkpoints of a log: how far it was written, how far it was read back, where the
newest epoch record is, and where an unfinished truncation goes. -/
structure Checkpoints where
  writer : Checkpoint
  chaser : Checkpoint
  epoch : Checkpoint
  truncate : Checkpoint
  deriving Inhabited

namespace Checkpoints

/-- Checkpoints in memory with their initial values. -/
def inMemory : Checkpoints :=
  ⟨.inMemory "writer" 0, .inMemory "chaser" 0, .inMemory "epoch" (-1), .inMemory "truncate" (-1)⟩

/-- Opens the checkpoint files of a directory, in the order writer, chaser, epoch, truncate. -/
def openFiles (disk : Disk) (dir : String) : Except CheckpointError (Disk × Checkpoints) := do
  let (disk, w) ← Checkpoint.openFile disk dir "writer" 0
  let (disk, c) ← Checkpoint.openFile disk dir "chaser" 0
  let (disk, e) ← Checkpoint.openFile disk dir "epoch" (-1)
  let (disk, t) ← Checkpoint.openFile disk dir "truncate" (-1)
  pure (disk, ⟨w, c, e, t⟩)

end Checkpoints

end EventStore
