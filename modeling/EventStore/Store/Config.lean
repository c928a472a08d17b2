import EventStore.Store.Chunk
import EventStore.Chunk.FileName

/-!
# Database configuration and file naming

A chunk database lives in one directory: chunk files named by chunk number and version, the four
checkpoint files, and temporary files (a fresh identifier and `.tmp`) while a chunk is being
built. A log position belongs to the chunk numbered by the position divided by the chunk size,
rounded toward zero; a position whose number does not fit 32 bits, or a chunk size of zero, stops
the program.
-/

namespace EventStore

/-- Puts `a` before the first element of `l` that it may precede under `le`. -/
def insertBy {α : Type} (le : α → α → Bool) (a : α) : List α → List α
  | [] => [a]
  | b :: bs => if le a b then a :: b :: bs else b :: insertBy le a bs

/-- Sorts by insertion under a total `le`, keeping the order of elements it ties: the stable sort
the file listings are sorted with. -/
def sortBy {α : Type} (le : α → α → Bool) : List α → List α
  | [] => []
  | a :: as => insertBy le a (sortBy le as)

theorem mem_insertBy {α : Type} (le : α → α → Bool) (a x : α) (l : List α) :
    x ∈ insertBy le a l ↔ x = a ∨ x ∈ l := by
  induction l with
  | nil => simp [insertBy]
  | cons b bs ih =>
    unfold insertBy
    split <;> simp [ih, or_left_comm]

@[simp] theorem mem_sortBy {α : Type} (le : α → α → Bool) (x : α) (l : List α) :
    x ∈ sortBy le l ↔ x ∈ l := by
  induction l with
  | nil => simp [sortBy]
  | cons a as ih => simp [sortBy, mem_insertBy, ih]

/-- Where a chunk database lives and how it is laid out. -/
structure DbConfig where
  dir : String
  chunkSize : Nat
  checkpoints : Checkpoints
  verifyHashes : Bool := true
  deriving Inhabited

namespace DbConfig

/-- The chunk number of a log position. -/
def chunkNumberOf {ε : Type} (cfg : DbConfig) (position : Int) : WorldM ε Nat :=
  if cfg.chunkSize = 0 then stop
  else
    let q := position.tdiv cfg.chunkSize
    if 0 ≤ q ∧ q < Int.pow 2 32 then pure q.toNat else stop

/-- The steps a walk over the chunk files is given. It visits chunk numbers below `2 ^ 32`, and a
walk that ends visits none of them more than twice (a first visit may remove older versions and
resize the file, and later visits repeat each other), so it ends within this bound; a walk still
going after it goes round forever. -/
def walkBound : Nat := 2 * Nat.pow 2 32 + 1

/-- Every chunk file of the directory, as number, version and name, sorted. -/
def chunkFiles {ε : Type} (cfg : DbConfig) : WorldM ε (List (Nat × Nat × String)) := do
  let names := ((← World.currentDisk).list cfg.dir).map (·.1)
  let files := names.filterMap fun n => (ChunkFileName.parse? n).map fun (k, v) => (k, v, n)
  pure (sortBy (fun a b =>
    a.1 < b.1 || (a.1 == b.1 && (a.2.1 < b.2.1 || (a.2.1 == b.2.1 && decide (a.2.2 ≤ b.2.2))))) files)

/-- The versions of chunk `number` with their file names, newest first. -/
def versionsFor {ε : Type} (cfg : DbConfig) (number : Nat) : WorldM ε (List (Nat × String)) := do
  let vs := (← cfg.chunkFiles).filterMap fun (k, v, n) => if k = number then some (v, n) else none
  pure (sortBy (fun a b => b.1 ≤ a.1) vs)

/-- The version a new file for chunk `number` gets: one past the newest. -/
def nextVersionFor {ε : Type} (cfg : DbConfig) (number : Nat) : WorldM ε Nat := do
  match ← cfg.versionsFor number with
  | (v, _) :: _ => pure (v + 1)
  | [] => pure 0

/-- A fresh temporary file name. -/
def newTempName {ε : Type} : WorldM ε String := do
  let u ← World.freshId
  pure (u.toText ++ ChunkFileName.tempSuffix)

/-- Removes every file whose name ends in the temporary suffix. -/
def removeTempFiles {ε : Type} (cfg : DbConfig) : WorldM ε Unit := do
  for (n, _) in (← World.currentDisk).list cfg.dir do
    if n.endsWith ChunkFileName.tempSuffix then
      World.onDisk fun d => (d.remove cfg.dir n).toOption.getD d

/-- Removes a file of the directory. -/
def removeFile (cfg : DbConfig) (name : String) : WorldM DbError Unit :=
  World.diskTry DbError.io fun d => (d.remove cfg.dir name).map (·, ())

/-- Makes a checkpoint's written value durable. -/
def flushCheckpoint {ε : Type} (c : Checkpoint) : WorldM ε Checkpoint :=
  modifyGet fun w =>
    let (d, c) := c.flush w.disk
    (c, { w with disk := d })

/-- Writes and flushes a checkpoint. -/
def storeCheckpoint {ε : Type} (c : Checkpoint) (value : Int) : WorldM ε Checkpoint :=
  flushCheckpoint (c.write value)

end DbConfig

end EventStore
