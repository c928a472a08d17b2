import EventStore.Proofs.Store.FailedTruncation

/-!
# Walks over the chunk files

Opening a database walks its chunk files twice: the truncation it resumes looks for the file of
the chunk holding the truncation point (`DbConfig.findChunkFileStep`), and loading opens the
chunks up to the writer's (`DbConfig.openChunkStep`). Each step goes on at the chunk after the
range the file's header gives, which is forward only when that range ends at or past the chunk
the walk is at. Headers are read as they are on the disk, and nothing checks their ranges.

A walk runs with fuel (`World.walk`), and running out of fuel is how a walk that goes on forever
shows; `World.EndsWithin` says a walk ends, with a result, a failure or a stop, within the steps it
is given. A walk whose steps lower a measure ends before its fuel goes below the measure
(`World.walk_ends_of_measure`).

For the chunk files, `Disk.HeaderIs` names the header a file reads as, and `Disk.RangesAhead` says
that every chunk file's range ends at or past the chunk number its name gives, and before the last
32-bit one. A step of either walk only reads headers, removes names and resizes active chunk files
that hold a header, so every header it leaves was there before (`Disk.KeepsHeaders`,
`LeavesHeaders`). Main statement: on a directory whose ranges are ahead, both walks end within
the steps the program gives them (`opening_walks_end`). A header whose range ends just before its
own chunk sends the truncation walk back to that chunk for ever
(`DbConfig.findChunkFile_goes_round`).
-/

namespace EventStore

namespace World

variable {ε τ α : Type}

/-- The walk from `x` on world `w`, given `fuel` steps, ends within them: with a result, a
failure or a stop, rather than by running out. -/
def EndsWithin (step : τ → WorldM ε (τ ⊕ α)) (fuel : Nat) (x : τ) (w : World) : Prop :=
  ((ExceptT.run (walk step fuel x)).run w).1 ≠ .ok none

variable {step : τ → WorldM ε (τ ⊕ α)}

/-- A step that goes on hands the walk, with one step fewer, to the next place. -/
theorem walk_succ_of_runs {x y : τ} {w w' : World} (h : Runs (step x) w (.inl y) w')
    (fuel : Nat) :
    (ExceptT.run (walk step (fuel + 1) x)).run w = (ExceptT.run (walk step fuel y)).run w' := by
  unfold Runs at h
  simp only [walk, ExceptT.run_bind, StateT.run_bind]
  rw [show StateT.run (ExceptT.run (step x)) w = _ from h]
  rfl

/-- A walk whose steps that go on, from a place and world of `I`, reach one of `I` of smaller
measure ends when given more fuel than the measure of where it starts. -/
theorem walk_ends_of_measure (I : τ → World → Prop) (μ : τ → Nat)
    (hI : ∀ x w y w', I x w → Runs (step x) w (.inl y) w' → I y w' ∧ μ y < μ x) :
    ∀ fuel x w, I x w → μ x < fuel → EndsWithin step fuel x w := by
  intro fuel
  induction fuel with
  | zero => intro x w _ hμ; exact absurd hμ (Nat.not_lt_zero _)
  | succ fuel ih =>
    intro x w hx hμ
    -- the first step ends the walk, or goes on to a place of smaller measure
    rcases hr : (ExceptT.run (step x)).run w with ⟨_ | (y | a), w'⟩
    · unfold EndsWithin
      simp only [walk, ExceptT.run_bind, StateT.run_bind]
      rw [show StateT.run (ExceptT.run (step x)) w = _ from hr]
      nofun
    · obtain ⟨hy, hμy⟩ := hI x w y w' hx hr
      unfold EndsWithin
      rw [walk_succ_of_runs hr]
      exact ih y w' hy (by omega)
    · unfold EndsWithin
      simp only [walk, ExceptT.run_bind, StateT.run_bind]
      rw [show StateT.run (ExceptT.run (step x)) w = _ from hr]
      nofun

end World

/-! ## Headers on the disk -/

namespace Disk

/-- The file under `name` in `dir` holds at least a header, and its first bytes read as `h`. -/
def HeaderIs (d : Disk) (dir name : String) (h : ChunkHeader) : Prop :=
  ∃ f, d.find? dir name = some f ∧ chunkHeaderSize ≤ d.size f ∧
    ∃ rest, ChunkHeader.decode.run (Bytes.ofByteArray ((d.file f).slice 0 chunkHeaderSize)) =
      .ok (h, rest)

/-- Every header a file of `dir` reads as on `d'`, it read as on `d`. -/
def KeepsHeaders (dir : String) (d d' : Disk) : Prop :=
  ∀ name h, d'.HeaderIs dir name h → d.HeaderIs dir name h

/-- Every chunk file of `dir` whose header reads has a range ending at or past the chunk number its
name gives, and before the last 32-bit chunk number. -/
def RangesAhead (d : Disk) (dir : String) : Prop :=
  ∀ name n v h, ChunkFileName.parse? name = some (n, v) → d.HeaderIs dir name h →
    n ≤ h.chunkEndNumber ∧ h.chunkEndNumber + 1 < Nat.pow 2 32

variable {dir : String} {d d' d'' : Disk}

theorem KeepsHeaders.refl (dir : String) (d : Disk) : KeepsHeaders dir d d := fun _ _ h => h

theorem KeepsHeaders.trans (h₁ : KeepsHeaders dir d d') (h₂ : KeepsHeaders dir d' d'') :
    KeepsHeaders dir d d'' :=
  fun name h hh => h₁ name h (h₂ name h hh)

theorem RangesAhead.of_keeps (hr : d.RangesAhead dir) (hk : KeepsHeaders dir d d') :
    d'.RangesAhead dir :=
  fun name n v h hn hh => hr name n v h hn (hk name h hh)

/-- Whether every chunk file of `dir` whose header reads has its range ahead, checked entry by
entry: a check that evaluates on a given disk. -/
def rangesAheadCheck (d : Disk) (dir : String) : Bool :=
  d.names.all fun e =>
    match ChunkFileName.parse? e.2.1, d.find? dir e.2.1 with
    | some (n, _), some f =>
      if chunkHeaderSize ≤ d.size f then
        match ChunkHeader.decode.run (Bytes.ofByteArray ((d.file f).slice 0 chunkHeaderSize)) with
        | .ok (h, _) => decide (n ≤ h.chunkEndNumber ∧ h.chunkEndNumber + 1 < Nat.pow 2 32)
        | .error _ => true
      else true
    | _, _ => true

/-- A name that finds a file has an entry. -/
theorem exists_name_of_find? {name : String} {f : Nat} (h : d.find? dir name = some f) :
    ∃ e ∈ d.names, e.2.1 = name := by
  unfold Disk.find? at h
  obtain ⟨e, hfind, -⟩ := Option.map_eq_some_iff.1 h
  have hsel := List.find?_some hfind
  simp only [Bool.and_eq_true, beq_iff_eq] at hsel
  exact ⟨e, List.mem_of_find?_eq_some hfind, hsel.2⟩

/-- A disk that passes the check has its ranges ahead: the check looks at the entry of every name
that reads as a header. -/
theorem rangesAhead_of_check (hc : d.rangesAheadCheck dir = true) : d.RangesAhead dir := by
  intro name n v h hn ⟨f, hf, hsize, rest, hdec⟩
  obtain ⟨e, he, rfl⟩ := exists_name_of_find? hf
  have hcheck := List.all_eq_true.1 hc e he
  simp only [hn, hf, if_pos hsize, hdec, decide_eq_true_eq] at hcheck
  exact hcheck

/-- Removing a name leaves every other name on its file. -/
theorem find?_of_remove {x name : String} {f : Nat} (h : d.remove dir x = .ok d')
    (hf : d'.find? dir name = some f) : d.find? dir name = some f := by
  unfold remove at h
  split at h
  · cases h
    unfold find? at hf ⊢
    rw [List.find?_filter] at hf
    by_cases hx : name = x
    · -- the name removed finds nothing
      subst hx
      rw [(List.find?_eq_none).2 (fun e _ => by simp; tauto)] at hf
      cases hf
    · -- the entries removed are not under `name`
      have hpred : (fun e : String × String × Nat => decide
          ((!(e.1 == dir && e.2.1 == x)) = true ∧ (e.1 == dir && e.2.1 == name) = true)) =
          fun e => e.1 == dir && e.2.1 == name := by
        funext e
        by_cases he : e.2.1 = name <;> by_cases hd : e.1 = dir <;> simp [he, hd, hx]
      rw [hpred] at hf
      exact hf
  · cases h

theorem KeepsHeaders.remove {x : String} (h : d.remove dir x = .ok d') : KeepsHeaders dir d d' := by
  intro name hd ⟨f, hf, hsize, hdec⟩
  have hfiles : d'.files = d.files := by
    unfold Disk.remove at h
    split at h
    · cases h
      rfl
    · cases h
  refine ⟨f, find?_of_remove h hf, ?_, ?_⟩
  · rwa [size, file, ← hfiles]
  · rwa [file, ← hfiles]

/-- Cutting or growing a file to at least a header keeps the header bytes of every file. -/
theorem slice_header_setSize {g len : Nat} (hlen : chunkHeaderSize ≤ len) (f : Nat) :
    ((d.setSize g len).file f).slice 0 chunkHeaderSize = (d.file f).slice 0 chunkHeaderSize := by
  refine FileData.ext_byteOf (by rw [FileData.size_slice, FileData.size_slice]) fun i hi => ?_
  rw [FileData.size_slice] at hi
  rw [FileData.byteOf_slice _ _ _ hi, FileData.byteOf_slice _ _ _ hi,
    byteAt_setSize_below fun _ => by omega]

/-- Resizing a file that holds a header to at least a header keeps every header. -/
theorem KeepsHeaders.setSize {g len : Nat} (hlen : chunkHeaderSize ≤ len)
    (hg : chunkHeaderSize ≤ d.size g) : KeepsHeaders dir d (d.setSize g len) := by
  intro name hd ⟨f, hf, hsize, hdec⟩
  refine ⟨f, hf, ?_, by rwa [slice_header_setSize hlen] at hdec⟩
  rw [size_setSize] at hsize
  split at hsize
  · rename_i hfg
    rw [hfg.1]
    exact hg
  · exact hsize

end Disk

namespace Chunk

variable {ε : Type} {w w' : World}

/-- A header read from an open file is what the file's first bytes read as. -/
theorem runs_readHeaderOf_inv {file : Nat} {name : String} {h : ChunkHeader}
    (hr : Runs (readHeaderOf file name) w h w') :
    w' = w ∧ chunkHeaderSize ≤ w.disk.size file ∧
      ∃ rest, ChunkHeader.decode.run (Bytes.ofByteArray ((w.disk.file file).slice 0
        chunkHeaderSize)) = .ok (h, rest) := by
  unfold readHeaderOf at hr
  obtain ⟨d, w₁, h₁, hr⟩ := hr.bind_inv
  obtain ⟨rfl, rfl⟩ := World.runs_currentDisk_inv h₁
  unfold Disk.readExact at hr
  dsimp only at hr
  split at hr
  · exact absurd hr Runs.not_fail
  · rename_i bs hbs
    split at hbs
    · rename_i hsize
      cases hbs
      split at hr
      · rename_i h' rest hdec
        obtain ⟨rfl, rfl⟩ := Runs.pure_inv hr
        exact ⟨rfl, by simpa [Disk.size] using hsize, rest, hdec⟩
      · exact absurd hr Runs.not_fail
    · cases hbs

/-- A file whose first bytes read as a header is read as that header. -/
theorem runs_readHeaderOf_of_decode {file : Nat} {name : String} {h : ChunkHeader} {rest : Bytes}
    (hsize : chunkHeaderSize ≤ w.disk.size file)
    (hdec : ChunkHeader.decode.run (Bytes.ofByteArray ((w.disk.file file).slice 0
      chunkHeaderSize)) = .ok (h, rest)) :
    Runs (readHeaderOf file name) w h w := by
  unfold readHeaderOf
  refine Runs.bind (World.runs_currentDisk w) ?_
  rw [Disk.readExact_eq (by rw [Nat.zero_add]; exact hsize)]
  dsimp only
  rw [hdec]
  rfl

/-- A header read by name is what the named file's first bytes read as. -/
theorem runs_readHeader_inv {dir name : String} {h : ChunkHeader}
    (hr : Runs (readHeader dir name) w h w') : w' = w ∧ w.disk.HeaderIs dir name h := by
  unfold readHeader at hr
  obtain ⟨file, w₁, h₁, hr⟩ := hr.bind_inv
  obtain ⟨d, hd, rfl⟩ := World.runs_diskTry_inv h₁
  unfold Disk.openFile at hd
  split at hd
  · rename_i hf
    cases hd
    obtain ⟨d₁, w₂, h₂, hr⟩ := hr.bind_inv
    obtain ⟨rfl, rfl⟩ := World.runs_currentDisk_inv h₂
    split at hr
    · exact absurd hr Runs.not_fail
    · obtain ⟨rfl, hsize, hdec⟩ := runs_readHeaderOf_inv hr
      exact ⟨rfl, _, hf, hsize, hdec⟩
  · cases hd

/-- The file a name opens is the one the name finds. -/
theorem find?_of_openFile {d d' : Disk} {dir name : String} {file : Nat}
    (h : (d.openFile dir name).map (d, ·) = .ok (d', file)) :
    d' = d ∧ d.find? dir name = some file := by
  unfold Disk.openFile at h
  split at h
  · rename_i hf
    cases h
    exact ⟨rfl, hf⟩
  · cases h

/-- An active chunk's file holds at least a header. -/
theorem runs_activeFileSize_inv {hd : ChunkHeader} {n : Nat}
    (h : Runs (activeFileSize hd : WorldM ε Nat) w n w') : w' = w ∧ chunkHeaderSize ≤ n := by
  unfold activeFileSize at h
  obtain ⟨cap, w₁, h₁, h₂⟩ := h.bind_inv
  obtain ⟨-, rfl⟩ := runs_capacityOf_inv h₁
  obtain ⟨rfl, rfl⟩ := Runs.pure_inv h₂
  exact ⟨rfl, Nat.le_add_left _ _⟩

theorem readOnly_tryReadFooter (file len : Nat) : ReadOnly (tryReadFooter file len) := by
  unfold tryReadFooter
  refine ReadOnly.ite (ReadOnly.pure _) (World.readOnly_currentDisk.bind fun d => ?_)
  split
  · exact ReadOnly.throw _
  · split
    · exact ReadOnly.pure _
    · exact ReadOnly.pure _

theorem readOnly_readPosMap (file offset mapSize : Nat) :
    ReadOnly (readPosMap file offset mapSize) := by
  unfold readPosMap
  refine ReadOnly.ite (ReadOnly.pure _) (World.readOnly_currentDisk.bind fun d => ?_)
  split
  · exact ReadOnly.throw _
  · split
    · exact ReadOnly.pure _
    · exact ReadOnly.throw _

theorem readOnly_hashRange (file start finish : Nat) (h : Sha256) :
    ReadOnly (hashRange file start finish h) := by
  unfold hashRange
  refine World.readOnly_currentDisk.bind fun d => ?_
  split
  · exact ReadOnly.pure _
  · exact ReadOnly.throw _

theorem readOnly_verifyHash (c : Chunk) : ReadOnly c.verifyHash := by
  unfold verifyHash
  split
  · exact (readOnly_hashRange _ _ _ _).bind fun _ => ReadOnly.ite (ReadOnly.throw _) (ReadOnly.pure _)
  · exact ReadOnly.pure _

/-- A file holding a header is read by name as that header. -/
theorem runs_readHeader_of_headerIs {dir name : String} {h : ChunkHeader}
    (hh : w.disk.HeaderIs dir name h) : Runs (readHeader dir name) w h w := by
  obtain ⟨f, hf, hsize, rest, hdec⟩ := hh
  unfold readHeader
  refine Runs.bind (World.runs_diskTry (runs_openFile hf)) ?_
  refine Runs.bind (World.runs_currentDisk _) ?_
  rw [if_neg (Nat.not_lt_of_le hsize)]
  exact runs_readHeaderOf_of_decode hsize hdec

/-- Opening a chunk file reads its header from the disk, and at most resizes an active chunk's
file, which holds a header, to the full size of its layout: every header stays. -/
theorem runs_openExisting_inv {dir name : String} {act : Option Nat} {handle : Nat} {c : Chunk}
    (hr : Runs (openExisting dir name act handle) w c w') :
    w.disk.HeaderIs dir name c.header ∧ Disk.KeepsHeaders dir w.disk w'.disk := by
  unfold openExisting at hr
  obtain ⟨file, w₁, h₁, hr⟩ := hr.bind_inv
  obtain ⟨d, hd, rfl⟩ := World.runs_diskTry_inv h₁
  obtain ⟨rfl, hfound⟩ := find?_of_openFile hd
  obtain ⟨d₁, w₂, h₂, hr⟩ := hr.bind_inv
  obtain ⟨rfl, rfl⟩ := World.runs_currentDisk_inv h₂
  dsimp only at hr
  split at hr
  · obtain ⟨_, _, hf, -⟩ := hr.bind_inv
    exact absurd hf Runs.not_fail
  rename_i hlen
  obtain ⟨header, w₃, h₃, hr⟩ := hr.bind_inv
  obtain ⟨rfl, hsize, hdec⟩ := runs_readHeaderOf_inv h₃
  have hhead : w.disk.HeaderIs dir name header := ⟨file, hfound, hsize, hdec⟩
  obtain ⟨fo, w₄, h₄, hr⟩ := hr.bind_inv
  obtain ⟨rfl, -⟩ := Runs.returns (readOnly_tryReadFooter _ _) h₄
  split at hr
  · -- a completed chunk is only read
    split at hr
    · obtain ⟨_, _, hf, -⟩ := hr.bind_inv
      exact absurd hf Runs.not_fail
    obtain ⟨pm, w₅, h₅, hr⟩ := hr.bind_inv
    obtain ⟨rfl, -⟩ := Runs.returns (readOnly_readPosMap _ _ _) h₅
    obtain ⟨rfl, rfl⟩ := Runs.pure_inv hr
    exact ⟨hhead, Disk.KeepsHeaders.refl _ _⟩
  split at hr
  swap
  · exact absurd hr Runs.not_fail
  split at hr
  · obtain ⟨_, _, hf, -⟩ := hr.bind_inv
    exact absurd hf Runs.not_fail
  obtain ⟨cap, w₅, h₅, hr⟩ := hr.bind_inv
  obtain ⟨-, rfl⟩ := runs_capacityOf_inv h₅
  split at hr
  · obtain ⟨_, _, hf, -⟩ := hr.bind_inv
    exact absurd hf Runs.not_fail
  obtain ⟨expected, w₆, h₆, hr⟩ := hr.bind_inv
  obtain ⟨rfl, hexp⟩ := runs_activeFileSize_inv h₆
  -- the file holds a header, so resizing it to a full active size keeps every header
  have hkeep : Disk.KeepsHeaders dir w.disk (w.disk.setSize file expected) :=
    Disk.KeepsHeaders.setSize hexp (Nat.le_of_not_lt hlen)
  split at hr
  · obtain ⟨_, w₇, h₇, hr⟩ := hr.bind_inv
    obtain rfl := World.runs_onDisk_inv h₇
    obtain ⟨hs, w₈, h₈, hr⟩ := hr.bind_inv
    obtain ⟨rfl, -⟩ := Runs.returns (readOnly_hashRange _ _ _ _) h₈
    obtain ⟨rfl, rfl⟩ := Runs.pure_inv hr
    exact ⟨hhead, hkeep⟩
  · obtain ⟨hs, w₈, h₈, hr⟩ := hr.bind_inv
    obtain ⟨rfl, -⟩ := Runs.returns (readOnly_hashRange _ _ _ _) h₈
    obtain ⟨rfl, rfl⟩ := Runs.pure_inv hr
    exact ⟨hhead, Disk.KeepsHeaders.refl _ _⟩

end Chunk

/-- A chunk number below the last 32-bit one is followed by the next number up. -/
theorem Word.nextChunk_of_lt {n : Nat} (h : n + 1 < Nat.pow 2 32) : Word.nextChunk n = n + 1 := by
  unfold Word.nextChunk Word.unsigned
  rw [Int.emod_eq_of_lt (by omega) (by omega)]
  rfl

/-- A run of a choice between two actions followed by the same continuation is a run of the
choice followed by a run of the continuation. -/
theorem Runs.bind_ite_inv {ε α β : Type} {p : Prop} [Decidable p] {a b : WorldM ε α}
    {f : α → WorldM ε β} {w w' : World} {v : β}
    (h : Runs (if p then a >>= f else b >>= f) w v w') :
    ∃ x w₁, Runs (if p then a else b) w x w₁ ∧ Runs (f x) w₁ v w' := by
  split at h <;> rename_i hp <;> simp only [hp, if_true, if_false] <;> exact h.bind_inv

/-- Every run of `m` leaves only headers of `dir` that were there before it. -/
def LeavesHeaders {ε α : Type} (dir : String) (m : WorldM ε α) : Prop :=
  ∀ w v w', Runs m w v w' → Disk.KeepsHeaders dir w.disk w'.disk

namespace LeavesHeaders

variable {ε α β : Type} {dir : String}

theorem of_readOnly {m : WorldM ε α} (h : ReadOnly m) : LeavesHeaders dir m := fun w _ _ hr => by
  obtain ⟨rfl, -⟩ := Runs.returns h hr
  exact Disk.KeepsHeaders.refl _ _

theorem bind {m : WorldM ε α} {f : α → WorldM ε β} (hm : LeavesHeaders dir m)
    (hf : ∀ v, LeavesHeaders dir (f v)) : LeavesHeaders dir (m >>= f) := fun w _ _ hr => by
  obtain ⟨v, w₁, h₁, h₂⟩ := hr.bind_inv
  exact (hm _ _ _ h₁).trans (hf v _ _ _ h₂)

theorem forIn {γ : Type} {l : List γ} {b : β} {f : γ → β → WorldM ε (ForInStep β)}
    (hf : ∀ x b, LeavesHeaders dir (f x b)) : LeavesHeaders dir (ForIn.forIn l b f) := by
  induction l generalizing b with
  | nil => exact of_readOnly (ReadOnly.pure _)
  | cons x l ih =>
    rw [List.forIn_cons]
    refine (hf x b).bind fun r => ?_
    cases r with
    | done b' => exact of_readOnly (ReadOnly.pure _)
    | yield b' => exact ih

end LeavesHeaders

namespace DbConfig

variable {ε : Type} {w w' : World} (cfg : DbConfig)

/-- Removing a file keeps every header left. -/
theorem leavesHeaders_removeFile (name : String) : LeavesHeaders cfg.dir (cfg.removeFile name) :=
  fun w _ _ hr => by
    obtain ⟨d, hd, rfl⟩ := World.runs_diskTry_inv hr
    rcases hrem : w.disk.remove cfg.dir name with e | d' <;> rw [hrem] at hd
    · cases hd
    · cases hd
      exact Disk.KeepsHeaders.remove hrem

/-- The chunk files listed are names of the directory with what they parse as. -/
theorem runs_chunkFiles_inv {fs : List (Nat × Nat × String)}
    (h : Runs (cfg.chunkFiles : WorldM ε _) w fs w') :
    w' = w ∧ ∀ e ∈ fs, ChunkFileName.parse? e.2.2 = some (e.1, e.2.1) := by
  unfold chunkFiles at h
  obtain ⟨d, w₁, h₁, h₂⟩ := h.bind_inv
  obtain ⟨rfl, rfl⟩ := World.runs_currentDisk_inv h₁
  obtain ⟨rfl, rfl⟩ := Runs.pure_inv h₂
  refine ⟨rfl, fun e he => ?_⟩
  rw [mem_sortBy, List.mem_filterMap] at he
  obtain ⟨name, -, hname⟩ := he
  rcases hp : ChunkFileName.parse? name with _ | ⟨k, v⟩ <;> rw [hp] at hname <;> cases hname
  exact hp

/-- The versions listed for chunk `n` are files whose names parse as versions of `n`. -/
theorem runs_versionsFor_inv {n : Nat} {vs : List (Nat × String)}
    (h : Runs (cfg.versionsFor n : WorldM ε _) w vs w') :
    w' = w ∧ ∀ e ∈ vs, ChunkFileName.parse? e.2 = some (n, e.1) := by
  unfold versionsFor at h
  obtain ⟨fs, w₁, h₁, h₂⟩ := h.bind_inv
  obtain ⟨rfl, hfs⟩ := runs_chunkFiles_inv cfg h₁
  obtain ⟨rfl, rfl⟩ := Runs.pure_inv h₂
  refine ⟨rfl, fun e he => ?_⟩
  rw [mem_sortBy, List.mem_filterMap] at he
  obtain ⟨⟨k, v, name⟩, hmem, hsel⟩ := he
  dsimp only at hsel
  by_cases hk : k = n
  · subst hk
    rw [if_pos rfl] at hsel
    cases hsel
    exact hfs _ hmem
  · rw [if_neg hk] at hsel
    cases hsel

/-- A step of the walk to chunk `target` that goes on, from chunk `n`, read the header of a file
named for `n` and goes to the chunk after the header's range; it changes nothing. -/
theorem runs_findChunkFileStep_next {target n m : Nat}
    (h : Runs (cfg.findChunkFileStep target n) w (.inl m) w') :
    w' = w ∧ n ≤ target ∧ ∃ name v hd, ChunkFileName.parse? name = some (n, v) ∧
      w.disk.HeaderIs cfg.dir name hd ∧ m = hd.chunkEndNumber + 1 := by
  unfold findChunkFileStep at h
  split at h
  · cases (Runs.pure_inv h).1
  rename_i hn
  obtain ⟨vs, w₁, h₁, h₂⟩ := h.bind_inv
  obtain ⟨rfl, hvs⟩ := runs_versionsFor_inv cfg h₁
  split at h₂
  · split at h₂
    · exact absurd h₂ Runs.not_fail
    · cases (Runs.pure_inv h₂).1
  rename_i v name rest
  obtain ⟨hd, w₂, h₃, h₄⟩ := h₂.bind_inv
  obtain ⟨rfl, hhd⟩ := Chunk.runs_readHeader_inv h₃
  split at h₄
  · cases (Runs.pure_inv h₄).1
  obtain ⟨hm, rfl⟩ := Runs.pure_inv h₄
  cases hm
  exact ⟨rfl, by omega, name, v, hd, hvs _ (List.mem_cons_self ..), hhd, rfl⟩

/-- A step of opening the chunks that goes on, from chunk `n`, opened a file named for `n` after
removing older ones, read its header on the disk left by the removals, and goes to the 32-bit chunk
number after the header's range; no header appears that was not there before. -/
theorem runs_openChunkStep_next {writer : Int} {last n m : Nat} {cs cs' : List Chunk}
    (h : Runs (cfg.openChunkStep writer last n cs) w (.inl (m, cs')) w') :
    n ≤ last ∧ ∃ d name v hd, ChunkFileName.parse? name = some (n, v) ∧
      Disk.KeepsHeaders cfg.dir w.disk d ∧ d.HeaderIs cfg.dir name hd ∧
      Disk.KeepsHeaders cfg.dir d w'.disk ∧ m = Word.nextChunk hd.chunkEndNumber := by
  unfold openChunkStep at h
  split at h
  · cases (Runs.pure_inv h).1
  rename_i hn
  obtain ⟨vs, w₁, h₁, h₂⟩ := h.bind_inv
  obtain ⟨hw₁, hvs⟩ := runs_versionsFor_inv cfg h₁
  subst w₁
  split at h₂
  · split at h₂
    · cases (Runs.pure_inv h₂).1
    · exact absurd h₂ Runs.not_fail
  rename_i v latest older
  obtain ⟨_, w₂, h₃, h₄⟩ := h₂.bind_inv
  have hk₂ : Disk.KeepsHeaders cfg.dir w.disk w₂.disk :=
    LeavesHeaders.forIn (fun _ _ => (leavesHeaders_removeFile cfg _).bind fun _ =>
      LeavesHeaders.of_readOnly (ReadOnly.pure _)) _ _ _ h₃
  -- the data size the file is opened with is computed without touching the world
  obtain ⟨active, w₃, h₅, h₆⟩ := Runs.bind_ite_inv h₄
  obtain ⟨rfl, -⟩ := Runs.returns (ReadOnly.ite (ReadOnly.ite (ReadOnly.pure _) (ReadOnly.throw _))
    (ReadOnly.pure _)) h₅
  dsimp only at h₆
  obtain ⟨handle, w₄, h₇, h₈⟩ := h₆.bind_inv
  obtain ⟨-, rfl⟩ := World.runs_freshNat_inv h₇
  obtain ⟨c, w₅, h₉, h₁₀⟩ := h₈.bind_inv
  obtain ⟨hhd, hk₅⟩ := Chunk.runs_openExisting_inv h₉
  split at h₁₀
  · obtain ⟨_, _, hf, -⟩ := h₁₀.bind_inv
    exact absurd hf Runs.not_fail
  -- the checks of a completed chunk only read, and every step that goes on gives the chunk after
  -- the header's range
  have hnext : ∀ {w₆}, Runs (pure (.inl (Word.nextChunk c.header.chunkEndNumber,
      (ChunkList.add cs c).2)) : WorldM DbError ((Nat × List Chunk) ⊕ List Chunk)) w₆
      (.inl (m, cs')) w' → w' = w₆ ∧ m = Word.nextChunk c.header.chunkEndNumber := fun hp => by
    obtain ⟨hm, rfl⟩ := Runs.pure_inv hp
    cases hm
    exact ⟨rfl, rfl⟩
  obtain ⟨rfl, rfl⟩ : w' = w₅ ∧ m = Word.nextChunk c.header.chunkEndNumber := by
    split at h₁₀
    · split at h₁₀
      · obtain ⟨_, w₆, h₁₁, h₁₂⟩ := h₁₀.bind_inv
        obtain ⟨rfl, -⟩ := Runs.returns (Chunk.readOnly_verifyHash c) h₁₁
        split at h₁₂
        · obtain ⟨_, _, hf, -⟩ := h₁₂.bind_inv
          exact absurd hf Runs.not_fail
        · exact hnext h₁₂
      · split at h₁₀
        · obtain ⟨_, _, hf, -⟩ := h₁₀.bind_inv
          exact absurd hf Runs.not_fail
        · exact hnext h₁₀
    · exact hnext h₁₀
  exact ⟨Nat.le_of_not_lt hn, w₃.disk, latest, v, c.header, hvs _ (List.mem_cons_self ..), hk₂, hhd,
    hk₅, rfl⟩

variable {cfg}

/-- On a directory whose ranges are ahead, a step of the walk to chunk `target` that goes on
leaves from a chunk not past `target` for a later one, and changes nothing. -/
theorem findChunkFileStep_advances {target n m : Nat} (hr : w.disk.RangesAhead cfg.dir)
    (h : Runs (cfg.findChunkFileStep target n) w (.inl m) w') : w' = w ∧ n < m ∧ n ≤ target := by
  obtain ⟨rfl, ht, name, v, hd, hname, hhd, rfl⟩ := runs_findChunkFileStep_next cfg h
  have hn := (hr name n v hd hname hhd).1
  exact ⟨rfl, by omega, ht⟩

/-- On a directory whose ranges are ahead, a step of opening the chunks up to chunk `last` that
goes on leaves from a chunk not past `last` for a later one, and the ranges stay ahead. -/
theorem openChunkStep_advances {writer : Int} {last n m : Nat} {cs cs' : List Chunk}
    (hr : w.disk.RangesAhead cfg.dir)
    (h : Runs (cfg.openChunkStep writer last n cs) w (.inl (m, cs')) w') :
    w'.disk.RangesAhead cfg.dir ∧ n < m ∧ n ≤ last := by
  obtain ⟨hl, d, name, v, hd, hname, hk, hhd, hk', rfl⟩ := runs_openChunkStep_next cfg h
  obtain ⟨hn, hlt⟩ := hr.of_keeps hk name n v hd hname hhd
  rw [Word.nextChunk_of_lt hlt]
  exact ⟨(hr.of_keeps hk).of_keeps hk', by omega, hl⟩

/-- A step of the walk to `target` at a chunk `n` not past it, whose newest file reads a header
ending just before `n`, goes on at `n` itself. -/
theorem runs_findChunkFileStep_back {target n v : Nat} {name : String} {hd : ChunkHeader}
    {rest : List (Nat × String)}
    (hvs : Returns (cfg.versionsFor n : WorldM DbError _) w ((v, name) :: rest))
    (hh : w.disk.HeaderIs cfg.dir name hd) (hend : hd.chunkEndNumber + 1 = n) (ht : n ≤ target) :
    Runs (cfg.findChunkFileStep target n) w (.inl n) w := by
  unfold findChunkFileStep
  rw [if_neg (by omega)]
  refine Runs.bind hvs ?_
  refine Runs.bind (Chunk.runs_readHeader_of_headerIs hh) ?_
  rw [if_neg (by omega), hend]
  rfl

/-- A walk to `target` at a chunk `n` not past it, whose newest file reads a header ending just
before `n`, goes round at `n`: it ends within no number of steps. -/
theorem findChunkFile_goes_round {target n v : Nat} {name : String} {hd : ChunkHeader}
    {rest : List (Nat × String)}
    (hvs : Returns (cfg.versionsFor n : WorldM DbError _) w ((v, name) :: rest))
    (hh : w.disk.HeaderIs cfg.dir name hd) (hend : hd.chunkEndNumber + 1 = n) (ht : n ≤ target) :
    ∀ fuel, ¬ World.EndsWithin (cfg.findChunkFileStep target) fuel n w := by
  have hstep := runs_findChunkFileStep_back hvs hh hend ht
  intro fuel
  induction fuel with
  | zero => exact fun h => h rfl
  | succ fuel ih =>
    intro h
    unfold World.EndsWithin at h
    rw [World.walk_succ_of_runs hstep] at h
    exact ih h

end DbConfig

/-- A header for chunk 1 whose range ends at chunk 0, in a log of 256-byte chunks. -/
def headerEndingBeforeItsChunk : ChunkHeader := ⟨1, 256, 1, 0, false, ⟨5⟩, 0⟩

/-- A directory whose only chunk file, named for chunk 1, holds that header. -/
def directoryGoingBack : World :=
  { disk :=
    { files := #[({} : FileData).write 0 ⟨headerEndingBeforeItsChunk.encode.toArray⟩]
      names := [("db", "chunk-000001.000000", 0)] } }

/-- The truncation walk to chunk 1 in that directory goes round at chunk 1. -/
theorem truncation_walk_goes_round_in_directoryGoingBack :
    Returns ((⟨"db", 256, default, true⟩ : DbConfig).versionsFor 1 : WorldM DbError _)
        directoryGoingBack [(0, "chunk-000001.000000")] ∧
      directoryGoingBack.disk.HeaderIs "db" "chunk-000001.000000" headerEndingBeforeItsChunk ∧
      headerEndingBeforeItsChunk.chunkEndNumber + 1 = 1 ∧ 1 ≤ 1 ∧
      ∀ fuel, ¬ World.EndsWithin (DbConfig.findChunkFileStep ⟨"db", 256, default, true⟩ 1) fuel 1
        directoryGoingBack := by
  have hvs : Runs ((⟨"db", 256, default, true⟩ : DbConfig).versionsFor 1 : WorldM DbError _)
      directoryGoingBack [(0, "chunk-000001.000000")] _ := Runs.of_toOption (by decide +kernel)
  rw [(DbConfig.runs_versionsFor_inv _ hvs).1] at hvs
  have hh : directoryGoingBack.disk.HeaderIs "db" "chunk-000001.000000"
      headerEndingBeforeItsChunk := ⟨0, rfl, by decide +kernel, [], by decide +kernel⟩
  exact ⟨hvs, hh, rfl, Nat.le_refl 1, DbConfig.findChunkFile_goes_round hvs hh rfl (Nat.le_refl 1)⟩


open DbConfig in
/-- On a directory where the header of every chunk file gives a range that ends at or past the
chunk number of the file's name and before the last 32-bit chunk number, the two walks of opening
a database end within the steps they are given: the walk of a resumed truncation to any 32-bit
chunk number, and the walk opening the chunks up to any 32-bit chunk number. -/
theorem opening_walks_end (cfg : DbConfig) (w : World) (hw : w.disk.RangesAhead cfg.dir)
    {target last : Nat} (htarget : target < Nat.pow 2 32) (hlast : last < Nat.pow 2 32)
    (writer : Int) :
    World.EndsWithin (cfg.findChunkFileStep target) walkBound 0 w ∧
      World.EndsWithin (fun st => cfg.openChunkStep writer last st.1 st.2) walkBound (0, []) w := by
  have hbound : Nat.pow 2 32 < walkBound := by
    unfold walkBound
    omega
  constructor
  · -- the truncation walk changes nothing and gets closer to the target at every step
    refine World.walk_ends_of_measure (fun _ w₁ => w₁ = w) (fun n => target + 1 - n) ?_
      walkBound 0 w rfl (by omega)
    rintro n w₁ m w₂ rfl h
    obtain ⟨rfl, hlt, hle⟩ := findChunkFileStep_advances hw h
    exact ⟨rfl, by omega⟩
  · -- the loading walk keeps the ranges ahead and gets closer to the last chunk at every step
    refine World.walk_ends_of_measure (fun _ w₁ => w₁.disk.RangesAhead cfg.dir)
      (fun st => last + 1 - st.1) ?_ walkBound (0, []) w hw (by dsimp only; omega)
    rintro ⟨n, cs⟩ w₁ ⟨m, cs'⟩ w₂ hr h
    obtain ⟨hr', hlt, hle⟩ := openChunkStep_advances hr h
    exact ⟨hr', by dsimp only; omega⟩

/-- A directory of two chunk files: a scavenged chunk merging chunks 0 and 1, then chunk 2. -/
def twoChunkFiles : Disk where
  files := #[
    { runs := [(0, (ChunkHeader.encode
        ⟨ChunkHeader.currentVersion, 4096, 0, 1, true, ⟨1⟩, 0⟩).toByteArray)],
      size := chunkHeaderSize },
    { runs := [(0, (ChunkHeader.encode
        ⟨ChunkHeader.currentVersion, 4096, 2, 2, false, ⟨2⟩, 0⟩).toByteArray)],
      size := chunkHeaderSize }]
  names := [("db", ChunkFileName.ofParts 0 1, 0), ("db", ChunkFileName.ofParts 2 0, 1)]

/-- Opening a directory whose first file merges chunks 0 and 1: its headers read, and both walks,
up to chunk 2, end. -/
theorem opening_walks_end_on_merged_chunk :
    twoChunkFiles.HeaderIs "db" (ChunkFileName.ofParts 0 1)
      ⟨ChunkHeader.currentVersion, 4096, 0, 1, true, ⟨1⟩, 0⟩ ∧
    twoChunkFiles.HeaderIs "db" (ChunkFileName.ofParts 2 0)
      ⟨ChunkHeader.currentVersion, 4096, 2, 2, false, ⟨2⟩, 0⟩ ∧
    ({ disk := twoChunkFiles } : World).disk.RangesAhead "db" ∧ 2 < Nat.pow 2 32 ∧
      2 < Nat.pow 2 32 ∧
      World.EndsWithin (DbConfig.findChunkFileStep ⟨"db", 4096, default, true⟩ 2)
        DbConfig.walkBound 0 { disk := twoChunkFiles } ∧
      World.EndsWithin
        (fun st => DbConfig.openChunkStep ⟨"db", 4096, default, true⟩ 8192 2 st.1 st.2)
        DbConfig.walkBound (0, []) { disk := twoChunkFiles } := by
  have hr : twoChunkFiles.RangesAhead "db" := Disk.rangesAhead_of_check (by decide +kernel)
  exact ⟨⟨0, by decide +kernel, by decide +kernel, [], by decide +kernel⟩,
    ⟨1, by decide +kernel, by decide +kernel, [], by decide +kernel⟩, hr, by decide, by decide,
    opening_walks_end ⟨"db", 4096, default, true⟩ { disk := twoChunkFiles } hr (by decide)
      (by decide) 8192⟩

end EventStore
