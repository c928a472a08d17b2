import EventStore.Proofs.Store.DurableWrites

/-!
# Closing a durable log and opening it again

A durable log (`Durable`) is closed and opened again from its files alone (`Store.reopen`): closing
makes the checkpoints durable and leaves the chunks as they are (`Durable.runs_close`), so the log
is stored for reopening (`Stored`); loading walks the chunk files in order and opens each one
again, a completed one checked against its hash and the active one from the writer checkpoint
(`Stored.runs_openChunkStep`, `Stored.runs_walk`, `Stored.runs_loadChunks`); and the writer opened
at the writer checkpoint stands on the last chunk (`Stored.runs_openWriter`). The log is then
durable with the plan it had (`Durable.runs_reopen`), so flushed writes after the reopen go where
they go on a writer that was never closed (`writes_across_reopen_match_one_writer`).

The writer checkpoint must lie inside the last chunk, with room left in it: a log whose last chunk
is exactly full stands on the boundary, and opening it takes the next chunk for the writer's.
-/

namespace EventStore

open Store

theorem perm_insertBy {α : Type} (le : α → α → Bool) (a : α) (l : List α) :
    (insertBy le a l).Perm (a :: l) := by
  induction l with
  | nil => exact List.Perm.refl _
  | cons b bs ih =>
    unfold insertBy
    split
    · exact List.Perm.refl _
    · exact (ih.cons b).trans (List.Perm.swap a b bs)

/-- Sorting by insertion reorders a list. -/
theorem perm_sortBy {α : Type} (le : α → α → Bool) (l : List α) : (sortBy le l).Perm l := by
  induction l with
  | nil => exact List.Perm.refl _
  | cons a as ih => exact (perm_insertBy le a _).trans (ih.cons a)

theorem Runs.pure_of_eq {σ ε α : Type} {a b : α} (h : a = b) (s : σ) :
    Runs (Pure.pure a : ExceptT (Fault ε) (StateM σ) α) s b s := h ▸ Runs.pure a s

/-- A name that finds a file is listed in its directory. -/
theorem Disk.mem_list_of_find? {d : Disk} {dir name : String} {f : Nat}
    (h : d.find? dir name = some f) : name ∈ (d.list dir).map Prod.fst := by
  unfold Disk.find? at h
  obtain ⟨⟨dr, n, g⟩, hfind, -⟩ := Option.map_eq_some_iff.1 h
  have hmem := List.mem_of_find?_eq_some hfind
  have hsel := List.find?_some hfind
  simp only [Bool.and_eq_true, beq_iff_eq] at hsel
  obtain ⟨rfl, rfl⟩ := hsel
  exact List.mem_map.2 ⟨(n, g), List.mem_filterMap.2 ⟨_, hmem, by simp⟩, rfl⟩

/-- A list without repeats whose members are `x` when `p` holds, and nothing otherwise, is `[x]` or
empty. -/
theorem List.eq_of_nodup_of_mem_iff {α : Type} {l : List α} {x : α} {p : Prop} [Decidable p]
    (hl : l.Nodup) (h : ∀ y, y ∈ l ↔ p ∧ y = x) : l = if p then [x] else [] := by
  split
  · rename_i hp
    refine List.perm_singleton.1 ((List.perm_ext_iff_of_nodup hl (List.pairwise_singleton _ x)).2 ?_)
    intro y
    rw [h, List.mem_singleton]
    exact ⟨And.right, fun hy => ⟨hp, hy⟩⟩
  · rename_i hp
    exact List.eq_nil_iff_forall_not_mem.2 fun y hy => hp ((h y).1 hy).1

namespace Chunk

/-- A kept chunk's name finds its file. -/
theorem Kept.find? {dir : String} {cap : Nat} {d : Disk} {data : ByteArray} {c : Chunk}
    (hk : Kept dir cap d data c) : d.find? dir c.name = some c.file := by
  cases hk with
  | sealed _ hs => exact hs.found
  | active _ hw _ => exact hw.found

end Chunk

/-- The entries of the names that read as chunk files, each with its number and version: among
names without repeats no entry comes twice, and each such name has its entry. -/
theorem chunkEntries_spec {names : List String} (hnd : names.Nodup) :
    (names.filterMap fun name => (ChunkFileName.parse? name).map fun x => (x.1, x.2, name)).Nodup ∧
      ∀ e, e ∈ names.filterMap (fun name => (ChunkFileName.parse? name).map fun x => (x.1, x.2, name)) ↔
        e.2.2 ∈ names ∧ ChunkFileName.parse? e.2.2 = some (e.1, e.2.1) := by
  refine ⟨List.Pairwise.filterMap _ (fun a a' hne b hb b' hb' heq => hne ?_) hnd, fun e => ?_⟩
  · rw [List.mem_filterMap]
    constructor
    · rintro ⟨name, hname, he⟩
      obtain ⟨⟨k, v⟩, hp, rfl⟩ := Option.map_eq_some_iff.1 he
      exact ⟨hname, hp⟩
    · rintro ⟨hname, hp⟩
      exact ⟨e.2.2, hname, by rw [hp]; rfl⟩
  · simp only [Option.map_eq_some_iff] at hb hb'
    obtain ⟨⟨k, v⟩, -, rfl⟩ := hb
    obtain ⟨⟨k', v'⟩, -, rfl⟩ := hb'
    exact congrArg (fun e => e.2.2) heq

/-- The versions of chunk `n` in a directory that lists each name once and whose chunk file names
are exactly those of the numbers below `N`, each at version 0: the one file of `n`, or none. -/
theorem DbConfig.runs_versionsFor_of_iff {ε : Type} {cfg : DbConfig} {w : World} {N : Nat}
    (hnd : ((w.disk.list cfg.dir).map Prod.fst).Nodup)
    (hiff : ∀ name n v, (name ∈ (w.disk.list cfg.dir).map Prod.fst ∧
      ChunkFileName.parse? name = some (n, v)) ↔ n < N ∧ v = 0 ∧ name = ChunkFileName.ofParts n 0)
    (n : Nat) :
    Runs (cfg.versionsFor n : WorldM ε (List (Nat × String))) w
      (if n < N then [(0, ChunkFileName.ofParts n 0)] else []) w := by
  unfold DbConfig.versionsFor DbConfig.chunkFiles
  refine Runs.bind (Runs.bind (World.runs_currentDisk w) (Runs.pure _ _)) ?_
  refine Runs.pure_of_eq ?_ w
  -- the listed names, then those that read as chunk files, with number and version
  obtain ⟨hFnd, hFmem⟩ := chunkEntries_spec hnd
  generalize List.filterMap (fun name => Option.map (fun x => (x.1, x.2, name))
    (ChunkFileName.parse? name)) ((w.disk.list cfg.dir).map Prod.fst) = F at hFnd hFmem ⊢
  -- the versions of chunk `n` are read off the sorted entries: its one file, or none
  refine List.eq_of_nodup_of_mem_iff ?_ ?_
  · refine (perm_sortBy _ _).nodup_iff.2 (List.Pairwise.filterMap _ ?_
      ((perm_sortBy _ F).nodup_iff.2 hFnd))
    rintro ⟨k, v, nm⟩ ⟨k', v', nm'⟩ hne b hb b' hb' rfl
    simp only [Option.ite_none_right_eq_some, Option.some.injEq] at hb hb'
    obtain ⟨rfl, rfl⟩ := hb
    obtain ⟨rfl, hb'⟩ := hb'
    obtain ⟨rfl, rfl⟩ := Prod.mk.inj hb'
    exact hne rfl
  · rintro ⟨v, name⟩
    rw [mem_sortBy, List.mem_filterMap]
    constructor
    · rintro ⟨⟨k, v', nm⟩, he, hsel⟩
      rw [mem_sortBy, hFmem] at he
      dsimp only at he
      simp only [Option.ite_none_right_eq_some, Option.some.injEq, Prod.mk.injEq] at hsel
      obtain ⟨hk, hv, hname⟩ := hsel
      subst hk hv hname
      obtain ⟨hn, hv0, hnm⟩ := (hiff _ _ _).1 he
      exact ⟨hn, by rw [hv0, hnm]⟩
    · rintro ⟨hn, hy⟩
      obtain ⟨rfl, rfl⟩ := Prod.mk.inj hy
      refine ⟨(n, 0, ChunkFileName.ofParts n 0), ?_, by simp⟩
      rw [mem_sortBy, hFmem]
      exact (hiff _ _ _).2 ⟨hn, rfl, rfl⟩

namespace Filed

variable {dir : String} {cs : Nat} {cps : Checkpoints} {chunks : List Chunk} {d : Disk}
  {plan : List (List Record)}

/-- The chunk files a filed directory lists: one file for each chunk, at version 0, named for its
place, when there are at most a million chunks and every such name reads back. -/
theorem chunkName_iff (hf : Filed dir cs cps chunks d plan) (hmax : chunks.length ≤ 1000000)
    (name : String) (n v : Nat) :
    (name ∈ (d.list dir).map Prod.fst ∧ ChunkFileName.parse? name = some (n, v)) ↔
      n < chunks.length ∧ v = 0 ∧ name = ChunkFileName.ofParts n 0 := by
  constructor
  · rintro ⟨hmem, hparse⟩
    obtain ⟨⟨nm, g⟩, hp, rfl⟩ := List.mem_map.1 hmem
    rcases (hf.listed _ hp).2 with hnone | ⟨i, hi, rfl⟩
    · rw [hnone] at hparse
      cases hparse
    · rw [ChunkFileName.parse?_ofParts, if_pos ⟨by omega, by decide⟩] at hparse
      obtain ⟨rfl, rfl⟩ := Prod.mk.inj (Option.some.inj hparse)
      exact ⟨hi, rfl, rfl⟩
  · rintro ⟨hn, rfl, rfl⟩
    refine ⟨?_, ?_⟩
    · have hfind := (hf.kept n hn).find?
      rw [hf.named n hn] at hfind
      exact Disk.mem_list_of_find? hfind
    · rw [ChunkFileName.parse?_ofParts, if_pos ⟨by omega, by decide⟩]

/-- Reopening finds one version of each chunk's file, version 0 under the name of its place, and
none of any later chunk. -/
theorem runs_versionsFor {ε : Type} {cfg : DbConfig} {w : World}
    (hf : Filed cfg.dir cs cps chunks w.disk plan) (hmax : chunks.length ≤ 1000000) (n : Nat) :
    Runs (cfg.versionsFor n : WorldM ε (List (Nat × String))) w
      (if n < chunks.length then [(0, ChunkFileName.ofParts n 0)] else []) w :=
  DbConfig.runs_versionsFor_of_iff hf.distinct (hf.chunkName_iff hmax) n

end Filed

namespace Chunk

variable {dir name : String} {h : ChunkHeader} {cap : Nat} {c : Chunk} {w : World}
  {data : ByteArray}

/-- An active chunk's file, of the full size of an active chunk and with a header that fits and
is not scavenged, reopens with the data size it is given as a chunk writing on where the data ends,
its hash taken over the header and the data again; the world is left as it was. -/
theorem Writing.openExisting (hw : Writing dir name h cap c w.disk data) (hh : h.Fits)
    (hscav : h.isScavenged = false)
    (hsize : w.disk.size c.file = chunkHeaderSize + cap + chunkHeaderSize) (handle : Nat) :
    ∃ c', Runs (Chunk.openExisting dir name (some data.size) handle) w c' w ∧
      c'.handle = handle ∧ c'.file = c.file ∧ Writing dir name h cap c' w.disk data := by
  have hroom := hw.room
  have hhead : (w.disk.file c.file).slice 0 chunkHeaderSize = h.encode.toByteArray := by
    rw [← size_header_toByteArray h]
    exact hw.shows.slice_prefix
  have hpre : (w.disk.file c.file).slice 0 (chunkHeaderSize + data.size - 0) =
      h.encode.toByteArray ++ data := by
    have hsh : (w.disk.file c.file).Shows (h.encode.toByteArray ++ data ++ ByteArray.empty) := by
      rw [ByteArray.append_empty]
      exact hw.shows
    rw [Nat.sub_zero, ← size_header_toByteArray h, ← ByteArray.size_append]
    exact hsh.slice_prefix
  refine ⟨{ handle, name, header := h, file := c.file, physicalDataSize := data.size,
              work := some ⟨chunkHeaderSize + data.size,
                ({} : Sha256).update (h.encode.toByteArray ++ data)⟩ }, ?_, rfl, rfl, ?_⟩
  · unfold Chunk.openExisting
    refine Runs.bind (World.runs_diskTry (runs_openFile hw.found)) ?_
    refine Runs.bind (World.runs_currentDisk w) ?_
    dsimp only
    rw [if_neg (by omega)]
    refine Runs.bind (runs_readHeaderOf hh (by omega) hhead name) ?_
    refine Runs.bind hw.tryReadFooter_none ?_
    dsimp only
    rw [if_neg (by rw [hscav]; decide)]
    refine Runs.bind (runs_capacityOf hw.capacity w) ?_
    rw [if_neg (by omega)]
    refine Runs.bind (Runs.bind (runs_capacityOf hw.capacity w) (Runs.pure _ _)) ?_
    rw [if_neg (by omega)]
    refine Runs.bind (runs_hashRange (Nat.zero_le _) (by omega) hpre {}) ?_
    exact Runs.pure _ _
  · -- the hash taken again has taken in the header and the data, as the running one had
    have habs := Sha256.absorbed_empty.update (h.encode.toByteArray ++ data)
    rw [ByteArray.empty_append] at habs
    exact { hw with
      name_eq := rfl
      header_eq := rfl
      dataSize := rfl
      footer := rfl
      work := ⟨_, rfl, rfl, habs⟩ }

end Chunk

namespace DbConfig

variable {ε : Type}

/-- On a directory with no temporary file, removing the temporary files changes nothing. -/
theorem runs_removeTempFiles (cfg : DbConfig) {w : World}
    (h : ∀ p ∈ w.disk.list cfg.dir, p.1.endsWith ChunkFileName.tempSuffix = false) :
    Runs (cfg.removeTempFiles : WorldM ε Unit) w () w := by
  unfold removeTempFiles
  refine Runs.bind (World.runs_currentDisk w) (Runs.bind (v := PUnit.unit) ?_ (Runs.pure _ _))
  generalize w.disk.list cfg.dir = l at h
  -- every visit finds a name that is not a temporary file's, and goes on
  induction l with
  | nil => exact Runs.pure _ _
  | cons p l ih =>
    rw [List.forIn_cons]
    obtain ⟨n, f⟩ := p
    have hn : n.endsWith ChunkFileName.tempSuffix = false := h _ List.mem_cons_self
    refine Runs.bind (v := ForInStep.yield PUnit.unit) ?_
      (ih fun p hp => h p (List.mem_cons_of_mem _ hp))
    dsimp only
    rw [if_neg (by rw [hn]; decide)]
    exact Runs.pure _ _

end DbConfig

/-! ## Chunks reopened -/

namespace Chunk

/-- Chunk `c` as reopening finds it again in its file: the same name, header, file, data size and
footer, and, when active, writing on where its data ends. -/
structure Reopens (c c' : Chunk) : Prop where
  name : c'.name = c.name
  header : c'.header = c.header
  file : c'.file = c.file
  dataSize : c'.physicalDataSize = c.physicalDataSize
  footer : c'.footer = c.footer
  work : c'.isCompleted = false →
    ∃ wk, c'.work = some wk ∧ wk.position = chunkHeaderSize + c'.physicalDataSize

theorem Reopens.isCompleted {c c' : Chunk} (h : Reopens c c') : c'.isCompleted = c.isCompleted := by
  unfold Chunk.isCompleted
  rw [h.footer]

end Chunk

/-- A chunk reopened holds the records the chunk held. -/
theorem ChunkHolds.reopen {cs i : Nat} {d : Disk} {rs : List Record} {c c' : Chunk}
    (h : ChunkHolds cs d i rs c) (hr : c.Reopens c') : ChunkHolds cs d i rs c' where
  start := by rw [hr.header]; exact h.start
  stop := by rw [hr.header]; exact h.stop
  unscavenged := by rw [hr.header]; exact h.unscavenged
  chunkSize := by rw [hr.header]; exact h.chunkSize
  dataSize := by rw [hr.dataSize]; exact h.dataSize
  room := by rw [hr.dataSize]; exact h.room
  placed := h.placed
  bytes := by rw [hr.file]; exact h.bytes
  fileSize := by rw [hr.file, hr.dataSize]; exact h.fileSize
  fileExists := by rw [hr.file]; exact h.fileExists
  active := hr.work

/-! ## Opening the chunks of a stored log -/

/-- A log as a closed database leaves it for reopening: configuration `cfg`, chunks `chunks` on
world `w`, laid out as `plan` and filed, at most a million of them, the last one active, and the
writer checkpoint flushed where the last chunk's data ends, with room left in that chunk. -/
structure Stored (cfg : DbConfig) (chunks : List Chunk) (w : World) (plan : List (List Record)) :
    Prop where
  laid : Laid cfg.chunkSize cfg.dir chunks w plan
  filed : Filed cfg.dir cfg.chunkSize cfg.checkpoints chunks w.disk plan
  few : chunks.length ≤ 1000000
  ne_nil : plan ≠ []
  active : ∀ c ∈ chunks.getLast?, c.isCompleted = false
  writer : cfg.checkpoints.writer.read = planEnd cfg.chunkSize plan
  flushed : cfg.checkpoints.writer.last = cfg.checkpoints.writer.read
  room : (Record.frames (plan.getLastD [])).length < cfg.chunkSize
  chaser : cfg.checkpoints.chaser.read ≤ cfg.checkpoints.writer.read
  truncate : cfg.checkpoints.truncate.read < 0

namespace Stored

variable {cfg : DbConfig} {chunks : List Chunk} {w₀ : World} {plan : List (List Record)}

/-- A stored log has a chunk. -/
theorem length_pos (hs : Stored cfg chunks w₀ plan) : 0 < chunks.length := by
  rw [hs.laid.length]
  exact List.length_pos_of_ne_nil hs.ne_nil

/-- The number after a stored chunk's fits 32 bits: there are at most a million chunks. -/
theorem succ_lt_pow {n : Nat} (hs : Stored cfg chunks w₀ plan) (hn : n < chunks.length) :
    n + 1 < Nat.pow 2 32 := by
  have := hs.few
  have h32 : 1000000 < Nat.pow 2 32 := by decide
  omega

/-- One step of the walk at chunk `n`, on a world with the stored disk, opens chunk `n` again from
its file, under the next fresh handle, and goes on at chunk `n + 1`. -/
theorem runs_openChunkStep (hs : Stored cfg chunks w₀ plan) {w : World} (hd : w.disk = w₀.disk)
    {n : Nat} (hn : n < chunks.length) {cs : List Chunk} (hnum : ChunkList.Numbered cs)
    (hlen : cs.length = n) :
    ∃ c', Runs (cfg.openChunkStep cfg.checkpoints.writer.read (chunks.length - 1) n cs) w
        (.inl (n + 1, cs ++ [c'])) { w with fresh := w.fresh + 1 } ∧
      c'.handle = w.fresh ∧ chunks[n].Reopens c' ∧
      Chunk.Kept cfg.dir cfg.chunkSize w₀.disk (Bytes.toByteArray (Record.frames (plan.getD n []))) c' := by
  have hf : Filed cfg.dir cfg.chunkSize cfg.checkpoints chunks w.disk plan := hd ▸ hs.filed
  have hholds := hs.laid.holds n hn (hs.laid.length ▸ hn)
  have hkept := hf.kept n hn
  have hname := hs.filed.named n hn
  have hdata : (Bytes.toByteArray (Record.frames (plan.getD n []))).size =
      chunks[n].physicalDataSize := by
    rw [hholds.dataSize, Bytes.size_toByteArray, List.getD_eq_getElem?_getD,
      List.getElem?_eq_getElem (hs.laid.length ▸ hn), Option.getD_some]
  -- a chunk of the header of chunk `n` is added after the chunks opened before, and the walk goes
  -- on at the next chunk
  have hnext : ∀ c : Chunk, c.header = chunks[n].header →
      Runs (pure (.inl (Word.nextChunk c.header.chunkEndNumber, (ChunkList.add cs c).2)) :
          WorldM DbError ((Nat × List Chunk) ⊕ List Chunk))
        { w with fresh := w.fresh + 1 } (.inl (n + 1, cs ++ [c])) { w with fresh := w.fresh + 1 } := by
    intro c hc
    refine Runs.pure_of_eq ?_ _
    rw [hc, hholds.stop, Word.nextChunk_of_lt (hs.succ_lt_pow hn),
      ChunkList.add_numbered hnum (by rw [hc, hholds.start, hlen]) (by rw [hc, hholds.stop, hlen])]
  rcases Nat.lt_or_ge (n + 1) chunks.length with hlt | hge
  · -- a chunk before the last is sealed: opened as it was completed, its hash checked
    obtain ⟨f, hfoot, hsealed⟩ := hkept.sealed_of_completed (hf.completed n hlt)
    rw [hname] at hsealed
    obtain ⟨c', hopen, hc'⟩ : ∃ c', Runs (Chunk.openExisting cfg.dir (ChunkFileName.ofParts n 0) none
        w.fresh) { w with fresh := w.fresh + 1 } c' { w with fresh := w.fresh + 1 } ∧
        c' = { handle := w.fresh, name := ChunkFileName.ofParts n 0, header := chunks[n].header,
               file := chunks[n].file, footer := some f,
               physicalDataSize := (Bytes.toByteArray (Record.frames (plan.getD n []))).size } :=
      ⟨_, hsealed.openExisting (w := { w with fresh := w.fresh + 1 }) none w.fresh, rfl⟩
    have hhead : c'.header = chunks[n].header := by rw [hc']
    have hcomp : c'.isCompleted = true := by rw [hc']; rfl
    -- the chunk's range is its own number, so it does not hold the writer's chunk
    have hcov : ¬ (c'.header.covers (chunks.length - 1) = true) := by
      simp only [ChunkHeader.covers, hhead, hholds.start, hholds.stop, Bool.and_eq_true,
        decide_eq_true_eq]
      omega
    refine ⟨c', ?_, by rw [hc'], ?_, ?_⟩
    · unfold DbConfig.openChunkStep
      rw [if_neg (by omega)]
      refine Runs.bind (hf.runs_versionsFor hs.few n) ?_
      rw [if_pos hn]
      dsimp only
      refine Runs.bind (Runs.pure _ _) ?_
      rw [if_neg (by omega)]
      refine Runs.bind (Runs.pure _ _) ?_
      refine Runs.bind (World.runs_freshNat w) ?_
      refine Runs.bind hopen ?_
      rw [if_neg (fun h => h (hhead ▸ hholds.start)), if_pos hcomp, if_neg hcov]
      split
      · refine Runs.bind (hsealed.verifyHash (w := { w with fresh := w.fresh + 1 })
          (by rw [hc']) (by rw [hc'])) ?_
        exact hnext c' hhead
      · exact hnext c' hhead
    · refine ⟨by rw [hc', hname], hhead, by rw [hc'], by rw [hc', hdata], by rw [hc', hfoot], ?_⟩
      rw [hcomp]
      intro h
      cases h
    · rw [← hd]
      refine .sealed (f := f) (by rw [hc']) ?_
      rw [hc']
      exact hsealed
  · -- the last chunk is active: opened with the data up to the flushed writer checkpoint
    have hlast : n = chunks.length - 1 := by omega
    have hact : chunks[n].isCompleted = false := hs.active _ (by
      rw [List.getLast?_eq_getElem?, ← hlast]
      exact List.getElem?_eq_getElem hn)
    obtain ⟨hh, hw, hsize⟩ := hkept.writing_of_active hact
    rw [hname] at hw
    -- the writer checkpoint stands where the data of the chunk ends
    have hplan : plan.getLastD [] = plan.getD n [] := by
      rw [List.getLastD_eq_getLast?, List.getLast?_eq_getElem?, List.getD_eq_getElem?_getD,
        ← hs.laid.length, ← hlast]
    have hat : (cfg.checkpoints.writer.read - (n : Int) * (cfg.chunkSize : Int)).toNat =
        (Bytes.toByteArray (Record.frames (plan.getD n []))).size := by
      rw [hs.writer, planEnd, ← hs.laid.length, ← hlast, hplan, Bytes.size_toByteArray]
      omega
    obtain ⟨c', hopen, hhandle, hfile, hw'⟩ := hw.openExisting (w := { w with fresh := w.fresh + 1 })
      hh hholds.unscavenged hsize w.fresh
    have hcomp : c'.isCompleted = false := by
      unfold Chunk.isCompleted
      rw [hw'.footer]
      rfl
    refine ⟨c', ?_, hhandle, ?_, ?_⟩
    · unfold DbConfig.openChunkStep
      rw [if_neg (by omega)]
      refine Runs.bind (hf.runs_versionsFor hs.few n) ?_
      rw [if_pos hn]
      dsimp only
      refine Runs.bind (Runs.pure _ _) ?_
      rw [if_pos hlast, if_pos (by rw [hs.writer, planEnd, ← hs.laid.length, ← hlast]; omega)]
      refine Runs.bind (Runs.pure _ _) ?_
      rw [hat]
      refine Runs.bind (World.runs_freshNat w) ?_
      refine Runs.bind hopen ?_
      rw [if_neg (fun h => h (hw'.header_eq ▸ hholds.start)), if_neg (by rw [hcomp]; decide)]
      exact hnext c' hw'.header_eq
    · obtain ⟨wk, hwk, hpos, -⟩ := hw'.work
      refine ⟨hw'.name_eq.trans hname.symm, hw'.header_eq, hfile, hw'.dataSize.trans hdata,
        hw'.footer.trans hw.footer.symm, fun _ => ⟨wk, hwk, by rw [hpos, hw'.dataSize]⟩⟩
    · rw [← hd]
      refine .active (by rw [hw'.header_eq]; exact hh) ?_ (by rw [hfile]; exact hsize)
      rw [hw'.name_eq, hw'.header_eq]
      exact hw'

/-- The chunks opened so far by the walk: `cs` is the first `cs.length` chunks of `chunks` opened
again, chunk `j` under handle `fresh + j`, each kept on disk `d` with the data the plan gives it. -/
structure Reopened (cfg : DbConfig) (plan : List (List Record)) (chunks : List Chunk) (d : Disk)
    (fresh : Nat) (cs : List Chunk) : Prop where
  length_le : cs.length ≤ chunks.length
  handle : ∀ j (h : j < cs.length), cs[j].handle = fresh + j
  reopens : ∀ j (h : j < cs.length) (h' : j < chunks.length), chunks[j].Reopens cs[j]
  kept : ∀ j (h : j < cs.length),
    Chunk.Kept cfg.dir cfg.chunkSize d (Bytes.toByteArray (Record.frames (plan.getD j []))) cs[j]

/-- The chunks opened so far are numbered by their places, as the stored ones are. -/
theorem Reopened.numbered (hs : Stored cfg chunks w₀ plan) {d : Disk} {fresh : Nat}
    {cs : List Chunk} (hr : Reopened cfg plan chunks d fresh cs) :
    ChunkList.Numbered cs := fun j hj => by
  rw [(hr.reopens j hj (by have := hr.length_le; omega)).header]
  exact hs.laid.numbered j _

/-- The walk opens the chunks in order: after `i` steps it stands at chunk `i` with the first `i`
chunks opened again, on the stored disk, `i` fresh handles drawn. -/
theorem runs_walk_prefix (hs : Stored cfg chunks w₀ plan) :
    ∀ i ≤ chunks.length, ∃ cs w,
      (∀ fuel, (ExceptT.run (World.walk (fun st => cfg.openChunkStep cfg.checkpoints.writer.read
          (chunks.length - 1) st.1 st.2) (fuel + i) (0, []))).run w₀ =
        (ExceptT.run (World.walk (fun st => cfg.openChunkStep cfg.checkpoints.writer.read
          (chunks.length - 1) st.1 st.2) fuel (i, cs))).run w) ∧
      cs.length = i ∧ w.disk = w₀.disk ∧ w.fresh = w₀.fresh + i ∧
      Reopened cfg plan chunks w₀.disk w₀.fresh cs := by
  intro i
  induction i with
  | zero =>
    intro _
    exact ⟨[], w₀, fun _ => rfl, rfl, rfl, rfl, ⟨Nat.zero_le _, nofun, nofun, nofun⟩⟩
  | succ i ih =>
    intro hi
    obtain ⟨cs, w, hwalk, hlen, hd, hfresh, hr⟩ := ih (by omega)
    obtain ⟨c', hstep, hhandle, hre, hkept⟩ :=
      hs.runs_openChunkStep hd (by omega) (hr.numbered hs) hlen
    refine ⟨cs ++ [c'], { w with fresh := w.fresh + 1 }, fun fuel => ?_, by simp [hlen], hd,
      by simp only; omega, ⟨by simp; omega, fun j hj => ?_, fun j hj hj' => ?_, fun j hj => ?_⟩⟩
    · rw [show fuel + (i + 1) = fuel + 1 + i by omega, hwalk (fuel + 1)]
      exact World.walk_succ_of_runs hstep fuel
    all_goals
      rw [List.length_append, List.length_singleton] at hj
      rcases Nat.lt_or_ge j cs.length with hj₁ | hj₁
    · rw [List.getElem_append_left hj₁]
      exact hr.handle j hj₁
    · obtain rfl : j = cs.length := by omega
      rw [List.getElem_concat_length rfl, hhandle, hfresh, hlen]
    · rw [List.getElem_append_left hj₁]
      exact hr.reopens j hj₁ hj'
    · obtain rfl : j = cs.length := by omega
      rw [List.getElem_concat_length rfl]
      simpa [hlen] using hre
    · rw [List.getElem_append_left hj₁]
      exact hr.kept j hj₁
    · obtain rfl : j = cs.length := by omega
      rw [List.getElem_concat_length rfl]
      simpa [hlen] using hkept

/-- The walk over a stored log opens every chunk again and ends past the last one, well within
the steps it is given. -/
theorem runs_walk (hs : Stored cfg chunks w₀ plan) :
    ∃ cs w, Runs (World.walk (fun st => cfg.openChunkStep cfg.checkpoints.writer.read
        (chunks.length - 1) st.1 st.2) DbConfig.walkBound (0, [])) w₀ (some cs) w ∧
      cs.length = chunks.length ∧ w.disk = w₀.disk ∧ w.fresh = w₀.fresh + chunks.length ∧
      Reopened cfg plan chunks w₀.disk w₀.fresh cs := by
  obtain ⟨cs, w, hwalk, hlen, hd, hfresh, hr⟩ := hs.runs_walk_prefix chunks.length (Nat.le_refl _)
  refine ⟨cs, w, ?_, hlen, hd, hfresh, hr⟩
  have hbound : DbConfig.walkBound = (DbConfig.walkBound - chunks.length - 1) + 1 + chunks.length := by
    have := hs.few
    have h : 1000000 < DbConfig.walkBound := by decide
    omega
  unfold Runs
  rw [hbound, hwalk]
  -- past the last chunk the walk ends with the chunks opened
  refine Runs.bind (v := .inr cs) ?_ (Runs.pure _ _)
  show Runs (cfg.openChunkStep cfg.checkpoints.writer.read (chunks.length - 1) chunks.length cs) w
    (.inr cs) w
  have hpos := hs.length_pos
  unfold DbConfig.openChunkStep
  rw [if_pos (by omega)]
  exact Runs.pure _ _

/-- The end of a stored log lies in its last chunk: the last chunk has room left. -/
theorem end_div (hs : Stored cfg chunks w₀ plan) :
    ((plan.length - 1) * cfg.chunkSize + (Record.frames (plan.getLastD [])).length) /
      cfg.chunkSize = chunks.length - 1 := by
  have hpos : 0 < plan.length := List.length_pos_of_ne_nil hs.ne_nil
  have hroom := hs.room
  rw [hs.laid.length]
  refine Nat.div_eq_of_lt_le (Nat.le_add_right _ _) ?_
  rw [Nat.succ_mul]
  omega

/-- The chunk number of the end of a stored log fits 32 bits. -/
theorem end_div_lt (hs : Stored cfg chunks w₀ plan) :
    ((plan.length - 1) * cfg.chunkSize + (Record.frames (plan.getLastD [])).length) /
      cfg.chunkSize < Nat.pow 2 32 := by
  rw [hs.end_div, hs.laid.length]
  have := hs.laid.numbers
  have h32 : 0 < Nat.pow 2 32 := by decide
  omega

/-- The writer checkpoint of a stored log lies in its last chunk. -/
theorem returns_writerChunk (hs : Stored cfg chunks w₀ plan) (w : World) :
    Returns (cfg.chunkNumberOf cfg.checkpoints.writer.read : WorldM DbError Nat) w
      (chunks.length - 1) := by
  have h := DbConfig.returns_chunkNumberOf (ε := DbError) cfg hs.laid.chunkSize_pos hs.end_div_lt w
  rw [hs.end_div] at h
  rw [hs.writer]
  exact h

/-- Loading the chunks of a stored log removes no file and creates none: it opens every chunk
again, in order, on the disk as it was. -/
theorem runs_loadChunks (hs : Stored cfg chunks w₀ plan) :
    ∃ cs w, Runs (cfg.loadChunks) w₀ cs w ∧ cs.length = chunks.length ∧ w.disk = w₀.disk ∧
      w.fresh = w₀.fresh + chunks.length ∧
      Reopened cfg plan chunks w₀.disk w₀.fresh cs := by
  obtain ⟨cs, w, hwalk, hlen, hd, hfresh, hr⟩ := hs.runs_walk
  refine ⟨cs, w, ?_, hlen, hd, hfresh, hr⟩
  have hpos := hs.length_pos
  unfold DbConfig.loadChunks
  refine Runs.bind (cfg.runs_removeTempFiles fun p hp => (hs.filed.listed p hp).1) ?_
  refine Runs.bind (Runs.of_returns (hs.returns_writerChunk w₀)) ?_
  -- no file of the chunk after the writer's
  refine Runs.bind (hs.filed.runs_versionsFor hs.few _) ?_
  have hnext : chunks.length - 1 + 1 < Nat.pow 2 32 := hs.succ_lt_pow (by omega)
  have hafter : ¬ chunks.length - 1 + 1 < chunks.length := by omega
  rw [Word.nextChunk_of_lt hnext, if_neg hafter]
  refine Runs.bind hwalk ?_
  -- the writer's chunk is the last one opened
  have hnum := hr.numbered hs
  dsimp only
  rw [if_pos (by rw [ChunkList.get?_numbered hnum, List.getElem?_eq_getElem (by omega)]; rfl)]
  exact Runs.pure _ _

/-- Chunk `j` opened again has the file of stored chunk `j`. -/
theorem Reopened.map_file {d : Disk} {fresh : Nat} {cs : List Chunk}
    (hr : Reopened cfg plan chunks d fresh cs) (hlen : cs.length = chunks.length) :
    cs.map Chunk.file = chunks.map Chunk.file :=
  List.ext_getElem (by simp [hlen]) fun j h₁ h₂ => by
    simp only [List.getElem_map]
    exact (hr.reopens j (by simpa using h₁) (by simpa using h₂)).file

/-- The chunks opened again are laid out as the stored ones were, on the world the walk leaves:
same disk, their handles the ones it drew. -/
theorem Reopened.laid (hs : Stored cfg chunks w₀ plan) {w : World} {cs : List Chunk}
    (hr : Reopened cfg plan chunks w₀.disk w₀.fresh cs)
    (hlen : cs.length = chunks.length) (hd : w.disk = w₀.disk)
    (hfresh : w.fresh = w₀.fresh + chunks.length) : Laid cfg.chunkSize cfg.dir cs w plan where
  chunkSize_pos := hs.laid.chunkSize_pos
  chunkSize_lt := hs.laid.chunkSize_lt
  length := hlen.trans hs.laid.length
  numbers := hs.laid.numbers
  holds i hc hp := by
    rw [hd]
    exact (hs.laid.holds i (hlen ▸ hc) hp).reopen (hr.reopens i hc (hlen ▸ hc))
  full i hc := by
    have hr' := hr.reopens i (by omega) (by omega)
    rw [hr'.isCompleted, hr'.dataSize]
    exact hs.laid.full i (by omega)
  handles := by
    -- the handles are the ones drawn one after another from the world's counter
    have hmap : cs.map Chunk.handle = List.range' w₀.fresh cs.length :=
      List.ext_getElem (by simp) fun j h₁ _ => by
        simp only [List.getElem_map, List.getElem_range']
        rw [hr.handle j (by simpa using h₁), Nat.one_mul]
    rw [hmap]
    exact List.nodup_range'
  fresh c hc := by
    obtain ⟨j, hj, rfl⟩ := List.getElem_of_mem hc
    rw [hr.handle j hj, hfresh]
    omega
  files := by
    rw [hr.map_file hlen]
    exact hs.laid.files
  ordered := hd ▸ hs.laid.ordered
  names m hm := hd ▸ hs.laid.names m hm

/-- The chunks opened again are filed as the stored ones were, on the same disk. -/
theorem Reopened.filed (hs : Stored cfg chunks w₀ plan) {cs : List Chunk}
    (hr : Reopened cfg plan chunks w₀.disk w₀.fresh cs)
    (hlen : cs.length = chunks.length) :
    Filed cfg.dir cfg.chunkSize cfg.checkpoints cs w₀.disk plan where
  completed i h := by
    rw [(hr.reopens i (by omega) (by omega)).isCompleted]
    exact hs.filed.completed i (by omega)
  named i h := by
    rw [(hr.reopens i h (by omega)).name]
    exact hs.filed.named i (by omega)
  kept := hr.kept
  listed p hp := by
    rw [hlen]
    exact hs.filed.listed p hp
  distinct := hs.filed.distinct
  apart st hst f hf := by
    refine ⟨(hs.filed.apart st hst f hf).1, fun c hc => ?_⟩
    have hmem : c.file ∈ chunks.map Chunk.file := by
      rw [← hr.map_file hlen]
      exact List.mem_map_of_mem hc
    obtain ⟨c', hc', heq⟩ := List.mem_map.1 hmem
    rw [← heq]
    exact (hs.filed.apart st hst f hf).2 c' hc'

/-- A stored log has no truncation left to finish. -/
theorem runs_finishTruncation (hs : Stored cfg chunks w₀ plan) (w : World) :
    Runs (ChunkDb.finishTruncation cfg : WorldM DbError DbConfig) w cfg w := by
  unfold ChunkDb.finishTruncation
  rw [if_neg (Int.not_le.2 hs.truncate)]
  exact Runs.pure _ _

/-- Opening the chunks of a stored log goes through: the chaser stands behind the writer. -/
theorem runs_openChunks (hs : Stored cfg chunks w₀ plan) :
    ∃ cs w, Runs (ChunkDb.openChunks cfg) w₀ { config := cfg, chunks := cs } w ∧
      cs.length = chunks.length ∧ w.disk = w₀.disk ∧ w.fresh = w₀.fresh + chunks.length ∧
      Reopened cfg plan chunks w₀.disk w₀.fresh cs := by
  obtain ⟨cs, w, hload, hlen, hd, hfresh, hr⟩ := hs.runs_loadChunks
  refine ⟨cs, w, ?_, hlen, hd, hfresh, hr⟩
  unfold ChunkDb.openChunks
  refine Runs.bind hload ?_
  rw [if_neg (Int.not_lt.2 hs.chaser)]
  exact Runs.pure _ _

/-- The last chunk opened again is active, as the stored one is. -/
theorem Reopened.last (hs : Stored cfg chunks w₀ plan) {d : Disk} {fresh : Nat} {cs : List Chunk}
    (hr : Reopened cfg plan chunks d fresh cs) (hlen : cs.length = chunks.length) :
    ∃ c, cs.getLast? = some c ∧ c.isCompleted = false := by
  have hpos := hs.length_pos
  refine ⟨cs[chunks.length - 1], by simp [List.getLast?_eq_getElem?, hlen], ?_⟩
  · rw [(hr.reopens _ (by omega) (by omega)).isCompleted]
    exact hs.active _ (by rw [List.getLast?_eq_getElem?, List.getElem?_eq_getElem]; rfl)

/-- The writer opened on the chunks opened again stands at the writer checkpoint, where the log
ends, on the last chunk. -/
theorem runs_openWriter {ε : Type} (hs : Stored cfg chunks w₀ plan) {d : Disk} {fresh : Nat}
    {cs : List Chunk} (hr : Reopened cfg plan chunks d fresh cs) (hlen : cs.length = chunks.length)
    {c : Chunk} (hc : cs.getLast? = some c) (hact : c.isCompleted = false) {t : Store}
    (hcfg : t.db.config = cfg) (hch : t.db.chunks = cs) (hpo : t.db.poisoned = false) :
    Runs (openWriter : StoreM ε ChunkWriter) t
      { current := some c.handle, position := planEnd cfg.chunkSize plan } t := by
  have hu : t.Usable := ⟨hcfg ▸ hs.laid.chunkSize_pos, hcfg ▸ hs.laid.chunkSize_lt, hpo⟩
  -- the chunk list gives the last chunk for the writer's chunk number
  have hget : ChunkList.get? t.db.chunks
      (((plan.length - 1) * cfg.chunkSize + (Record.frames (plan.getLastD [])).length) /
        t.db.config.chunkSize) = some c := by
    rw [hcfg, hs.end_div, hch, ChunkList.get?_numbered (hr.numbered hs), ← hlen,
      ← List.getLast?_eq_getElem?]
    exact hc
  have hcp : Runs (writerCheckpoint : StoreM ε Int) t (planEnd cfg.chunkSize plan) t := by
    rw [← hs.writer, ← hcfg]
    rfl
  unfold openWriter
  refine Runs.bind hcp ?_
  refine Runs.bind (Runs.of_returns (hu.returns_getChunkFor (by rw [hcfg]; exact hs.end_div_lt))) ?_
  rw [hget]
  refine Runs.pure_of_eq ?_ t
  simp [Option.filter, hact]
end Stored

/-! ## Closing and opening again -/

namespace Durable

variable {s : Store} {plan : List (List Record)}

/-- Closing a durable log goes through and leaves it stored for reopening: the chunks with their
layout and filing are kept, and every checkpoint is made durable at its written value. The last
chunk must have room left, and the chaser and truncate checkpoints must let an open go through. -/
theorem runs_close {ε : Type} (hd : Durable s plan) (hfew : s.db.chunks.length ≤ 1000000)
    (hroom : (Record.frames (plan.getLastD [])).length < s.db.config.chunkSize)
    (hchaser : s.db.config.checkpoints.chaser.last ≤ s.writer.position)
    (htrunc : s.db.config.checkpoints.truncate.last < 0) :
    ∃ s', Runs (close : StoreM ε Unit) s () s' ∧ Stored s'.db.config s'.db.chunks s'.world plan ∧
      s'.db.config.chunkSize = s.db.config.chunkSize ∧ s'.world.fresh = s.world.fresh := by
  obtain ⟨c, hr⟩ := hd.ready
  have hl := hr.layout
  unfold close
  refine Runs.bind_exists (Runs.pure s s) ?_
  rw [if_neg (by simp [hd.isOpen])]
  refine Runs.bind_exists (Runs.modify _ _) ?_
  refine Runs.bind_exists (runs_chunkList hl.sound) ?_
  refine Runs.bind_exists (runs_flushCheckpointOf _ _ _) ?_
  refine Runs.bind_exists (runs_flushCheckpointOf _ _ _) ?_
  refine Runs.bind_exists (runs_flushCheckpointOf _ _ _) ?_
  refine ⟨_, runs_flushCheckpointOf _ _ _, ⟨?laid, ?filed, hfew, ?ne_nil, ?active, ?writer, ?flushed,
    hroom, ?chaser, ?truncate⟩, rfl, rfl⟩
  case laid => exact (((hl.laid.flush _).flush _).flush _).flush _
  case filed =>
    refine ((((hd.filed.flush ?_).flush ?_).flush ?_).flush ?_).of_stores ?_ <;>
      simp [Checkpoints.stores]
  case ne_nil =>
    -- the writer's chunk is a last chunk
    intro hnil
    have hlen : s.db.chunks.length = 0 := by rw [hl.laid.length, hnil]; rfl
    have hlast := hr.last
    rw [List.getLast?_eq_none_iff.2 (List.length_eq_zero_iff.1 hlen)] at hlast
    cases hlast
  case active =>
    intro c' hc'
    have hlast : s.db.chunks.getLast? = some c' := hc'
    obtain rfl := Option.some.inj (hr.last.symm.trans hlast)
    exact hr.active
  case writer =>
    rw [(Checkpoint.flush_spec _ _).2.2, hl.written, hd.position]
  case flushed =>
    rw [(Checkpoint.flush_spec _ _).2.1, (Checkpoint.flush_spec _ _).2.2]
  case chaser =>
    rw [(Checkpoint.flush_spec _ _).2.2, (Checkpoint.flush_spec _ _).2.2, hl.written]
    exact hchaser
  case truncate =>
    rw [(Checkpoint.flush_spec _ _).2.2]
    exact htrunc

/-- Closing a durable log and opening it again goes through and leaves it durable as it was: the
same chunks opened again under new handles, one drawn for each, and the writer where it stood. -/
theorem runs_reopen (hd : Durable s plan) (hfew : s.db.chunks.length ≤ 1000000)
    (hroom : (Record.frames (plan.getLastD [])).length < s.db.config.chunkSize)
    (hchaser : s.db.config.checkpoints.chaser.last ≤ s.writer.position)
    (htrunc : s.db.config.checkpoints.truncate.last < 0) :
    ∃ t, Runs reopen s () t ∧ Durable t plan ∧ t.db.config.chunkSize = s.db.config.chunkSize ∧
      t.world.fresh = s.world.fresh + s.db.chunks.length := by
  obtain ⟨s₁, hclose, hs, hcs, hfresh₁⟩ := hd.runs_close hfew hroom hchaser htrunc
  obtain ⟨cs, w, hopen, hlen, hdisk, hfresh, hr⟩ := hs.runs_openChunks
  obtain ⟨c, hc, hact⟩ := hr.last hs hlen
  unfold Store.reopen
  refine Runs.bind_exists hclose ?_
  refine Runs.bind_exists (runs_config s₁) ?_
  refine Runs.bind_exists (Runs.onWorld (hs.runs_finishTruncation _)) ?_
  refine Runs.bind_exists (Runs.onWorld hopen) ?_
  refine Runs.bind_exists (Runs.modify _ _) ?_
  refine Runs.bind_exists (hs.runs_openWriter hr hlen hc hact rfl rfl rfl) ?_
  refine ⟨_, Runs.modify _ _, ⟨⟨c, ⟨⟨hr.laid hs hlen hdisk hfresh, rfl, .inl rfl, hs.flushed.trans hs.writer,
    ?current⟩, hc, hact, rfl⟩⟩, hdisk ▸ hr.filed hs hlen, rfl⟩, hcs, ?fresh⟩
  case current =>
    intro h hh
    exact ⟨c, hc, Option.some.inj hh, hact⟩
  case fresh =>
    rw [hfresh, hfresh₁, hs.laid.length, hd.layout.laid.length]

/-- The last chunk of a durable log fits a chunk. -/
theorem last_fits {init : List (List Record)} {rs : List Record} (hd : Durable s (init ++ [rs])) :
    (Record.frames rs).length ≤ s.db.config.chunkSize := by
  obtain ⟨c, hlen, -, -⟩ := hd.last_eq
  have h := hd.layout.laid.holds init.length (by omega) (by simp)
  rw [List.getElem_concat_length rfl] at h
  rw [← h.dataSize]
  exact h.room

/-- Every completed chunk of a durable log passes its hash check. -/
theorem verifies (hd : Durable s plan) :
    ∀ c ∈ s.db.chunks, c.isCompleted = true → Runs c.verifyHash s.world () s.world := by
  intro c hc hcomp
  obtain ⟨i, hi, rfl⟩ := List.getElem_of_mem hc
  obtain ⟨f, hf, hsealed⟩ := (hd.filed.kept i hi).sealed_of_completed hcomp
  exact hsealed.verifyHash rfl hf

end Durable

/-- Two logs hold the same bytes in the data region of every chunk. -/
def SameData (s t : Store) : Prop :=
  s.db.chunks.length = t.db.chunks.length ∧
    ∀ i (hs : i < s.db.chunks.length) (ht : i < t.db.chunks.length),
      s.db.chunks[i].physicalDataSize = t.db.chunks[i].physicalDataSize ∧
      ∀ o < s.db.chunks[i].physicalDataSize,
        (s.world.disk.file s.db.chunks[i].file).byteAt (chunkHeaderSize + o) =
          (t.world.disk.file t.db.chunks[i].file).byteAt (chunkHeaderSize + o)

/-- Two durable logs of one plan hold the same data: the plan's frames. -/
theorem Durable.sameData {s t : Store} {plan : List (List Record)} (hs : Durable s plan)
    (ht : Durable t plan) : SameData s t := by
  have hls := hs.layout.laid
  have hlt := ht.layout.laid
  refine ⟨hls.length.trans hlt.length.symm, fun i his hit => ?_⟩
  have hp : i < plan.length := hls.length ▸ his
  have hcs := hls.holds i his hp
  have hct := hlt.holds i hit hp
  refine ⟨hcs.dataSize.trans hct.dataSize.symm, fun o ho => ?_⟩
  rw [hcs.dataSize] at ho
  rw [hcs.bytes o ho, hct.bytes o ho]

/-- **Reopening between flushed writes is invisible to the writer.** Flushed record writes are
split in two; where the first part leaves room in the last chunk, the database is closed and opened
again between the parts. The writes return the positions they return on one writer, and leave the
writer at the same position, the same records for a forward scan from the start and the same data
in every chunk; every completed chunk passes its hash check. -/
theorem writes_across_reopen_match_one_writer {s : Store} {plan p₁ p₂ : List (List Record)}
    {xs ys : List (Int → Record)} {r₁ r₂ : List (Int × Int)}
    (hd : Durable s plan) (hb : ∀ m ∈ xs ++ ys, Builds m)
    (hxs : placeRecords s.db.config.chunkSize plan xs = some (r₁, p₁))
    (hys : placeRecords s.db.config.chunkSize p₁ ys = some (r₂, p₂))
    (hroom : (Record.frames (p₁.getLastD [])).length < s.db.config.chunkSize)
    (hfew : p₂.length ≤ 1000000)
    (hfresh : s.world.fresh + 2 * (xs ++ ys).length + p₁.length < Nat.pow 2 64)
    (hchaser : s.db.config.checkpoints.chaser.last ≤ s.writer.position)
    (htrunc : s.db.config.checkpoints.truncate.last < 0) :
    ∃ s₂ t₂, Runs ((xs ++ ys).mapM writeFlushed) s (r₁ ++ r₂) s₂ ∧
      Runs (do
        let a ← xs.mapM writeFlushed
        reopen
        let b ← ys.mapM writeFlushed
        pure (a ++ b)) s (r₁ ++ r₂) t₂ ∧
      t₂.writer.position = s₂.writer.position ∧
      (∃ es, Scans s₂ s₂.writer.position 0 es ∧ Scans t₂ t₂.writer.position 0 es) ∧
      SameData s₂ t₂ ∧
      ∀ c ∈ t₂.db.chunks, c.isCompleted = true → Runs c.verifyHash t₂.world () t₂.world := by
  rw [List.length_append] at hfresh
  have hbx : ∀ m ∈ xs, Builds m := fun m hm => hb m (List.mem_append_left _ hm)
  have hby : ∀ m ∈ ys, Builds m := fun m hm => hb m (List.mem_append_right _ hm)
  -- the plans only grow, and the end of the log only moves forward
  obtain ⟨init, rs, -, hplan, -, -, -⟩ := hd.last
  subst hplan
  obtain ⟨init₁, rs₁, hp₁, hfit₁, -, hend₁⟩ := placeRecords_grows hd.last_fits hxs
  subst hp₁
  obtain ⟨-, -, -, -, hlen₂, -⟩ := placeRecords_grows hfit₁ hys
  -- everything on one writer
  have hall : placeRecords s.db.config.chunkSize (init ++ [rs]) (xs ++ ys) =
      some (r₁ ++ r₂, p₂) := by
    rw [placeRecords_append, hxs]
    simp [hys]
  obtain ⟨s₂, hrun₂, hd₂, hm₂, -⟩ := Durable.runs_writesFlushed hb hd hall (by rw [List.length_append]; omega)
  -- the first part, the reopen, and the rest
  obtain ⟨s₁, hrun₁, hd₁, hm₁, hf₁⟩ := Durable.runs_writesFlushed hbx hd hxs (by omega)
  have hcs₁ := hm₁.chunkSize_eq
  obtain ⟨hchaser₁, htrunc₁⟩ := hm₁.others_eq
  obtain ⟨t₁, hre, hdt₁, hcst₁, hft₁⟩ := hd₁.runs_reopen
    (by rw [hd₁.layout.laid.length]; omega) (by rw [hcs₁]; exact hroom)
    (by
      rw [hchaser₁, hd₁.position, hcs₁]
      exact Int.le_trans hchaser (Int.le_trans (Int.le_of_eq hd.position) hend₁))
    (by rw [htrunc₁]; exact htrunc)
  obtain ⟨t₂, hrunt₂, hdt₂, hmt₂, -⟩ := Durable.runs_writesFlushed hby hdt₁
    (by rw [hcst₁, hcs₁]; exact hys)
    (by rw [hft₁, hd₁.layout.laid.length]; omega)
  have hcs₂ : t₂.db.config.chunkSize = s₂.db.config.chunkSize := by
    rw [hmt₂.chunkSize_eq, hcst₁, hcs₁, hm₂.chunkSize_eq]
  have hn₂ : s₂.db.chunks.length < Nat.pow 2 32 := by
    have h32 : 1000000 < Nat.pow 2 32 := by decide
    rw [hd₂.layout.laid.length]
    omega
  have hnt₂ : t₂.db.chunks.length < Nat.pow 2 32 := by
    rw [hdt₂.layout.laid.length, ← hd₂.layout.laid.length]
    exact hn₂
  refine ⟨s₂, t₂, hrun₂, Runs.bind hrun₁ (Runs.bind hre (Runs.bind hrunt₂ (Runs.pure _ _))),
    ?position, ⟨_, hd₂.layout.scans_log hn₂, hdt₂.layout.scans_log hnt₂⟩, hd₂.sameData hdt₂,
    hdt₂.verifies⟩
  case position => rw [hdt₂.position, hd₂.position, hcs₂]

/-- The small empty log has its last chunk completed, vacuously: the writer starts the first chunk. -/
theorem turned_smallEmptyLog : Turned smallEmptyLog [] where
  layout := layout_smallEmptyLog
  filed :=
    { completed := fun _ h => absurd h (Nat.not_lt_zero _)
      named := fun _ h => absurd h (Nat.not_lt_zero _)
      kept := fun _ h => absurd h (Nat.not_lt_zero _)
      listed := fun _ hp => absurd hp List.not_mem_nil
      distinct := List.nodup_nil
      apart := by
        intro st hst f hf
        simp only [Checkpoints.stores, List.mem_cons, List.not_mem_nil, or_false] at hst
        rcases hst with rfl | rfl | rfl | rfl <;> cases hf }
  done := fun _ h => absurd h (by simp [smallEmptyLog])
  position := rfl
  current := rfl
  isOpen := rfl

/-- The small empty log with its first chunk started, as the writer starts it. -/
def smallOpenLog : Store := ((ExceptT.run (ensureChunk : StoreM DbError Chunk)).run smallEmptyLog).2

/-- The small open log is durable with one empty chunk, in the configuration of the empty log,
with two fresh numbers drawn. -/
theorem durable_smallOpenLog : Durable smallOpenLog [[]] ∧
    smallOpenLog.db.config = smallEmptyLog.db.config ∧ smallOpenLog.world.fresh = 2 := by
  obtain ⟨c, s', hrun, hd, hcfg, hfresh⟩ :=
    turned_smallEmptyLog.runs_ensureChunk (by decide) (by decide)
  have hs : smallOpenLog = s' := congrArg Prod.snd hrun
  rw [hs]
  exact ⟨hd, hcfg, hfresh⟩

/-- Two one-byte records written on the small open log, flushed, with the log closed and opened
again between them, end as on one writer. -/
theorem reopen_between_two_small_writes :
    Durable smallOpenLog [[]] ∧ (∀ m ∈ [oneByteRecordAt] ++ [oneByteRecordAt], Builds m) ∧
      placeRecords smallOpenLog.db.config.chunkSize [[]] [oneByteRecordAt] =
        some ([(0, 46)], [[oneByteRecordAt 0]]) ∧
      placeRecords smallOpenLog.db.config.chunkSize [[oneByteRecordAt 0]] [oneByteRecordAt] =
        some ([(46, 92)], [[oneByteRecordAt 0, oneByteRecordAt 46]]) ∧
      (Record.frames ([[oneByteRecordAt 0]].getLastD [])).length <
        smallOpenLog.db.config.chunkSize ∧
      [[oneByteRecordAt 0, oneByteRecordAt 46]].length ≤ 1000000 ∧
      smallOpenLog.world.fresh + 2 * ([oneByteRecordAt] ++ [oneByteRecordAt]).length +
        [[oneByteRecordAt 0]].length < Nat.pow 2 64 ∧
      smallOpenLog.db.config.checkpoints.chaser.last ≤ smallOpenLog.writer.position ∧
      smallOpenLog.db.config.checkpoints.truncate.last < 0 ∧
      ∃ s₂ t₂, Runs (([oneByteRecordAt] ++ [oneByteRecordAt]).mapM writeFlushed) smallOpenLog
          ([(0, 46)] ++ [(46, 92)]) s₂ ∧
        Runs (do
          let a ← [oneByteRecordAt].mapM writeFlushed
          reopen
          let b ← [oneByteRecordAt].mapM writeFlushed
          pure (a ++ b)) smallOpenLog ([(0, 46)] ++ [(46, 92)]) t₂ ∧
        t₂.writer.position = s₂.writer.position ∧
        (∃ es, Scans s₂ s₂.writer.position 0 es ∧ Scans t₂ t₂.writer.position 0 es) ∧
        SameData s₂ t₂ ∧
        ∀ c ∈ t₂.db.chunks, c.isCompleted = true → Runs c.verifyHash t₂.world () t₂.world := by
  obtain ⟨hd, hcfg, hfresh⟩ := durable_smallOpenLog
  have hb : ∀ m ∈ [oneByteRecordAt] ++ [oneByteRecordAt], Builds m := by
    intro m hm
    obtain rfl : m = oneByteRecordAt := by simpa using hm
    exact builds_oneByteRecordAt
  have hcs : smallOpenLog.db.config.chunkSize = 256 := by rw [hcfg]; rfl
  have hxs : placeRecords smallOpenLog.db.config.chunkSize [[]] [oneByteRecordAt] =
      some ([(0, 46)], [[oneByteRecordAt 0]]) := by rw [hcs]; rfl
  have hys : placeRecords smallOpenLog.db.config.chunkSize [[oneByteRecordAt 0]] [oneByteRecordAt] =
      some ([(46, 92)], [[oneByteRecordAt 0, oneByteRecordAt 46]]) := by rw [hcs]; rfl
  have hroom : (Record.frames ([[oneByteRecordAt 0]].getLastD [])).length <
      smallOpenLog.db.config.chunkSize := by rw [hcs]; decide
  have hfr : smallOpenLog.world.fresh + 2 * ([oneByteRecordAt] ++ [oneByteRecordAt]).length +
      [[oneByteRecordAt 0]].length < Nat.pow 2 64 := by rw [hfresh]; decide
  have hchaser : smallOpenLog.db.config.checkpoints.chaser.last ≤ smallOpenLog.writer.position := by
    rw [hd.position, hcfg]
    decide
  have htrunc : smallOpenLog.db.config.checkpoints.truncate.last < 0 := by
    rw [hcfg]
    decide
  exact ⟨hd, hb, hxs, hys, hroom, by decide, hfr, hchaser, htrunc,
    writes_across_reopen_match_one_writer hd hb hxs hys hroom (by decide) hfr hchaser htrunc⟩
end EventStore
