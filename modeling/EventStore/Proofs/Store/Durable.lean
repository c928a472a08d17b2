import EventStore.Proofs.Store.Walks

/-!
# A log as its files hold it

A store's layout (`Layout`) says where the writer's records lie in the chunk files. Reopening the
database knows nothing of the layout: it lists the directory, opens each chunk's file by name and
reads header, footer and data back from the bytes. `Filed s plan` adds to the layout what
reopening reads. Chunk `i`'s file is named for number `i` at version 0 and is kept as reopening
reads it (`Chunk.Kept`): a completed chunk sealed with its footer and hash, an active one with its
header and data in a file of the full size of an active chunk. Every chunk but the last is
completed. The directory lists each of these names once and no other chunk file or temporary file,
the checkpoints are kept apart from the chunk files, and the database is open. `Durable` adds that
the writer stands on the last chunk, which is active, as it does after every write and after every
reopening.

This module states the two invariants and what the disk changes of writing do to a kept file: a
change to another file, a flushed checkpoint and a new file under another name leave it kept
(`Chunk.Kept.of_disk`). What the writer's steps do is in `Proofs/Store/DurableWrites`.
-/

namespace EventStore

open Store

/-! ## Names and files of a directory -/

/-- A chunk file name never ends as a temporary file's name does. -/
theorem ChunkFileName.endsWith_tempSuffix_ofParts (n v : Nat) :
    (ChunkFileName.ofParts n v).endsWith ChunkFileName.tempSuffix = false := by
  rw [String.endsWith, String.Slice.endsWith_string_eq_false_iff]
  simp only [String.copy_toSlice, ChunkFileName.toList_ofParts]
  rintro ⟨t, ht⟩
  -- the last character is a digit of the version or the dot before it, never the `p` of `.tmp`
  have hlast := congrArg List.getLast? ht
  rw [show ChunkFileName.tempSuffix.toList = ['.', 't', 'm', 'p'] from rfl, List.getLast?_append,
    List.getLast?_append] at hlast
  simp only [List.getLast?_cons_cons, List.getLast?_singleton] at hlast
  rcases List.mem_cons.1 (List.mem_of_getLast? hlast.symm) with h | h
  · cases h
  · cases ChunkFileName.isDigit_of_mem_pad6 h

namespace Disk

variable {d : Disk} {dir name : String}

theorem file_write_ne {f g : Nat} (h : f ≠ g) (off : Nat) (bs : ByteArray) :
    (d.write g off bs).file f = d.file f := by
  unfold write
  rw [file_modifyFile, if_neg fun h' => h h'.1]

theorem file_setSize_ne {f g : Nat} (h : f ≠ g) (len : Nat) :
    (d.setSize g len).file f = d.file f := by
  unfold setSize
  rw [file_modifyFile, if_neg fun h' => h h'.1]

/-- What a name finds depends on the names only. -/
theorem find?_of_names {d' : Disk} (h : d'.names = d.names) (dir name : String) :
    d'.find? dir name = d.find? dir name := by
  unfold find?
  rw [h]

/-- What a directory lists depends on the names only. -/
theorem list_of_names {d' : Disk} (h : d'.names = d.names) (dir : String) :
    d'.list dir = d.list dir := by
  unfold list
  rw [h]

/-- A name added after the others leaves what another name finds, whatever the files. -/
theorem find?_mk_append_ne {files files' : Array FileData} {names : List (String × String × Nat)}
    {dir' name' : String} {f : Nat} (hne : name' ≠ name) :
    (Disk.mk files (names ++ [(dir', name', f)])).find? dir name =
      (Disk.mk files' names).find? dir name := by
  unfold find?
  rw [List.find?_append, List.find?_singleton]
  simp [hne]

/-- A new name is listed after the others of its directory. -/
theorem list_mk_append (files files' : Array FileData) (names : List (String × String × Nat))
    (dir name : String) (f : Nat) :
    (Disk.mk files (names ++ [(dir, name, f)])).list dir =
      (Disk.mk files' names).list dir ++ [(name, f)] := by
  simp [list, List.filterMap_append]

/-- A name that finds no file is not listed in its directory. -/
theorem not_mem_list_of_find?_none (h : d.find? dir name = none) :
    name ∉ (d.list dir).map Prod.fst := by
  unfold find? at h
  unfold list
  rw [Option.map_eq_none_iff, List.find?_eq_none] at h
  intro hmem
  obtain ⟨⟨n, f⟩, hp, rfl⟩ := List.mem_map.1 hmem
  obtain ⟨⟨dr, n', f'⟩, hx, hsel⟩ := List.mem_filterMap.1 hp
  by_cases hdr : dr = dir
  · subst hdr
    simp only [beq_self_eq_true, if_true, Option.some.injEq, Prod.mk.injEq] at hsel
    obtain ⟨rfl, rfl⟩ := hsel
    simpa using h _ hx
  · simp [hdr] at hsel

end Disk

/-! ## Chunk files as reopening reads them -/

namespace Chunk

section Kept

variable {dir name : String} {h : ChunkHeader} {cap : Nat} {c : Chunk} {d d' : Disk}
  {data : ByteArray} {file : Nat} {m : List PosMapEntry} {f : ChunkFooter}

/-- An active chunk's file depends on the disk only through its name, the file itself and how
many files there are. -/
theorem Writing.of_disk (hw : Writing dir name h cap c d data)
    (hfind : d'.find? dir name = d.find? dir name) (hfile : d'.file c.file = d.file c.file)
    (hcount : d.files.size ≤ d'.files.size) : Writing dir name h cap c d' data :=
  { hw with
    found := hfind.trans hw.found
    isFile := Nat.lt_of_lt_of_le hw.isFile hcount
    ordered := by rw [hfile]; exact hw.ordered
    shows := by rw [hfile]; exact hw.shows
    fileSize := by unfold Disk.size; rw [hfile]; exact hw.fileSize }

/-- A sealed file depends on the disk only through its name and the file itself. -/
theorem Sealed.of_disk (hs : Sealed dir name h d file data m f)
    (hfind : d'.find? dir name = d.find? dir name) (hfile : d'.file file = d.file file) :
    Sealed dir name h d' file data m f :=
  { hs with
    found := hfind.trans hs.found
    shows := by rw [hfile]; exact hs.shows
    size := by unfold Disk.size; rw [hfile]; exact hs.size }

/-- The file of chunk `c` with data `data`, in directory `dir` of disk `d`, as reopening reads it:
sealed, with an empty position map and the footer the chunk holds, or active, with a header that
fits its layout, in a file of exactly the size of an active chunk of capacity `cap`. -/
inductive Kept (dir : String) (cap : Nat) (d : Disk) (data : ByteArray) (c : Chunk) : Prop
  | sealed {f : ChunkFooter} (hf : c.footer = some f)
      (hs : Sealed dir c.name c.header d c.file data [] f)
  | active (hh : c.header.Fits) (hw : Writing dir c.name c.header cap c d data)
      (hsize : d.size c.file = chunkHeaderSize + cap + chunkHeaderSize)

/-- A kept file depends on the disk only through its name, the file itself and how many files
there are. -/
theorem Kept.of_disk (hk : Kept dir cap d data c)
    (hfind : d'.find? dir c.name = d.find? dir c.name) (hfile : d'.file c.file = d.file c.file)
    (hcount : d.files.size ≤ d'.files.size) : Kept dir cap d' data c := by
  cases hk with
  | sealed hf hs => exact .sealed hf (hs.of_disk hfind hfile)
  | active hh hw hsize =>
    refine .active hh (hw.of_disk hfind hfile hcount) ?_
    unfold Disk.size at hsize ⊢
    rw [hfile]
    exact hsize

/-- A kept chunk that is completed is sealed. -/
theorem Kept.sealed_of_completed (hk : Kept dir cap d data c) (hc : c.isCompleted = true) :
    ∃ f, c.footer = some f ∧ Sealed dir c.name c.header d c.file data [] f := by
  cases hk with
  | sealed hf hs => exact ⟨_, hf, hs⟩
  | active _ hw _ => simp [isCompleted, hw.footer] at hc

/-- A kept chunk that is active has its file written as an active chunk's. -/
theorem Kept.writing_of_active (hk : Kept dir cap d data c) (hc : c.isCompleted = false) :
    c.header.Fits ∧ Writing dir c.name c.header cap c d data ∧
      d.size c.file = chunkHeaderSize + cap + chunkHeaderSize := by
  cases hk with
  | sealed hf _ => simp [isCompleted, hf] at hc
  | active hh hw hsize => exact ⟨hh, hw, hsize⟩

end Kept

end Chunk


/-! ## Filing a log -/

/-- Where the four checkpoints keep their flushed values. -/
def Checkpoints.stores (cps : Checkpoints) : List CheckpointStore :=
  [cps.writer.store, cps.chaser.store, cps.epoch.store, cps.truncate.store]

/-- The checkpoints of a log stand apart from its chunk files: a checkpoint kept in a file keeps
it in a file that exists and belongs to no chunk, so flushing it touches no chunk file. -/
def Checkpoints.Apart (cps : Checkpoints) (d : Disk) (chunks : List Chunk) : Prop :=
  ∀ st ∈ cps.stores, ∀ f, st = .file f → f < d.files.size ∧ ∀ c ∈ chunks, c.file ≠ f

@[simp] theorem Checkpoint.store_write (c : Checkpoint) (p : Int) : (c.write p).store = c.store :=
  rfl

@[simp] theorem Checkpoint.store_flush (c : Checkpoint) (d : Disk) :
    (c.flush d).2.store = c.store := by
  unfold Checkpoint.flush
  split
  · rfl
  · split <;> rfl

/-- The chunks `chunks` of a log in directory `dir`, of chunk size `cs`, filed on disk `d` as
`plan` lays them out, as reopening reads them: every chunk but the last is completed; chunk `i`'s
file is named for number `i` at version 0 and kept with the frames of the plan's chunk `i` as its
data; the directory lists each name once, and no other name of it ends as a temporary file's or
reads as a chunk file's; and the checkpoints `cps` stand apart from the chunk files. -/
structure Filed (dir : String) (cs : Nat) (cps : Checkpoints) (chunks : List Chunk) (d : Disk)
    (plan : List (List Record)) : Prop where
  completed : ∀ i (h : i + 1 < chunks.length), chunks[i].isCompleted = true
  named : ∀ i (h : i < chunks.length), chunks[i].name = ChunkFileName.ofParts i 0
  kept : ∀ i (h : i < chunks.length),
    Chunk.Kept dir cs d (Bytes.toByteArray (Record.frames (plan.getD i []))) chunks[i]
  listed : ∀ p ∈ d.list dir, p.1.endsWith ChunkFileName.tempSuffix = false ∧
    (ChunkFileName.parse? p.1 = none ∨ ∃ i < chunks.length, p.1 = ChunkFileName.ofParts i 0)
  distinct : ((d.list dir).map Prod.fst).Nodup
  apart : cps.Apart d chunks

namespace Filed

variable {dir : String} {cs : Nat} {cps cps' : Checkpoints} {chunks : List Chunk} {d d' : Disk}
  {plan : List (List Record)}

/-- Filing reads the checkpoints only through where they keep their values. -/
theorem of_stores (h : Filed dir cs cps chunks d plan) (hs : cps'.stores = cps.stores) :
    Filed dir cs cps' chunks d plan :=
  { h with apart := by unfold Checkpoints.Apart; rw [hs]; exact h.apart }

/-- A write to a file of no chunk leaves the filing. -/
theorem write_outside (h : Filed dir cs cps chunks d plan) {g : Nat}
    (hg : ∀ c ∈ chunks, c.file ≠ g) (off : Nat) (bs : ByteArray) :
    Filed dir cs cps chunks (d.write g off bs) plan :=
  { h with
    kept := fun i hi => (h.kept i hi).of_disk rfl
      (Disk.file_write_ne (hg _ (List.getElem_mem hi)) _ _) (by simp)
    listed := h.listed
    distinct := h.distinct
    apart := fun st hst f hf => by
      rw [Disk.size_files_write]
      exact h.apart st hst f hf }

/-- Flushing one of the checkpoints leaves the filing: its file belongs to no chunk. -/
theorem flush (h : Filed dir cs cps chunks d plan) {cp : Checkpoint}
    (hcp : cp.store ∈ cps.stores) : Filed dir cs cps chunks (cp.flush d).1 plan := by
  unfold Checkpoint.flush
  split
  · exact h
  · rename_i f hf
    split
    · exact h
    · exact h.write_outside (h.apart _ hcp f hf).2 _ _

/-- The last chunk replaced by one with its name and file, kept with the records `rs` on a disk
that differs from the old one only in that file: the filing holds with the plan's last chunk
replaced by `rs`. -/
theorem set_last (h : Filed dir cs cps chunks d plan) (hnd : (chunks.map Chunk.file).Nodup)
    {k : Nat} (hk : k + 1 = chunks.length) (hkp : k < plan.length) {c' : Chunk}
    (hname : c'.name = chunks[k].name) (hfile : c'.file = chunks[k].file) {rs : List Record}
    (hkept : Chunk.Kept dir cs d' (Bytes.toByteArray (Record.frames rs)) c')
    (hnames : d'.names = d.names) (hfiles : ∀ f, f ≠ chunks[k].file → d'.file f = d.file f)
    (hsize : d'.files.size = d.files.size) :
    Filed dir cs cps (chunks.set k c') d' (plan.set k rs) := by
  have hkc : k < chunks.length := by omega
  -- every other chunk keeps its file, which is not the replaced chunk's
  have hother : ∀ i (hi : i < chunks.length), i ≠ k → chunks[i].file ≠ chunks[k].file :=
    fun i hi hik heq => by
      have hi' : i < (chunks.map Chunk.file).length := by simpa using hi
      have hk' : k < (chunks.map Chunk.file).length := by simpa using hkc
      have hmap : (chunks.map Chunk.file)[i] = (chunks.map Chunk.file)[k] := by simp [heq]
      exact hik ((List.getElem_inj hnd).1 hmap)
  refine
    { completed := fun i hi => ?_
      named := fun i hi => ?_
      kept := fun i hi => ?_
      listed := ?_
      distinct := ?_
      apart := fun st hst f hf => ?_ }
  · simp only [List.length_set] at hi
    rw [List.getElem_set_ne (by omega)]
    exact h.completed i hi
  · simp only [List.getElem_set]
    split
    · rename_i hki
      subst hki
      rw [hname]
      exact h.named k hkc
    · exact h.named i (by simpa using hi)
  · simp only [List.getElem_set]
    split
    · rename_i hki
      subst hki
      rw [List.getD_eq_getElem?_getD, List.getElem?_set_self hkp, Option.getD_some]
      exact hkept
    · rename_i hki
      have hi' : i < chunks.length := by simpa using hi
      rw [List.getD_eq_getElem?_getD, List.getElem?_set_ne hki, ← List.getD_eq_getElem?_getD]
      exact (h.kept i hi').of_disk (Disk.find?_of_names hnames _ _)
        (hfiles _ (hother i hi' (Ne.symm hki))) (Nat.le_of_eq hsize.symm)
  · rw [Disk.list_of_names hnames, List.length_set]
    exact h.listed
  · rw [Disk.list_of_names hnames]
    exact h.distinct
  · obtain ⟨hlt, hne⟩ := h.apart st hst f hf
    refine ⟨hsize ▸ hlt, fun c hc => ?_⟩
    rcases List.mem_or_eq_of_mem_set hc with hc | rfl
    · exact hne c hc
    · rw [hfile]
      exact hne _ (List.getElem_mem hkc)

/-- A new chunk after the last, which is completed, in a new file under the name of the next
number, kept active with no data, on a disk that lists that name after the others and keeps every
other name and file: the filing holds of the plan with an empty chunk added. -/
theorem add (h : Filed dir cs cps chunks d plan) (hlen : plan.length = chunks.length)
    (hdone : ∀ c ∈ chunks.getLast?, c.isCompleted = true)
    (hold : ∀ c ∈ chunks, c.file < d.files.size) {c : Chunk}
    (hname : c.name = ChunkFileName.ofParts chunks.length 0) (hnew : d.files.size ≤ c.file)
    (hkept : Chunk.Kept dir cs d' (Bytes.toByteArray (Record.frames [])) c)
    (hfree : d.find? dir (ChunkFileName.ofParts chunks.length 0) = none)
    (hlist : d'.list dir = d.list dir ++ [(ChunkFileName.ofParts chunks.length 0, c.file)])
    (hfind : ∀ n, n ≠ ChunkFileName.ofParts chunks.length 0 → d'.find? dir n = d.find? dir n)
    (hkeep : ∀ f, f < d.files.size → d'.file f = d.file f) (hsize : d.files.size ≤ d'.files.size) :
    Filed dir cs cps (chunks ++ [c]) d' (plan ++ [[]]) := by
  refine
    { completed := fun i hi => ?_
      named := fun i hi => ?_
      kept := fun i hi => ?_
      listed := fun p hp => ?_
      distinct := ?_
      apart := fun st hst f hf => ?_ }
  · simp only [List.length_append, List.length_singleton] at hi
    rw [List.getElem_append_left (by omega)]
    by_cases hlast : i + 1 < chunks.length
    · exact h.completed i hlast
    · -- the old last chunk is now followed by the new one
      exact hdone _ (by rw [List.getLast?_eq_getElem?]; simp [show i = chunks.length - 1 by omega])
  · by_cases hi' : i < chunks.length
    · rw [List.getElem_append_left hi']
      exact h.named i hi'
    · have : i = chunks.length := by simp at hi; omega
      subst this
      simpa using hname
  · by_cases hi' : i < chunks.length
    · rw [List.getElem_append_left hi', List.getD_eq_getElem?_getD,
        List.getElem?_append_left (by omega), ← List.getD_eq_getElem?_getD]
      have hne : chunks[i].name ≠ ChunkFileName.ofParts chunks.length 0 := by
        rw [h.named i hi']
        exact fun heq => by have := ChunkFileName.ofParts_inj heq; omega
      exact (h.kept i hi').of_disk (hfind _ hne) (hkeep _ (hold _ (List.getElem_mem hi'))) hsize
    · have : i = chunks.length := by simp at hi; omega
      subst this
      rw [List.getD_eq_getElem?_getD, List.getElem?_append_right (by omega), hlen, Nat.sub_self]
      simpa using hkept
  · rw [hlist, List.mem_append, List.mem_singleton] at hp
    rcases hp with hp | rfl
    · obtain ⟨htmp, hparse⟩ := h.listed p hp
      refine ⟨htmp, hparse.imp_right fun ⟨i, hi, hp⟩ => ⟨i, ?_, hp⟩⟩
      simp only [List.length_append, List.length_singleton]
      omega
    · exact ⟨ChunkFileName.endsWith_tempSuffix_ofParts _ _, .inr ⟨chunks.length, by simp, rfl⟩⟩
  · rw [hlist, List.map_append, List.nodup_append]
    refine ⟨h.distinct, by simp, fun a ha b hb => ?_⟩
    simp only [List.map_cons, List.map_nil, List.mem_singleton] at hb
    subst hb
    exact fun heq => Disk.not_mem_list_of_find?_none hfree (heq ▸ ha)
  · obtain ⟨hlt, hne⟩ := h.apart st hst f hf
    refine ⟨Nat.lt_of_lt_of_le hlt hsize, fun c' hc' => ?_⟩
    rcases List.mem_append.1 hc' with hc' | hc'
    · exact hne c' hc'
    · rw [List.mem_singleton.1 hc']
      exact Nat.ne_of_gt (Nat.lt_of_lt_of_le hlt hnew)

end Filed

/-- A store whose log is filed as `plan` lays it out, with the writer on the last chunk, which is
active, as every write and every reopening leave it; the database is open. -/
structure Durable (s : Store) (plan : List (List Record)) : Prop where
  ready : ∃ c, Ready s plan c
  filed : Filed s.db.config.dir s.db.config.chunkSize s.db.config.checkpoints s.db.chunks
    s.world.disk plan
  isOpen : s.db.isClosed = false

namespace Durable

variable {s : Store} {plan : List (List Record)}

theorem layout (hd : Durable s plan) : Layout s plan := by
  obtain ⟨c, hr⟩ := hd.ready
  exact hr.layout

/-- The writer of a durable log stands where the log ends. -/
theorem position (hd : Durable s plan) :
    s.writer.position = planEnd s.db.config.chunkSize plan := by
  obtain ⟨c, hr⟩ := hd.ready
  exact hr.position

/-- A durable log has a last chunk, the active one the writer is on, holding the plan's last
records. -/
theorem last (hd : Durable s plan) : ∃ init rs c, plan = init ++ [rs] ∧
    init.length + 1 = s.db.chunks.length ∧ s.db.chunks[init.length]? = some c ∧
    Ready s plan c := by
  obtain ⟨c, hr⟩ := hd.ready
  obtain ⟨init, rs, hp, hlen, hck, -⟩ := hr.layout.laid.last hr.last
  exact ⟨init, rs, c, hp, hlen, hck, hr⟩

end Durable

end EventStore
