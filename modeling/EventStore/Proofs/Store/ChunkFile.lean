import EventStore.Proofs.Store.Layout
import EventStore.Proofs.Wire.Fields
import EventStore.Proofs.Hash.Sha256

/-!
# A chunk file from creation to reopening

A chunk file is written in one pass: creation writes the header at the start of a file of the
requested size, appends write data where the data written so far ends, and completion writes the
position map and the footer after the data and cuts the file after the footer. Along the way the
chunk keeps the running hash of everything it wrote.

`Chunk.Writing` says what an active chunk's file holds: the header's bytes, then the data
appended, then zeros up to the file's end, with the hash having taken in exactly the header and
the data. Creation starts it, and every append keeps it (`Chunk.Writing.append`). Completion turns
it into a sealed file (`Chunk.Sealed`): header, data, position map and footer, the footer marking
the chunk completed, scavenged as its header is, and holding the hash of everything before it.

Reopening a sealed file gives back the header, the footer, the position map and the data size, and
the hash checks (`Chunk.Sealed.openExisting`, `Chunk.Sealed.verifyHash`). A file of the size of an
active chunk that was never completed has zeros where a footer would be, so it never reopens as a
completed one (`Chunk.Writing.footer_openExisting`).

Main statement: `Chunk.reopens_as_written`.
-/

namespace EventStore

namespace FileData

theorem byteOf_eq_getD (b : ByteArray) (i : Nat) : byteOf b i = b[i]?.getD 0 := by
  rw [byteOf, Sha256.getElem?_data]

theorem byteOf_append (a b : ByteArray) (i : Nat) :
    byteOf (a ++ b) i = if i < a.size then byteOf a i else byteOf b (i - a.size) := by
  simp only [byteOf_eq_getD]
  exact Sha256.getD_append a b i

/-- The file reads as the bytes `W` followed by zeros. -/
def Shows (f : FileData) (W : ByteArray) : Prop := ∀ i, f.byteAt i = byteOf W i

/-- Bytes written where the shown bytes end are shown after them. -/
theorem Shows.write {f : FileData} {W : ByteArray} (hf : f.Ordered) (h : f.Shows W)
    (bs : ByteArray) : (f.write W.size bs).Shows (W ++ bs) := by
  intro i
  rw [byteAt_write hf, byteOf_append, h i]
  by_cases h₁ : i < W.size
  · rw [if_neg (by omega), if_pos h₁]
  · rw [if_neg h₁]
    by_cases h₂ : i < W.size + bs.size
    · rw [if_pos ⟨by omega, h₂⟩]
    · rw [if_neg (by omega), byteOf_of_size_le (by omega), byteOf_of_size_le (by omega)]

/-- Cutting a file after the shown bytes keeps showing them. -/
theorem Shows.setSize {f : FileData} {W : ByteArray} (h : f.Shows W) {len : Nat}
    (hlen : W.size ≤ len) : (f.setSize len).Shows W := by
  intro i
  rw [byteAt_setSize]
  split
  · exact h i
  · rw [byteOf_of_size_le (by omega)]

/-- A range within the shown bytes reads as those bytes. -/
theorem Shows.slice_part {f : FileData} {A B C : ByteArray} (h : f.Shows (A ++ B ++ C)) :
    f.slice A.size B.size = B := by
  refine ext_byteOf (size_slice ..) fun j hj => ?_
  rw [size_slice] at hj
  have hA : A.size + j < (A ++ B).size := by
    rw [ByteArray.size_append]
    omega
  rw [byteOf_slice f _ _ hj, h, byteOf_append, if_pos hA, byteOf_append, if_neg (by omega),
    Nat.add_sub_cancel_left]

theorem Shows.slice_prefix {f : FileData} {A B : ByteArray} (h : f.Shows (A ++ B)) :
    f.slice 0 A.size = A := by
  have h' : f.Shows (ByteArray.empty ++ A ++ B) := by rwa [ByteArray.empty_append]
  have := h'.slice_part
  rwa [ByteArray.size_empty] at this

theorem Shows.slice_suffix {f : FileData} {A B : ByteArray} (h : f.Shows (A ++ B)) :
    f.slice A.size B.size = B := by
  have h' : f.Shows (A ++ B ++ ByteArray.empty) := by rwa [ByteArray.append_empty]
  exact h'.slice_part

/-- A range past the shown bytes reads as zeros. -/
theorem Shows.slice_zeros {f : FileData} {W : ByteArray} (h : f.Shows W) {off : Nat}
    (hoff : W.size ≤ off) (len : Nat) : f.slice off len = zeros len := by
  refine ext_byteOf (by simp [size_slice]) fun j hj => ?_
  rw [size_slice] at hj
  rw [byteOf_slice f off len hj, h, byteOf_of_size_le (by omega), byteOf_zeros]

/-- An empty file, grown or not, shows nothing. -/
theorem shows_setSize_empty (len : Nat) : (({} : FileData).setSize len).Shows ByteArray.empty := by
  intro i
  rw [byteAt_setSize, byteOf_of_size_le (by simp [ByteArray.size_empty])]
  split <;> rfl

theorem ordered_empty : ({} : FileData).Ordered := List.Pairwise.nil

/-- Two writes one after the other where the shown bytes end, and a cut after the second, leave
a file of exactly the bytes shown and written. -/
theorem Shows.seal {f : FileData} {W : ByteArray} (hf : f.Ordered) (h : f.Shows W)
    (A B : ByteArray) :
    (((f.write W.size A).write (W.size + A.size) B).setSize (W.size + A.size + B.size)).Shows
      (W ++ A ++ B) := by
  have hA := h.write hf A
  have hB := hA.write (hf.write _ _) B
  rw [ByteArray.size_append] at hB
  exact hB.setSize (by simp only [ByteArray.size_append]; omega)

end FileData

theorem Bytes.ofByteArray_toByteArray (b : Bytes) : Bytes.ofByteArray (Bytes.toByteArray b) = b :=
  FileData.toList_eq_of_byteOf (Bytes.size_toByteArray b) fun i _ => Bytes.byteOf_toByteArray b i

theorem Bytes.ofByteArray_listToByteArray (b : Bytes) :
    Bytes.ofByteArray (List.toByteArray b) = b := by
  rw [Bytes.ofByteArray, FileData.toList_eq_data, List.data_toByteArray, List.toList_toArray]

theorem Bytes.length_ofByteArray (b : ByteArray) : (Bytes.ofByteArray b).length = b.size := by
  rw [Bytes.ofByteArray, FileData.toList_eq_data, Array.length_toList]
  rfl

theorem Bytes.ofByteArray_zeros (n : Nat) :
    Bytes.ofByteArray (FileData.zeros n) = List.replicate n 0 := by
  rw [Bytes.ofByteArray, FileData.toList_eq_data]
  exact Array.toList_replicate

theorem Chunk.size_posMapBytes (m : List PosMapEntry) :
    (Chunk.posMapBytes m).size = posMapEntrySize * m.length := by
  simp [Chunk.posMapBytes, List.length_flatMap, Nat.mul_comm]

/-- A footer is as long as a header once its hash is 32 bytes. -/
theorem ChunkFooter.length_encode {f : ChunkFooter} (hf : f.hash.length = 32) :
    f.encode.length = chunkHeaderSize := by
  simp [ChunkFooter.encode, ChunkFooter.marker, hf, chunkHeaderSize]

/-- Bytes that start with four zeros are no footer: a footer starts with its marker. -/
theorem ChunkFooter.decode_zeros (rest : Bytes) :
    ChunkFooter.decode.run (List.replicate 4 0 ++ rest) = .error .badMagic := rfl

namespace Runs

variable {σ ε α : Type} {m : ExceptT (Fault ε) (StateM σ) α} {s s₁ s₂ : σ} {v₁ v₂ : α}

/-- An action has one outcome on a given state. -/
theorem unique (h₁ : Runs m s v₁ s₁) (h₂ : Runs m s v₂ s₂) : v₁ = v₂ ∧ s₁ = s₂ := by
  unfold Runs at h₁ h₂
  rw [h₁] at h₂
  cases h₂
  exact ⟨rfl, rfl⟩

end Runs

/-- Every value `m` returns, from any state, satisfies `Q`. -/
def Always {σ ε α : Type} (m : ExceptT (Fault ε) (StateM σ) α) (Q : α → Prop) : Prop :=
  ∀ s v s', Runs m s v s' → Q v

namespace Always

variable {σ ε α β : Type} {Q : β → Prop}

theorem pure {v : β} (h : Q v) : Always (Pure.pure v : ExceptT (Fault ε) (StateM σ) β) Q :=
  fun _ _ _ hr => (Runs.pure_inv hr).1 ▸ h

theorem fail {e : ε} : Always (EventStore.fail e : ExceptT (Fault ε) (StateM σ) β) Q :=
  fun _ _ _ hr => absurd hr Runs.not_fail

theorem bind {m : ExceptT (Fault ε) (StateM σ) α} {f : α → ExceptT (Fault ε) (StateM σ) β}
    (hf : ∀ v, Always (f v) Q) : Always (m >>= f) Q := fun _ _ _ hr => by
  obtain ⟨v, _, _, h₂⟩ := hr.bind_inv
  exact hf v _ _ _ h₂

theorem ite {p : Prop} [Decidable p] {x y : ExceptT (Fault ε) (StateM σ) β} (hx : Always x Q)
    (hy : Always y Q) : Always (if p then x else y) Q := by
  split
  · exact hx
  · exact hy

end Always

namespace World

variable {ε α : Type}

theorem runs_diskTry {wrap : IoError → ε} {g : Disk → Except IoError (Disk × α)} {w : World}
    {d : Disk} {a : α} (hg : g w.disk = .ok (d, a)) :
    Runs (diskTry wrap g) w a { w with disk := d } := by
  unfold diskTry
  refine Runs.bind (show Runs (get : WorldM ε World) w w w from rfl) ?_
  rw [hg]
  rfl

theorem runs_currentDisk (w : World) : Runs (currentDisk : WorldM ε Disk) w w.disk w := rfl

theorem runs_onDisk (g : Disk → Disk) (w : World) :
    Runs (onDisk g : WorldM ε Unit) w () { w with disk := g w.disk } := rfl

end World

namespace Disk

/-- A name added after the others, where it was free, finds its file. -/
theorem find?_append_self {files : Array FileData} {names : List (String × String × Nat)}
    {dir name : String} {f : Nat} (hold : (Disk.mk files names).find? dir name = none) :
    (Disk.mk files (names ++ [(dir, name, f)])).find? dir name = some f := by
  unfold find? at hold ⊢
  rw [List.find?_append]
  simp only [Option.map_eq_none_iff] at hold
  rw [hold, Option.none_or, List.find?_singleton]
  simp

theorem file_of_size_le {d : Disk} {f : Nat} (hf : d.files.size ≤ f) : d.file f = {} := by
  simp only [file, Array.getD_eq_getD_getElem?, Array.getElem?_eq_none hf]
  rfl

end Disk

namespace Chunk

variable {ε : Type} {w : World}

theorem runs_capacityOf {hd : ChunkHeader} {n : Nat} (hc : hd.capacity? = some n) (w : World) :
    Runs (capacityOf hd : WorldM ε Nat) w n w := by
  unfold capacityOf
  rw [hc]
  rfl

theorem runs_appendData (file : Nat) (wk : ChunkWork) (bs : ByteArray) (w : World) :
    Runs (appendData file wk bs) w ⟨wk.position + bs.size, wk.hasher.update bs⟩
      { w with disk := w.disk.write file wk.position bs } := rfl

/-- Appends byte strings one after another, each that fits. -/
def appendAll (c : Chunk) : List ByteArray → WorldM DbError Chunk
  | [] => pure c
  | bs :: rest => do
    let r ← c.append bs
    appendAll r.2 rest

/-- How many bytes the byte strings hold together. -/
def totalSize (ds : List ByteArray) : Nat := ds.foldr (fun bs n => bs.size + n) 0

@[simp] theorem totalSize_nil : totalSize [] = 0 := rfl

@[simp] theorem totalSize_cons (bs : ByteArray) (ds : List ByteArray) :
    totalSize (bs :: ds) = bs.size + totalSize ds := rfl

/-- The file of an active chunk `c` named `name` in `dir`, as a disk `d` has it: the header `h`,
then the data appended, `data`, then zeros to the end of a file with room for a full data region
of `cap` bytes and a footer. The chunk counts the data and writes next where it ends, and its
hash has taken in exactly the header and the data. -/
structure Writing (dir name : String) (h : ChunkHeader) (cap : Nat) (c : Chunk) (d : Disk)
    (data : ByteArray) : Prop where
  name_eq : c.name = name
  header_eq : c.header = h
  found : d.find? dir name = some c.file
  isFile : c.file < d.files.size
  ordered : (d.file c.file).Ordered
  shows : (d.file c.file).Shows (h.encode.toByteArray ++ data)
  capacity : h.capacity? = some cap
  room : data.size ≤ cap
  fileSize : chunkHeaderSize + cap + chunkHeaderSize ≤ d.size c.file
  dataSize : c.physicalDataSize = data.size
  footer : c.footer = none
  work : ∃ wk, c.work = some wk ∧ wk.position = chunkHeaderSize + data.size ∧
    Sha256.Absorbed wk.hasher (h.encode.toByteArray ++ data)

section Writing

variable {dir name : String} {h : ChunkHeader} {cap : Nat} {c : Chunk} {d : Disk}
  {data : ByteArray}

theorem size_header_toByteArray (h : ChunkHeader) :
    (Bytes.toByteArray h.encode).size = chunkHeaderSize := by
  rw [Bytes.size_toByteArray, ChunkHeader.length_encode]

/-- Creating a chunk file under a free name, of a size with room for the header, a full data
region and a footer, starts an active chunk with no data. -/
theorem Writing.createNew (hfree : w.disk.find? dir name = none) (hcap : h.capacity? = some cap)
    {size : Nat} (hsize : chunkHeaderSize + cap + chunkHeaderSize ≤ size) (handle : Nat) :
    ∃ c w', Runs (Chunk.createNew dir name h size handle) w c w' ∧
      Writing dir name h cap c w'.disk ByteArray.empty := by
  let f := w.disk.files.size
  let hdr := Bytes.toByteArray h.encode
  let d₀ : Disk := ⟨w.disk.files.push {}, w.disk.names ++ [(dir, name, f)]⟩
  have hcreate : w.disk.create dir name = .ok (d₀, f) := by
    simp [Disk.create, hfree, d₀, f]
  have hf : f < d₀.files.size := by simp [d₀, f]
  -- the new file is empty, grown to `size` and then given the header
  have hfile : ((d₀.setSize f size).write f 0 hdr).file f =
      (({} : FileData).setSize size).write 0 hdr := by
    rw [Disk.file_write_self (by simpa using hf), Disk.file_setSize_self hf, Disk.file_push,
      Disk.file_of_size_le (Nat.le_refl _)]
  have hshow := (FileData.ordered_empty.setSize size).write 0 hdr
  refine ⟨{ handle, name, header := h, file := f,
             work := some ⟨0 + hdr.size, ({} : Sha256).update hdr⟩ },
    { w with disk := (d₀.setSize f size).write f 0 hdr }, ?_, ?_⟩
  · unfold Chunk.createNew
    exact Runs.bind (World.runs_diskTry hcreate) <| Runs.bind (World.runs_onDisk _ _) <|
      Runs.bind (runs_appendData _ _ _ _) (Runs.pure _ _)
  · have hshows :=
      (FileData.shows_setSize_empty size).write (FileData.ordered_empty.setSize size) hdr
    rw [ByteArray.size_empty, ByteArray.empty_append] at hshows
    refine
      { name_eq := rfl
        header_eq := rfl
        found := Disk.find?_append_self
          (show (Disk.mk (w.disk.files.push {}) w.disk.names).find? dir name = none from hfree)
        isFile := by simpa using hf
        ordered := by rw [hfile]; exact hshow
        shows := by rw [hfile, ByteArray.append_empty]; exact hshows
        capacity := hcap
        room := by simp [ByteArray.size_empty]
        fileSize := ?_
        dataSize := rfl
        footer := rfl
        work := ⟨_, rfl, by simp [hdr, ChunkHeader.length_encode, ByteArray.size_empty], ?_⟩ }
    · unfold Disk.size
      rw [hfile, FileData.size_write, size_header_toByteArray]
      simp only [FileData.size_setSize]
      split <;> omega
    · have := Sha256.absorbed_empty.update hdr
      rw [ByteArray.empty_append] at this
      rw [ByteArray.append_empty]
      dsimp only
      exact this

/-- Data written where an active chunk's data ends, within its capacity, extends its data. -/
theorem Writing.extend (hw : Writing dir name h cap c d data) {wk : ChunkWork}
    (hwk : c.work = some wk) {bs : ByteArray} (hfit : data.size + bs.size ≤ cap) :
    Writing dir name h cap
      { c with work := some ⟨wk.position + bs.size, wk.hasher.update bs⟩,
               physicalDataSize := c.physicalDataSize + bs.size }
      (d.write c.file wk.position bs) (data ++ bs) := by
  obtain ⟨wk', hwk', hpos, habs⟩ := hw.work
  rw [hwk, Option.some.injEq] at hwk'
  subst hwk'
  have hW : (h.encode.toByteArray ++ data).size = wk.position := by
    rw [ByteArray.size_append, size_header_toByteArray, hpos]
  have hshows := hw.shows.write hw.ordered bs
  rw [hW, ByteArray.append_assoc] at hshows
  exact
    { name_eq := hw.name_eq
      header_eq := hw.header_eq
      found := hw.found
      isFile := by simpa using hw.isFile
      ordered := by rw [Disk.file_write_self hw.isFile]; exact hw.ordered.write _ _
      shows := by rw [Disk.file_write_self hw.isFile]; exact hshows
      capacity := hw.capacity
      room := by rw [ByteArray.size_append]; exact hfit
      fileSize := Nat.le_trans hw.fileSize (Disk.size_le_size_write _ _ _ _ _)
      dataSize := by simp only [ByteArray.size_append, hw.dataSize]
      footer := hw.footer
      work := ⟨_, rfl, by simp only [ByteArray.size_append, hpos]; omega, by
        rw [← ByteArray.append_assoc]; exact habs.update bs⟩ }

/-- An append to an active chunk writes the bytes after its data when they fit its capacity,
and otherwise leaves chunk and disk as they were; either way the chunk stays active. -/
theorem Writing.append (hw : Writing dir name h cap c w.disk data) (bs : ByteArray) :
    ∃ c' w', Runs (c.append bs) w (decide (data.size + bs.size ≤ cap), c') w' ∧
      Writing dir name h cap c' w'.disk (if data.size + bs.size ≤ cap then data ++ bs else data) := by
  obtain ⟨wk, hwk, -, -⟩ := hw.work
  have hcap : c.header.capacity? = some cap := hw.header_eq ▸ hw.capacity
  by_cases hfit : data.size + bs.size ≤ cap
  · refine ⟨{ c with work := some ⟨wk.position + bs.size, wk.hasher.update bs⟩,
                      physicalDataSize := c.physicalDataSize + bs.size },
      { w with disk := w.disk.write c.file wk.position bs }, ?_, ?_⟩
    · unfold Chunk.append
      rw [hwk]
      refine Runs.bind (runs_capacityOf hcap w) ?_
      rw [if_neg (by rw [hw.dataSize]; omega), decide_eq_true hfit]
      exact Runs.bind (runs_appendData _ _ _ _) (Runs.pure _ _)
    · rw [if_pos hfit]
      exact hw.extend hwk hfit
  · refine ⟨c, w, ?_, ?_⟩
    · unfold Chunk.append
      rw [hwk]
      refine Runs.bind (runs_capacityOf hcap w) ?_
      rw [if_pos (by rw [hw.dataSize]; omega), decide_eq_false hfit]
      exact Runs.pure _ _
    · rw [if_neg hfit]
      exact hw

/-- Appends one after another keep a chunk active, with no more data than they were given. -/
theorem Writing.appendAll (hw : Writing dir name h cap c w.disk data) (ds : List ByteArray) :
    ∃ c' w' data', Runs (c.appendAll ds) w c' w' ∧ Writing dir name h cap c' w'.disk data' ∧
      data'.size ≤ data.size + totalSize ds := by
  induction ds generalizing c w data with
  | nil => exact ⟨c, w, data, Runs.pure _ _, hw, by simp⟩
  | cons bs rest ih =>
    obtain ⟨c₁, w₁, h₁, hw₁⟩ := hw.append bs
    obtain ⟨c₂, w₂, data₂, h₂, hw₂, hsize⟩ := ih hw₁
    have hstep : (if data.size + bs.size ≤ cap then data ++ bs else data).size ≤
        data.size + bs.size := by
      split
      · exact Nat.le_of_eq ByteArray.size_append
      · exact Nat.le_add_right _ _
    refine ⟨c₂, w₂, data₂, Runs.bind h₁ h₂, hw₂, ?_⟩
    rw [totalSize_cons]
    omega

/-- A chunk file as completion leaves it: the header `h`, the data, the position map `m` and the
footer `f`, and nothing after. All four parts fit their layouts; the footer marks the chunk
completed, gives the sizes of the data and the map, and holds the hash of everything before it. -/
structure Sealed (dir name : String) (h : ChunkHeader) (d : Disk) (file : Nat) (data : ByteArray)
    (m : List PosMapEntry) (f : ChunkFooter) : Prop where
  found : d.find? dir name = some file
  shows : (d.file file).Shows
    (h.encode.toByteArray ++ data ++ posMapBytes m ++ f.encode.toByteArray)
  size : d.size file = chunkHeaderSize + data.size + (posMapBytes m).size + chunkHeaderSize
  headerFits : h.Fits
  footerFits : f.Fits
  completed : f.isCompleted
  dataSize : f.physicalDataSize = data.size
  mapSize : f.mapSize = (posMapBytes m).size
  mapFits : ∀ e ∈ m, e.Fits
  hash : ∃ s, Sha256.Absorbed s (h.encode.toByteArray ++ data ++ posMapBytes m) ∧
    f.hash = Bytes.ofByteArray s.finish

/-- The logical size a footer records fits a signed 64-bit word. -/
theorem signed_logicalSize (scav : Bool) (x : Int) {n : Nat} (hn : n < Nat.pow 2 32) :
    Word.signed 64 (if scav then Word.pos x else (n : Int)) =
      if scav then Word.pos x else (n : Int) := by
  cases scav with
  | true => exact Int.bmod_bmod
  | false =>
    have h63 : n < Nat.pow 2 63 := Nat.lt_of_lt_of_le hn (by decide)
    exact Word.pos_of_lt (Int.natCast_nonneg n) (Int.ofNat_lt.2 h63)

/-- The flags completion writes fit a byte, mark the chunk completed, and mark it scavenged
exactly when its header does. -/
theorem completionFlags_spec (scav : Bool) :
    (if scav then ChunkFooter.completedFlag + ChunkFooter.scavengedFlag
      else ChunkFooter.completedFlag) < Nat.pow 2 8 ∧
    (if scav then ChunkFooter.completedFlag + ChunkFooter.scavengedFlag
      else ChunkFooter.completedFlag) % 2 = 1 ∧
    decide ((if scav then ChunkFooter.completedFlag + ChunkFooter.scavengedFlag
      else ChunkFooter.completedFlag) / 2 % 2 = 1) = scav := by
  cases scav <;> decide

/-- Completing an active chunk whose data and position map fit the footer's 32-bit sizes seals
its file, with a footer that marks the chunk scavenged exactly when its header does. -/
theorem Writing.completeWithMap (hw : Writing dir name h cap c w.disk data) (hh : h.Fits)
    (hdata : data.size < Nat.pow 2 32) {m : List PosMapEntry} (hm : ∀ e ∈ m, e.Fits)
    (hmap : (posMapBytes m).size < Nat.pow 2 32) :
    ∃ f w', Runs (c.completeWithMap m) w (f, { c with work := none, footer := some f }) w' ∧
      f.isScavenged = h.isScavenged ∧ Sealed dir name h w'.disk c.file data m f := by
  obtain ⟨wk, hwk, hpos, habs⟩ := hw.work
  have hphys : c.physicalDataSize < Nat.pow 2 32 := by
    rw [hw.dataSize]
    exact hdata
  let mb := posMapBytes m
  let hasher := wk.hasher.update mb
  let f : ChunkFooter :=
    { flags := if c.header.isScavenged then ChunkFooter.completedFlag + ChunkFooter.scavengedFlag
        else ChunkFooter.completedFlag,
      physicalDataSize := c.physicalDataSize,
      logicalDataSize := if c.header.isScavenged then Word.pos (c.endPosition - c.startPosition)
        else c.physicalDataSize,
      mapSize := mb.size, hash := Bytes.ofByteArray hasher.finish }
  have hhash : f.hash.length = 32 := by
    rw [Bytes.length_ofByteArray]
    exact (habs.update mb).size_finish
  have hW : (h.encode.toByteArray ++ data).size = wk.position := by
    rw [ByteArray.size_append, size_header_toByteArray, hpos]
  have hflags := completionFlags_spec c.header.isScavenged
  let d' := ((w.disk.write c.file wk.position mb).write c.file (wk.position + mb.size)
    f.encode.toByteArray).setSize c.file (wk.position + mb.size + chunkHeaderSize)
  refine ⟨f, { w with disk := d' }, ?run, ?scav, ?sealed⟩
  case run =>
    unfold Chunk.completeWithMap
    rw [hwk]
    refine Runs.bind (runs_appendData _ _ _ _) ?_
    rw [if_neg (by omega)]
    exact Runs.bind (World.runs_onDisk _ _) (Runs.bind (World.runs_onDisk _ _) (Runs.pure _ _))
  case scav =>
    rw [← hw.header_eq]
    exact hflags.2.2
  case sealed =>
    have hshows := hw.shows.seal hw.ordered mb f.encode.toByteArray
    rw [hW, Bytes.size_toByteArray, ChunkFooter.length_encode hhash] at hshows
    have hfile : c.file < (w.disk.write c.file wk.position mb).files.size := by
      simpa using hw.isFile
    exact
      { found := hw.found
        shows := by
          rw [Disk.file_setSize_self (by simpa using hw.isFile), Disk.file_write_self hfile,
            Disk.file_write_self hw.isFile]
          exact hshows
        size := by
          rw [Disk.size_setSize, if_pos ⟨rfl, by simpa using hw.isFile⟩, hpos]
        headerFits := hh
        footerFits := ⟨hflags.1, hphys, signed_logicalSize _ _ hphys, hmap, hhash⟩
        completed := decide_eq_true hflags.2.1
        dataSize := hw.dataSize
        mapSize := rfl
        mapFits := hm
        hash := ⟨hasher, habs.update mb, rfl⟩ }

end Writing

/-! ## Reading a chunk file back -/

section Reading

/-- A file that starts with a header's bytes reads as that header. -/
theorem runs_readHeaderOf {file : Nat} {hd : ChunkHeader} (hh : hd.Fits)
    (hsize : chunkHeaderSize ≤ w.disk.size file)
    (hslice : (w.disk.file file).slice 0 chunkHeaderSize = hd.encode.toByteArray) (name : String) :
    Runs (readHeaderOf file name) w hd w := by
  have hdec : ChunkHeader.decode.run hd.encode = .ok (hd, []) := by
    simpa using ChunkHeader.reads_encode hh []
  unfold readHeaderOf
  refine Runs.bind (World.runs_currentDisk w) ?_
  rw [Disk.readExact_eq (by rw [Nat.zero_add]; exact hsize)]
  dsimp only
  rw [hslice, Bytes.ofByteArray_toByteArray, hdec]
  rfl

/-- The last header-sized range of a file long enough for a header and a footer is read as a
footer, kept if it marks the chunk completed. -/
theorem runs_tryReadFooter_of_decode {file len : Nat} {f : ChunkFooter} {rest : Bytes}
    (hlen : chunkHeaderSize + chunkHeaderSize ≤ len) (hsize : len ≤ w.disk.size file)
    (hdec : ChunkFooter.decode.run (Bytes.ofByteArray
      ((w.disk.file file).slice (len - chunkHeaderSize) chunkHeaderSize)) = .ok (f, rest)) :
    Runs (tryReadFooter file len) w (if f.isCompleted then some f else none) w := by
  unfold tryReadFooter
  rw [if_neg (by omega)]
  refine Runs.bind (World.runs_currentDisk w) ?_
  rw [Disk.readExact_eq (by omega)]
  dsimp only
  rw [hdec]
  rfl

/-- A last range that is no footer is no footer. -/
theorem runs_tryReadFooter_of_error {file len : Nat} {e : DecodeError}
    (hlen : chunkHeaderSize + chunkHeaderSize ≤ len) (hsize : len ≤ w.disk.size file)
    (hdec : ChunkFooter.decode.run (Bytes.ofByteArray
      ((w.disk.file file).slice (len - chunkHeaderSize) chunkHeaderSize)) = .error e) :
    Runs (tryReadFooter file len) w none w := by
  unfold tryReadFooter
  rw [if_neg (by omega)]
  refine Runs.bind (World.runs_currentDisk w) ?_
  rw [Disk.readExact_eq (by omega)]
  dsimp only
  rw [hdec]
  rfl

/-- A position map's bytes read back as the map, and an empty map is not read at all. -/
theorem runs_readPosMap {file off : Nat} {m : List PosMapEntry} (hm : ∀ e ∈ m, e.Fits)
    (hsize : off + (posMapBytes m).size ≤ w.disk.size file)
    (hslice : (w.disk.file file).slice off (posMapBytes m).size = posMapBytes m) :
    Runs (readPosMap file off (posMapBytes m).size) w m w := by
  unfold readPosMap
  by_cases h0 : (posMapBytes m).size = 0
  · -- an empty map is not read
    have hnil : m = [] := by
      rw [size_posMapBytes, posMapEntrySize] at h0
      exact List.eq_nil_of_length_eq_zero (by omega)
    subst hnil
    exact Runs.pure _ _
  · rw [if_neg h0]
    refine Runs.bind (World.runs_currentDisk w) ?_
    rw [Disk.readExact_eq hsize]
    dsimp only
    rw [hslice, posMapBytes, Bytes.ofByteArray_listToByteArray, PosMapEntry.decodeAll_flatMap hm]
    rfl

/-- Hashing a range of a file feeds the range's bytes to the hasher. -/
theorem runs_hashRange {file start finish : Nat} {bs : ByteArray} (hle : start ≤ finish)
    (hsize : finish ≤ w.disk.size file)
    (hslice : (w.disk.file file).slice start (finish - start) = bs) (s : Sha256) :
    Runs (hashRange file start finish s) w (s.update bs) w := by
  unfold hashRange
  refine Runs.bind (World.runs_currentDisk w) ?_
  rw [Disk.readExact_eq (by omega)]
  dsimp only
  rw [hslice]
  rfl

variable {dir name : String} {h : ChunkHeader} {file : Nat} {data : ByteArray}
  {m : List PosMapEntry} {f : ChunkFooter}

theorem runs_openFile {d : Disk} {dir name : String} {file : Nat}
    (hfound : d.find? dir name = some file) :
    (d.openFile dir name).map (d, ·) = .ok (d, file) := by
  rw [Disk.openFile, hfound]
  rfl

/-- The bytes of a sealed file before the footer, which its hash covers. -/
theorem Sealed.slice_hashed (hs : Sealed dir name h w.disk file data m f) :
    (w.disk.file file).slice 0 (chunkHeaderSize + f.physicalDataSize + f.mapSize) =
      h.encode.toByteArray ++ data ++ posMapBytes m := by
  have hP := hs.shows.slice_prefix
  rwa [ByteArray.size_append, ByteArray.size_append, size_header_toByteArray, ← hs.dataSize,
    ← hs.mapSize] at hP

theorem Sealed.size_footer (hs : Sealed dir name h w.disk file data m f) :
    (Bytes.toByteArray f.encode).size = chunkHeaderSize := by
  rw [Bytes.size_toByteArray, ChunkFooter.length_encode hs.footerFits.2.2.2.2]

/-- A sealed file reopens with its header, its footer, its position map and its data size. -/
theorem Sealed.openExisting (hs : Sealed dir name h w.disk file data m f) (act : Option Nat)
    (handle : Nat) :
    Runs (Chunk.openExisting dir name act handle) w
      { handle, name, header := h, file, footer := some f, posMap := m,
        physicalDataSize := data.size } w := by
  have hsize := hs.size
  have hhead : (w.disk.file file).slice 0 chunkHeaderSize = h.encode.toByteArray := by
    have hsh := hs.shows
    rw [ByteArray.append_assoc, ByteArray.append_assoc] at hsh
    rw [← size_header_toByteArray h]
    exact hsh.slice_prefix
  have hfoot : (w.disk.file file).slice (w.disk.size file - chunkHeaderSize) chunkHeaderSize =
      f.encode.toByteArray := by
    have hsl := hs.shows.slice_suffix
    rwa [hs.size_footer, ByteArray.size_append, ByteArray.size_append, size_header_toByteArray,
      show chunkHeaderSize + data.size + (posMapBytes m).size =
        w.disk.size file - chunkHeaderSize by omega] at hsl
  have hmap : (w.disk.file file).slice (chunkHeaderSize + f.physicalDataSize) f.mapSize =
      posMapBytes m := by
    have hsl := hs.shows.slice_part
    rwa [ByteArray.size_append, size_header_toByteArray, ← hs.dataSize, ← hs.mapSize] at hsl
  have hdec : ChunkFooter.decode.run (Bytes.ofByteArray f.encode.toByteArray) = .ok (f, []) := by
    simpa [Bytes.ofByteArray_toByteArray] using ChunkFooter.reads_encode hs.footerFits []
  unfold Chunk.openExisting
  refine Runs.bind (World.runs_diskTry (runs_openFile hs.found)) ?_
  refine Runs.bind (World.runs_currentDisk w) ?_
  dsimp only
  rw [if_neg (by omega)]
  refine Runs.bind (runs_readHeaderOf hs.headerFits (by omega) hhead name) ?_
  -- the footer is found from the file's end, and the sizes it gives add up to the file's length
  refine Runs.bind (runs_tryReadFooter_of_decode (by omega) (Nat.le_refl _) (hfoot ▸ hdec)) ?_
  rw [if_pos hs.completed]
  dsimp only
  rw [if_neg (by rw [hs.dataSize, hs.mapSize]; omega)]
  refine Runs.bind (hs.mapSize ▸ runs_readPosMap hs.mapFits
    (by rw [hs.dataSize]; omega) (hs.mapSize ▸ hmap)) ?_
  rw [hs.dataSize]
  exact Runs.pure _ _

/-- The hash in a sealed file's footer is the hash of the bytes before the footer. -/
theorem Sealed.verifyHash (hs : Sealed dir name h w.disk file data m f) {c : Chunk}
    (hfile : c.file = file) (hfooter : c.footer = some f) : Runs c.verifyHash w () w := by
  obtain ⟨st, habs, hhash⟩ := hs.hash
  -- the hash of the bytes read again is the state that took in exactly those bytes
  have hre : (({} : Sha256).update (h.encode.toByteArray ++ data ++ posMapBytes m)) = st := by
    have := Sha256.absorbed_empty.update (h.encode.toByteArray ++ data ++ posMapBytes m)
    rw [ByteArray.empty_append] at this
    exact this.eq habs
  have hsl : (w.disk.file file).slice 0 (chunkHeaderSize + f.physicalDataSize + f.mapSize - 0) =
      h.encode.toByteArray ++ data ++ posMapBytes m := by
    rw [Nat.sub_zero]
    exact hs.slice_hashed
  have hsize : chunkHeaderSize + f.physicalDataSize + f.mapSize ≤ w.disk.size file := by
    rw [hs.size, hs.dataSize, hs.mapSize]
    omega
  unfold Chunk.verifyHash
  rw [hfooter, hfile]
  refine Runs.bind (runs_hashRange (Nat.zero_le _) hsize hsl {}) ?_
  rw [hre, if_neg (by rw [hhash]; exact fun h => h rfl)]
  rfl

/-- Reading a header looks at the disk and changes nothing. -/
theorem readOnly_readHeaderOf (file : Nat) (name : String) : ReadOnly (readHeaderOf file name) := by
  unfold readHeaderOf
  refine World.readOnly_currentDisk.bind fun d => ?_
  split
  · exact ReadOnly.throw _
  · split
    · exact ReadOnly.pure _
    · exact ReadOnly.throw _

/-- An active chunk's file holds zeros where a footer would be: no footer is found in it. -/
theorem Writing.tryReadFooter_none {cap : Nat} {c : Chunk}
    (hw : Writing dir name h cap c w.disk data) :
    Runs (tryReadFooter c.file (w.disk.size c.file)) w none w := by
  have hlen := hw.fileSize
  have hW : (h.encode.toByteArray ++ data).size ≤ w.disk.size c.file - chunkHeaderSize := by
    rw [ByteArray.size_append, size_header_toByteArray]
    have := hw.room
    omega
  have hdec : ChunkFooter.decode.run (Bytes.ofByteArray ((w.disk.file c.file).slice
      (w.disk.size c.file - chunkHeaderSize) chunkHeaderSize)) = .error .badMagic := by
    rw [hw.shows.slice_zeros hW, Bytes.ofByteArray_zeros,
      show chunkHeaderSize = 4 + 124 from rfl, List.replicate_add]
    exact ChunkFooter.decode_zeros _
  exact runs_tryReadFooter_of_error (by omega) (Nat.le_refl _) hdec

/-- Reopening an active chunk's file never gives a completed chunk, whatever data size it is
opened with. -/
theorem Writing.footer_openExisting {cap : Nat} {c : Chunk}
    (hw : Writing dir name h cap c w.disk data)
    {act : Option Nat} {handle : Nat} {c' : Chunk} {w' : World}
    (hr : Runs (Chunk.openExisting dir name act handle) w c' w') : c'.footer = none := by
  have hlen := hw.fileSize
  unfold Chunk.openExisting at hr
  obtain ⟨file, w₁, h₁, hr⟩ := hr.bind_inv
  obtain ⟨d, hd, rfl⟩ := World.runs_diskTry_inv h₁
  rw [runs_openFile hw.found, Except.ok.injEq, Prod.mk.injEq] at hd
  obtain ⟨rfl, rfl⟩ := hd
  obtain ⟨d₁, w₂, h₂, hr⟩ := hr.bind_inv
  obtain ⟨rfl, rfl⟩ := World.runs_currentDisk_inv h₂
  dsimp only at hr
  rw [if_neg (by omega)] at hr
  obtain ⟨hd, w₃, h₃, hr⟩ := hr.bind_inv
  obtain ⟨rfl, -⟩ := Runs.returns (readOnly_readHeaderOf _ _) h₃
  obtain ⟨fo, w₄, h₄, hr⟩ := hr.bind_inv
  obtain ⟨rfl, rfl⟩ := Runs.unique h₄ hw.tryReadFooter_none
  -- without a footer the file is opened as an active chunk, or refused
  refine (show Always _ fun c : Chunk => c.footer = none from ?_) w₄ c' w' hr
  dsimp only
  -- each step is matched by its head symbol only, so no alternative unfolds the model
  repeat' first
    | with_reducible refine Always.ite ?_ ?_
    | with_reducible refine Always.bind fun _ => ?_
    | with_reducible exact Always.pure rfl
    | with_reducible exact Always.fail
    | split

end Reading

/-! ## The round trip -/

/-- A chunk file created under a free name with a header that fits its layout, given any data
(each part written if it fits the chunk's capacity) and completed with any position map, reopens
with the header, the footer completion wrote, the map and the data size, and its hash checks; the
footer marks the chunk completed, and scavenged exactly when the header does. Before completion
the file never reopens as a completed chunk. Creation, the appends and completion all run, and
each has one outcome, so these are the outcomes of every such run. -/
theorem reopens_as_written {w : World} {dir name : String} {h : ChunkHeader} {cap size : Nat}
    (hfree : w.disk.find? dir name = none) (hh : h.Fits) (hcap : h.capacity? = some cap)
    (hsize : chunkHeaderSize + cap + chunkHeaderSize ≤ size) (handle : Nat) (ds : List ByteArray)
    (hdata : totalSize ds < Nat.pow 2 32) {m : List PosMapEntry}
    (hm : ∀ e ∈ m, e.Fits) (hmap : (posMapBytes m).size < Nat.pow 2 32) :
    ∃ c w₁ c₁ w₂ f w₃,
      Runs (createNew dir name h size handle) w c w₁ ∧ Runs (c.appendAll ds) w₁ c₁ w₂ ∧
      (∀ act handle' c' w', Runs (openExisting dir name act handle') w₂ c' w' → c'.footer = none) ∧
      Runs (c₁.completeWithMap m) w₂ (f, { c₁ with work := none, footer := some f }) w₃ ∧
      f.isCompleted ∧ f.isScavenged = h.isScavenged ∧
      ∀ act handle', ∃ c', Runs (openExisting dir name act handle') w₃ c' w₃ ∧
        c'.header = h ∧ c'.footer = some f ∧ c'.posMap = m ∧
        c'.physicalDataSize = c₁.physicalDataSize ∧ Runs c'.verifyHash w₃ () w₃ := by
  obtain ⟨c, w₁, hc, hw₁⟩ := Writing.createNew hfree hcap hsize handle
  obtain ⟨c₁, w₂, data, hc₁, hw₂, hsize₂⟩ := hw₁.appendAll ds
  have hdata₂ : data.size < Nat.pow 2 32 := by
    rw [ByteArray.size_empty, Nat.zero_add] at hsize₂
    omega
  obtain ⟨f, w₃, hc₂, hscav, hs⟩ := hw₂.completeWithMap hh hdata₂ hm hmap
  refine ⟨c, w₁, c₁, w₂, f, w₃, hc, hc₁, fun _ _ _ _ hr => hw₂.footer_openExisting hr, hc₂,
    hs.completed, hscav, fun act handle' => ⟨_, hs.openExisting act handle', rfl, rfl, rfl, ?_,
    hs.verifyHash rfl rfl⟩⟩
  exact hw₂.dataSize.symm

/-- A scavenged header of one chunk of 1 KiB. -/
def sampleHeader : ChunkHeader :=
  { version := 1, chunkSize := 1024, chunkStartNumber := 0, chunkEndNumber := 0,
    isScavenged := true, chunkId := ⟨7⟩, creationTime := 0 }

theorem sample_chunk_reopens :
    ({} : World).disk.find? "db" "chunk-000000.000000" = none ∧ sampleHeader.Fits ∧
    sampleHeader.capacity? = some 1024 ∧
    chunkHeaderSize + 1024 + chunkHeaderSize ≤ chunkHeaderSize + 1024 + chunkHeaderSize ∧
    totalSize [ByteArray.mk #[1, 2, 3], ByteArray.mk #[4, 5]] < Nat.pow 2 32 ∧
    (∀ e ∈ [PosMapEntry.mk 0 0, PosMapEntry.mk 3 3], e.Fits) ∧
    (posMapBytes [PosMapEntry.mk 0 0, PosMapEntry.mk 3 3]).size < Nat.pow 2 32 ∧
    ∃ c w₁ c₁ w₂ f w₃,
      Runs (createNew "db" "chunk-000000.000000" sampleHeader
        (chunkHeaderSize + 1024 + chunkHeaderSize) 0) {} c w₁ ∧
      Runs (c.appendAll [ByteArray.mk #[1, 2, 3], ByteArray.mk #[4, 5]]) w₁ c₁ w₂ ∧
      (∀ act handle' c' w', Runs (openExisting "db" "chunk-000000.000000" act handle') w₂ c' w' →
        c'.footer = none) ∧
      Runs (c₁.completeWithMap [PosMapEntry.mk 0 0, PosMapEntry.mk 3 3]) w₂
        (f, { c₁ with work := none, footer := some f }) w₃ ∧
      f.isCompleted ∧ f.isScavenged = sampleHeader.isScavenged ∧
      ∀ act handle', ∃ c', Runs (openExisting "db" "chunk-000000.000000" act handle') w₃ c' w₃ ∧
        c'.header = sampleHeader ∧ c'.footer = some f ∧
        c'.posMap = [PosMapEntry.mk 0 0, PosMapEntry.mk 3 3] ∧
        c'.physicalDataSize = c₁.physicalDataSize ∧ Runs c'.verifyHash w₃ () w₃ := by
  have hfree : ({} : World).disk.find? "db" "chunk-000000.000000" = none := rfl
  have hh : sampleHeader.Fits := by
    unfold ChunkHeader.Fits Uuid.Fits
    decide
  have hcap : sampleHeader.capacity? = some 1024 := by decide
  have hsum : totalSize [ByteArray.mk #[1, 2, 3], ByteArray.mk #[4, 5]] < Nat.pow 2 32 := by
    decide
  have hm : ∀ e ∈ [PosMapEntry.mk 0 0, PosMapEntry.mk 3 3], e.Fits := by
    unfold PosMapEntry.Fits
    decide
  have hmap : (posMapBytes [PosMapEntry.mk 0 0, PosMapEntry.mk 3 3]).size < Nat.pow 2 32 := by
    rw [size_posMapBytes]
    decide
  exact ⟨hfree, hh, hcap, Nat.le_refl _, hsum, hm, hmap,
    reopens_as_written hfree hh hcap (Nat.le_refl _) 0 _ hsum hm hmap⟩

end Chunk

end EventStore
