import EventStore.Proofs.Store.Runs
import EventStore.Proofs.Disk.Bytes
import EventStore.Proofs.Log.Frame
import EventStore.Store.Writer
import EventStore.Proofs.Chunk.FileNames

/-!
# How the chunk writer lays records out

The records the writer appended sit in the data regions of the chunk files, one frame after
another from each chunk's start. `Layout s plan` says how, for a store `s`: chunk `i` of the
chunk list is chunk number `i`, and the data region of its file holds the frames of the records
`plan[i]`, each record standing at the log position its frame starts at (`ChunkHolds`). Only the
last chunk is active; every other chunk was completed or is full. The writer stands where the last
chunk's data ends, and the writer checkpoint was written there.

This module states the layout and what the chunk list and the chunk file actions do to it: an
append lays a frame after the data, completing a chunk leaves its data region as it was, and a
new chunk file holds no data. What the writer's own actions do with these is in
`Proofs/Store/Writes`.
-/

namespace EventStore

/-! ## Records as a chunk holds them -/

namespace Record

/-- The frames of records written one after another. -/
def frames (rs : List Record) : Bytes := rs.flatMap Record.framed

@[simp] theorem frames_nil : frames [] = [] := rfl

theorem frames_cons (r : Record) (rs : List Record) : frames (r :: rs) = r.framed ++ frames rs :=
  List.flatMap_cons

theorem frames_append (rs rs' : List Record) : frames (rs ++ rs') = frames rs ++ frames rs' :=
  List.flatMap_append

@[simp] theorem frames_singleton (r : Record) : frames [r] = r.framed := by
  simp [frames]

/-- Records laid one after another from log position `base`: each stands at the position its
frame starts at, fits the widths of its fields, and has a body a reader takes. -/
def Placed (base : Int) : List Record → Prop
  | [] => True
  | r :: rs => r.logPosition = base ∧ r.Fits ∧ r.encode.length ≤ maxRecordSize ∧
      Placed (base + r.framed.length) rs

theorem placed_append {base : Int} {rs : List Record} {r : Record} (h : Placed base rs)
    (hr : r.logPosition = base + (frames rs).length) (hfit : r.Fits)
    (hmax : r.encode.length ≤ maxRecordSize) : Placed base (rs ++ [r]) := by
  induction rs generalizing base with
  | nil => exact ⟨by simpa using hr, hfit, hmax, trivial⟩
  | cons r' rs ih =>
    obtain ⟨h₁, h₂, h₃, h₄⟩ := h
    refine ⟨h₁, h₂, h₃, ih h₄ ?_⟩
    rw [hr, frames_cons, List.length_append]
    omega

end Record

/-- A record builder as the writer takes one: the record it builds for a log position stands at
that position, fits the widths of its fields and has a body a reader takes, for every position a
log can reach. -/
def Builds (make : Int → Record) : Prop :=
  ∀ p : Int, 0 ≤ p → p < Nat.pow 2 63 →
    (make p).logPosition = p ∧ (make p).Fits ∧ (make p).encode.length ≤ maxRecordSize

/-- Wrapping a position that fits a 64-bit word changes nothing. -/
theorem Word.pos_of_lt {x : Int} (h0 : 0 ≤ x) (h1 : x < Nat.pow 2 63) : Word.pos x = x := by
  unfold Word.pos Word.signed
  have h64 : ((Nat.pow 2 64 : Nat) : Int) = 2 * (Nat.pow 2 63 : Nat) := by decide
  have hm : x % ((Nat.pow 2 64 : Nat) : Int) = x := Int.emod_eq_of_lt h0 (by omega)
  rw [Int.bmod_eq_emod_of_lt (by rw [hm]; omega), hm]

/-- A header of chunk numbers `a` to `b`, below `2 ^ 32`, with a chunk size below `2 ^ 31`, spans
the positions from `a` chunk sizes to `b + 1` chunk sizes, with no wrapping. -/
theorem ChunkHeader.span {h : ChunkHeader} {a b cs : Nat} (hs : h.chunkStartNumber = a)
    (he : h.chunkEndNumber = b) (hc : h.chunkSize = cs) (hab : a ≤ b) (hb : b < Nat.pow 2 32)
    (hcs : cs < Nat.pow 2 31) :
    h.startPosition = ((a * cs : Nat) : Int) ∧ h.endPosition = (((b + 1) * cs : Nat) : Int) ∧
      h.capacity? = some ((b + 1 - a) * cs) := by
  have hpow : Nat.pow 2 32 * Nat.pow 2 31 = Nat.pow 2 63 := by decide
  have hend : (b + 1) * cs < Nat.pow 2 63 := by
    rcases Nat.eq_zero_or_pos cs with rfl | hpos
    · simp only [Nat.mul_zero]
      decide
    · calc (b + 1) * cs ≤ Nat.pow 2 32 * cs := Nat.mul_le_mul_right _ hb
        _ < Nat.pow 2 32 * Nat.pow 2 31 := Nat.mul_lt_mul_of_pos_left hcs (by decide)
        _ = Nat.pow 2 63 := hpow
  have hstart : a * cs ≤ (b + 1) * cs := Nat.mul_le_mul_right _ (by omega)
  have hs' : h.startPosition = ((a * cs : Nat) : Int) := by
    unfold ChunkHeader.startPosition
    rw [hs, hc, ← Int.natCast_mul,
      Word.pos_of_lt (Int.natCast_nonneg _) (Int.ofNat_lt.2 (Nat.lt_of_le_of_lt hstart hend))]
  have he' : h.endPosition = (((b + 1) * cs : Nat) : Int) := by
    unfold ChunkHeader.endPosition
    have hcast : ((b : Int) + 1) * (cs : Int) = (((b + 1) * cs : Nat) : Int) := by
      rw [Int.natCast_mul, Int.natCast_add, Int.natCast_one]
    rw [he, hc, hcast, Word.pos_of_lt (Int.natCast_nonneg _) (Int.ofNat_lt.2 hend)]
  refine ⟨hs', he', ?_⟩
  unfold ChunkHeader.capacity?
  have hspan : h.endPosition - h.startPosition = (((b + 1 - a) * cs : Nat) : Int) := by
    rw [hs', he', Nat.sub_mul, Int.ofNat_sub hstart]
  have hlt : (b + 1 - a) * cs < Nat.pow 2 63 :=
    Nat.lt_of_le_of_lt (Nat.mul_le_mul_right _ (Nat.sub_le _ _)) hend
  rw [hspan, Word.pos_of_lt (Int.natCast_nonneg _) (Int.ofNat_lt.2 hlt)]
  dsimp only
  rw [if_pos (Int.natCast_nonneg _), Int.toNat_natCast]

/-- A header of one chunk number below `2 ^ 32`, with a chunk size below `2 ^ 31`, spans a chunk
size of positions from its number times the chunk size, with no wrapping. -/
theorem ChunkHeader.span_single {h : ChunkHeader} {i cs : Nat} (hs : h.chunkStartNumber = i)
    (he : h.chunkEndNumber = i) (hc : h.chunkSize = cs) (hi : i < Nat.pow 2 32)
    (hcs : cs < Nat.pow 2 31) :
    h.startPosition = ((i * cs : Nat) : Int) ∧ h.endPosition = (((i + 1) * cs : Nat) : Int) ∧
      h.capacity? = some cs := by
  obtain ⟨hs', he', hcap⟩ := ChunkHeader.span hs he hc (Nat.le_refl i) hi hcs
  have hone : (i + 1 - i) * cs = cs := by rw [Nat.add_sub_cancel_left, Nat.one_mul]
  exact ⟨hs', he', hone ▸ hcap⟩

/-! ## The layout -/

/-- Chunk `c` is chunk number `i` of a log of chunk size `cs`, and the data region of its file on
`d` holds the frames of `rs`, laid from the chunk's start. An active chunk writes next where its
data ends. -/
structure ChunkHolds (cs : Nat) (d : Disk) (i : Nat) (rs : List Record) (c : Chunk) : Prop where
  start : c.header.chunkStartNumber = i
  stop : c.header.chunkEndNumber = i
  unscavenged : c.header.isScavenged = false
  chunkSize : c.header.chunkSize = cs
  dataSize : c.physicalDataSize = (Record.frames rs).length
  room : c.physicalDataSize ≤ cs
  placed : Record.Placed ((i * cs : Nat) : Int) rs
  bytes : ∀ o (h : o < (Record.frames rs).length),
    (d.file c.file).byteAt (chunkHeaderSize + o) = (Record.frames rs)[o]
  fileSize : chunkHeaderSize + c.physicalDataSize ≤ d.size c.file
  fileExists : c.file < d.files.size
  active : c.isCompleted = false →
    ∃ wk, c.work = some wk ∧ wk.position = chunkHeaderSize + c.physicalDataSize

/-- Chunks of size `cs` in directory `dir`, on world `w`, hold the records of `plan`, those of
chunk `i` in the chunk at index `i`: the chunks are numbered by their place, below `2 ^ 32`, and
every chunk but the last was completed or is full. Handles and files of the chunks are distinct,
handles were drawn before the world's counter, no file of a later chunk number exists, and every
file keeps its runs ordered. The chunk size leaves every position of the 32-bit chunk numbers
inside a 64-bit word. -/
structure Laid (cs : Nat) (dir : String) (chunks : List Chunk) (w : World)
    (plan : List (List Record)) : Prop where
  chunkSize_pos : 0 < cs
  chunkSize_lt : cs < Nat.pow 2 31
  length : chunks.length = plan.length
  numbers : plan.length ≤ Nat.pow 2 32
  holds : ∀ i (hc : i < chunks.length) (hp : i < plan.length),
    ChunkHolds cs w.disk i plan[i] chunks[i]
  full : ∀ i (hc : i + 1 < chunks.length),
    chunks[i].isCompleted = true ∨ chunks[i].physicalDataSize = cs
  handles : (chunks.map Chunk.handle).Nodup
  fresh : ∀ c ∈ chunks, c.handle < w.fresh
  files : (chunks.map Chunk.file).Nodup
  ordered : w.disk.Ordered
  names : ∀ m, plan.length ≤ m → w.disk.find? dir (ChunkFileName.ofParts m 0) = none

/-- Where the log of `plan` ends: after the data of its last chunk. -/
def planEnd (cs : Nat) (plan : List (List Record)) : Int :=
  ((plan.length - 1) * cs + (Record.frames (plan.getLastD [])).length : Nat)

/-- The layout of a store's log, with the writer at its end: where the last chunk's data ends, or,
once the last chunk was completed, where the next chunk is to start. The database is usable, the
writer checkpoint was written where the writer stands, and the writer's current chunk, if it has
one, is the last chunk, still active. -/
structure Layout (s : Store) (plan : List (List Record)) : Prop where
  laid : Laid s.db.config.chunkSize s.db.config.dir s.db.chunks s.world plan
  sound : s.db.poisoned = false
  position : s.writer.position = planEnd s.db.config.chunkSize plan ∨
    ∃ c ∈ s.db.chunks.getLast?, c.isCompleted = true ∧
      s.writer.position = ((plan.length * s.db.config.chunkSize : Nat) : Int)
  written : s.db.config.checkpoints.writer.last = s.writer.position
  current : ∀ h ∈ s.writer.current,
    ∃ c ∈ s.db.chunks.getLast?, c.handle = h ∧ c.isCompleted = false

/-! ## The chunk list -/

/-- The chunk number after `n`, counted modulo `2 ^ 32`. -/
theorem Word.nextChunk_eq (n : Nat) : Word.nextChunk n = (n + 1) % Nat.pow 2 32 := by
  unfold Word.nextChunk Word.unsigned
  exact Int.toNat_natCast ((n + 1) % Nat.pow 2 32)

namespace ChunkList

/-- Chunks numbered by their place in the list, each covering its own number only. -/
def Numbered (cs : List Chunk) : Prop :=
  ∀ i (h : i < cs.length), cs[i].header.chunkStartNumber = i ∧ cs[i].header.chunkEndNumber = i

theorem Numbered.of_append {cs : List Chunk} {c : Chunk} (h : Numbered (cs ++ [c])) :
    Numbered cs ∧ c.header.chunkStartNumber = cs.length ∧ c.header.chunkEndNumber = cs.length := by
  refine ⟨fun i hi => ?_, ?_⟩
  · have := h i (by simp; omega)
    rwa [List.getElem_append_left hi] at this
  · have := h cs.length (by simp)
    simpa using this

theorem Numbered.append {cs : List Chunk} {c : Chunk} (h : Numbered cs)
    (hs : c.header.chunkStartNumber = cs.length) (he : c.header.chunkEndNumber = cs.length) :
    Numbered (cs ++ [c]) := fun i hi => by
  by_cases hlt : i < cs.length
  · rw [List.getElem_append_left hlt]
    exact h i hlt
  · have hi' : i = cs.length := by simp at hi; omega
    subst hi'
    simpa using ⟨hs, he⟩

theorem Numbered.lt {cs : List Chunk} (h : Numbered cs) {d : Chunk} (hd : d ∈ cs) :
    d.header.chunkStartNumber < cs.length ∧ d.header.chunkEndNumber < cs.length := by
  obtain ⟨i, hi, rfl⟩ := List.mem_iff_getElem.1 hd
  rw [(h i hi).1, (h i hi).2]
  exact ⟨hi, hi⟩

/-- In numbered chunks, the chunk of a number is the one at that place. -/
theorem get?_numbered {cs : List Chunk} (h : Numbered cs) (n : Nat) : get? cs n = cs[n]? := by
  -- built up from the last chunk
  obtain ⟨l, rfl⟩ : ∃ l, cs = l.reverse := ⟨cs.reverse, by simp⟩
  induction l with
  | nil => rfl
  | cons c l ih =>
    rw [List.reverse_cons] at h ⊢
    generalize l.reverse = cs at h ih
    obtain ⟨hcs, hs, he⟩ := h.of_append
    unfold get? at ih ⊢
    rw [List.filter_append]
    by_cases hn : cs.length ≤ n
    · -- the added chunk is the last one starting at or before `n`, and it covers only its own
      rw [List.filter_cons_of_pos (by simpa [hs] using hn), List.filter_nil, List.getLast?_concat]
      rcases Nat.eq_or_lt_of_le hn with rfl | hlt
      · simp [Option.filter, ChunkHeader.covers, hs, he]
      · rw [List.getElem?_eq_none (by simp; omega)]
        simp only [Option.filter, ChunkHeader.covers, hs, he]
        rw [if_neg (by simp; omega)]
    · rw [List.filter_cons_of_neg (by simpa [hs] using hn), List.filter_nil, List.append_nil,
        ih hcs, List.getElem?_append_left (by omega)]

/-- In numbered chunks, the next new chunk gets the number past the last, as a 32-bit number. -/
theorem count_numbered {cs : List Chunk} (h : Numbered cs) : count cs = cs.length % Nat.pow 2 32 := by
  obtain ⟨l, rfl⟩ : ∃ l, cs = l.reverse := ⟨cs.reverse, by simp⟩
  cases l with
  | nil => rfl
  | cons c l =>
    rw [List.reverse_cons] at h ⊢
    obtain ⟨-, -, he⟩ := h.of_append
    simp [count, he, Word.nextChunk_eq]

/-- A chunk numbered past the last of numbered chunks is added at their end. -/
theorem add_numbered {cs : List Chunk} (h : Numbered cs) {c : Chunk}
    (hs : c.header.chunkStartNumber = cs.length) (he : c.header.chunkEndNumber = cs.length) :
    (add cs c).2 = cs ++ [c] := by
  unfold add
  dsimp only
  -- every chunk ends before the new one starts: none overlaps it, and all come before it
  have hkept : cs.filter (fun d => !(d.header.chunkStartNumber ≤ c.header.chunkEndNumber &&
      c.header.chunkStartNumber ≤ d.header.chunkEndNumber)) = cs :=
    List.filter_eq_self.2 fun d hd => by
      have := (h.lt hd).2
      simp only [hs, Bool.not_eq_true', Bool.and_eq_false_iff, decide_eq_false_iff_not]
      omega
  rw [hkept, List.filter_eq_self.2 fun d hd => by simpa [hs] using (h.lt hd).1,
    List.filter_eq_nil_iff.2 fun d hd => by simpa [hs] using Nat.le_of_lt (h.lt hd).1,
    List.append_nil]

/-- Putting back a chunk by its handle replaces the one chunk with that handle. -/
theorem update_eq_set {cs : List Chunk} (hn : (cs.map Chunk.handle).Nodup) {k : Nat}
    (hk : k < cs.length) {c : Chunk} (hc : cs[k].handle = c.handle) :
    update cs c = cs.set k c := by
  unfold update
  refine List.ext_getElem (by simp) fun i h₁ h₂ => ?_
  rw [List.getElem_map, List.getElem_set]
  by_cases hi : k = i
  · subst hi
    rw [if_pos hc, if_pos rfl]
  · rw [if_neg hi, if_neg]
    intro hh
    have hi' : i < (cs.map Chunk.handle).length := by simpa using h₂
    have hk' : k < (cs.map Chunk.handle).length := by simpa using hk
    have heq : (cs.map Chunk.handle)[i] = (cs.map Chunk.handle)[k] := by simp [hh, hc]
    exact hi ((List.getElem_inj hn).1 heq).symm

/-- The chunk with a handle, among chunks of distinct handles. -/
theorem find?_handle {cs : List Chunk} (hn : (cs.map Chunk.handle).Nodup) {k : Nat}
    (hk : k < cs.length) : cs.find? (·.handle = cs[k].handle) = some cs[k] := by
  refine List.find?_eq_some_iff_getElem.2 ⟨by simp, k, hk, rfl, fun j hj => ?_⟩
  have hj' : j < (cs.map Chunk.handle).length := by simp; omega
  have hk' : k < (cs.map Chunk.handle).length := by simpa using hk
  have hne : (cs.map Chunk.handle)[j] ≠ (cs.map Chunk.handle)[k] :=
    mt (List.getElem_inj hn).1 (by omega)
  simpa using hne

end ChunkList


/-! ## Chunk file actions -/

namespace World

variable {ε α : Type} {w w' : World}

theorem runs_onDisk_inv {g : Disk → Disk} {u : Unit} (h : Runs (onDisk g : WorldM ε Unit) w u w') :
    w' = { w with disk := g w.disk } :=
  Runs.modify_inv h

theorem runs_diskTry_inv {wrap : IoError → ε} {g : Disk → Except IoError (Disk × α)} {a : α}
    (h : Runs (diskTry wrap g) w a w') : ∃ d, g w.disk = .ok (d, a) ∧ w' = { w with disk := d } := by
  unfold diskTry at h
  obtain ⟨x, w₁, hg, h₁⟩ := h.bind_inv
  obtain ⟨hx, hw₁⟩ := Runs.get_inv hg
  subst x w₁
  split at h₁
  · rename_i d a' hd
    obtain ⟨_, w₂, hs, hp⟩ := h₁.bind_inv
    obtain ⟨rfl, rfl⟩ := Runs.pure_inv hp
    cases hs
    exact ⟨d, hd, rfl⟩
  · exact absurd h₁ Runs.not_fail

theorem runs_freshNat_inv {n : Nat} (h : Runs (freshNat : WorldM ε Nat) w n w') :
    n = w.fresh ∧ w' = { w with fresh := w.fresh + 1 } :=
  Runs.modifyGet_inv h

theorem runs_freshId_inv {u : Uuid} (h : Runs (freshId : WorldM ε Uuid) w u w') :
    w' = { w with fresh := w.fresh + 1 } :=
  (Runs.modifyGet_inv h).2

theorem runs_currentDisk_inv {d : Disk} (h : Runs (currentDisk : WorldM ε Disk) w d w') :
    d = w.disk ∧ w' = w := by
  unfold currentDisk at h
  obtain ⟨x, w₁, hg, hp⟩ := h.bind_inv
  obtain ⟨hx, hw₁⟩ := Runs.get_inv hg
  subst x w₁
  exact Runs.pure_inv hp

end World

namespace DbConfig

theorem runs_chunkNumberOf_inv {ε : Type} {cfg : DbConfig} {p : Int} {n : Nat} {w w' : World}
    (h : Runs (cfg.chunkNumberOf p : WorldM ε Nat) w n w') :
    w' = w ∧ 0 < cfg.chunkSize ∧ (n : Int) = p.tdiv cfg.chunkSize := by
  obtain ⟨hw, hr⟩ := Runs.returns (readOnly_chunkNumberOf cfg p) h
  exact ⟨hw, yields_chunkNumberOf w cfg p n hr⟩

end DbConfig

namespace Chunk

variable {w w' : World}

theorem runs_capacityOf_inv {ε : Type} {hd : ChunkHeader} {n : Nat}
    (h : Runs (capacityOf hd : WorldM ε Nat) w n w') : hd.capacity? = some n ∧ w' = w := by
  unfold capacityOf at h
  cases hc : hd.capacity? with
  | none =>
    rw [hc] at h
    exact absurd h Runs.not_stop
  | some c =>
    rw [hc] at h
    obtain ⟨hn, hw⟩ := Runs.pure_inv h
    exact ⟨congrArg some hn.symm, hw⟩

theorem runs_appendData_inv {file : Nat} {wk wk' : ChunkWork} {bs : ByteArray}
    (h : Runs (appendData file wk bs) w wk' w') :
    wk'.position = wk.position + bs.size ∧ w' = { w with disk := w.disk.write file wk.position bs } := by
  unfold appendData at h
  obtain ⟨_, w₁, h₁, h₂⟩ := h.bind_inv
  obtain ⟨hv, hw⟩ := Runs.pure_inv h₂
  subst wk' w₁
  exact ⟨rfl, World.runs_onDisk_inv h₁⟩

/-- An append to an active chunk either finds no room and changes nothing, or writes the bytes
where the chunk's data ends and counts them into its data size. -/
theorem runs_append_inv {c c' : Chunk} {data : ByteArray} {b : Bool}
    (h : Runs (c.append data) w (b, c') w') :
    ∃ wk n, c.work = some wk ∧ c.header.capacity? = some n ∧
      ((n < c.physicalDataSize + data.size ∧ b = false ∧ c' = c ∧ w' = w) ∨
       (c.physicalDataSize + data.size ≤ n ∧ b = true ∧
        ∃ wk', wk'.position = wk.position + data.size ∧
          c' = { c with work := some wk', physicalDataSize := c.physicalDataSize + data.size } ∧
          w' = { w with disk := w.disk.write c.file wk.position data })) := by
  unfold append at h
  split at h
  · rename_i wk hwk
    obtain ⟨n, w₁, hn, h₁⟩ := h.bind_inv
    obtain ⟨hcap, hw₁⟩ := runs_capacityOf_inv hn
    subst w₁
    refine ⟨wk, n, hwk, hcap, ?_⟩
    split at h₁
    · rename_i hlt
      obtain ⟨hv, hw⟩ := Runs.pure_inv h₁
      cases hv
      exact .inl ⟨hlt, rfl, rfl, hw⟩
    · rename_i hge
      obtain ⟨wk', w₂, ha, hp⟩ := h₁.bind_inv
      obtain ⟨hv, hw⟩ := Runs.pure_inv hp
      obtain ⟨hpos, hw₂⟩ := runs_appendData_inv ha
      cases hv
      exact .inr ⟨by omega, rfl, wk', hpos, rfl, hw.trans hw₂⟩
  · exact absurd h Runs.not_fail

/-- Completing an active chunk writes an empty position map and the footer where its data ends,
and cuts the file after the footer. -/
theorem runs_complete_inv {c c' : Chunk} {ft : ChunkFooter} (h : Runs c.complete w (ft, c') w') :
    ∃ wk, c.work = some wk ∧ c' = { c with work := none, footer := some ft } ∧
      w' = { w with disk := (((w.disk.write c.file wk.position (posMapBytes [])).write c.file
        (wk.position + (posMapBytes []).size) ft.encode.toByteArray).setSize c.file
          (wk.position + (posMapBytes []).size + chunkHeaderSize)) } := by
  unfold complete completeWithMap at h
  split at h
  · rename_i wk hwk
    obtain ⟨wk', w₁, ha, h₁⟩ := h.bind_inv
    obtain ⟨hpos, hw₁⟩ := runs_appendData_inv ha
    dsimp only at h₁
    -- sizes too large for the footer stop the program
    split at h₁
    · obtain ⟨_, _, hs, _⟩ := h₁.bind_inv
      exact absurd hs Runs.not_stop
    obtain ⟨_, w₂, h₂, h₃⟩ := h₁.bind_inv
    obtain ⟨_, w₃, h₄, h₅⟩ := h₃.bind_inv
    obtain ⟨hv, hw⟩ := Runs.pure_inv h₅
    cases hv
    rw [hw, World.runs_onDisk_inv h₄, World.runs_onDisk_inv h₂, hw₁, hpos]
    exact ⟨wk, hwk, rfl, rfl⟩
  · exact absurd h Runs.not_fail

end Chunk


namespace Chunk

variable {w w' : World}

/-- Creating a chunk file takes a free name for a new file, sizes the file and writes the header
at its start; the chunk holds no data and writes next after the header. -/
theorem runs_createNew_inv {dir name : String} {header : ChunkHeader} {size handle : Nat}
    {c : Chunk} (h : Runs (createNew dir name header size handle) w c w') :
    ∃ wk, w.disk.find? dir name = none ∧ wk.position = header.encode.length ∧
      c = { handle, name, header, file := w.disk.files.size, work := some wk } ∧
      w' = { w with disk :=
        ((Disk.mk (w.disk.files.push {}) (w.disk.names ++ [(dir, name, w.disk.files.size)])).setSize
          w.disk.files.size size).write w.disk.files.size 0 (Bytes.toByteArray header.encode) } := by
  unfold createNew at h
  obtain ⟨file, w₁, h₁, h₂⟩ := h.bind_inv
  obtain ⟨d, hd, hw₁⟩ := World.runs_diskTry_inv h₁
  obtain ⟨hfree, rfl, rfl⟩ := Disk.create_eq hd
  obtain ⟨_, w₂, h₃, h₄⟩ := h₂.bind_inv
  obtain ⟨wk, w₃, h₅, h₆⟩ := h₄.bind_inv
  obtain ⟨hpos, hw₃⟩ := runs_appendData_inv h₅
  obtain ⟨hc, hw⟩ := Runs.pure_inv h₆
  refine ⟨wk, hfree, ?_, hc, ?_⟩
  · rw [hpos]
    simp [Bytes.toByteArray, ByteArray.size]
  · rw [hw, hw₃, World.runs_onDisk_inv h₃, hw₁]

end Chunk

namespace DbConfig

/-- Creating the file of a new chunk: its size is that of an active chunk of the header's
capacity, and its handle is the world's next number. -/
theorem runs_createChunkFile_inv {cfg : DbConfig} {header : ChunkHeader} {c : Chunk} {w w' : World}
    (h : Runs (cfg.createChunkFile header) w c w') :
    ∃ cap, header.capacity? = some cap ∧
      Runs (Chunk.createNew cfg.dir (ChunkFileName.ofParts header.chunkStartNumber 0) header
        (chunkHeaderSize + cap + chunkHeaderSize) w.fresh) { w with fresh := w.fresh + 1 } c w' := by
  unfold createChunkFile at h
  obtain ⟨size, w₁, h₁, h₂⟩ := h.bind_inv
  unfold Chunk.activeFileSize at h₁
  obtain ⟨cap, w₃, h₃, h₄⟩ := h₁.bind_inv
  obtain ⟨hcap, hw₃⟩ := Chunk.runs_capacityOf_inv h₃
  obtain ⟨hsize, hw₁⟩ := Runs.pure_inv h₄
  subst w₃ w₁ size
  obtain ⟨handle, w₂, h₅, h₆⟩ := h₂.bind_inv
  obtain ⟨rfl, rfl⟩ := World.runs_freshNat_inv h₅
  exact ⟨cap, hcap, h₆⟩

end DbConfig

theorem ChunkHeader.runs_fresh_inv {ε : Type} {cs start finish : Nat} {scav : Bool} {hd : ChunkHeader}
    {w w' : World} (h : Runs (ChunkHeader.fresh cs start finish scav : WorldM ε ChunkHeader) w hd w') :
    hd.chunkSize = cs ∧ hd.chunkStartNumber = start ∧ hd.chunkEndNumber = finish ∧
      hd.isScavenged = scav ∧ w' = { w with fresh := w.fresh + 1 } := by
  unfold ChunkHeader.fresh at h
  obtain ⟨u, w₁, h₁, h₂⟩ := h.bind_inv
  obtain ⟨rfl, rfl⟩ := Runs.pure_inv h₂
  exact ⟨rfl, rfl, rfl, rfl, World.runs_freshId_inv h₁⟩


/-! ## What changes to the disk leave of the layout -/

namespace ChunkHolds

variable {cs i : Nat} {rs : List Record} {c : Chunk} {d d' : Disk}

/-- A chunk's layout depends on its file only through the bytes of its data region, the file's
size and the number of files. -/
theorem of_disk (h : ChunkHolds cs d i rs c)
    (hbytes : ∀ o, o < c.physicalDataSize →
      (d'.file c.file).byteAt (chunkHeaderSize + o) = (d.file c.file).byteAt (chunkHeaderSize + o))
    (hsize : chunkHeaderSize + c.physicalDataSize ≤ d'.size c.file)
    (hcount : d.files.size ≤ d'.files.size) : ChunkHolds cs d' i rs c :=
  { h with
    bytes := fun o ho => by
      rw [hbytes o (by rw [h.dataSize]; exact ho)]
      exact h.bytes o ho
    fileSize := hsize
    fileExists := Nat.lt_of_lt_of_le h.fileExists hcount }

/-- A write before the data region or after it leaves a chunk's layout. -/
theorem write_outside (h : ChunkHolds cs d i rs c) (hd : d.Ordered) {g off : Nat} {bs : ByteArray}
    (hsep : g = c.file →
      chunkHeaderSize + c.physicalDataSize ≤ off ∨ off + bs.size ≤ chunkHeaderSize) :
    ChunkHolds cs (d.write g off bs) i rs c :=
  h.of_disk (fun _ _ => Disk.byteAt_write_outside hd fun hf => by have := hsep hf.symm; omega)
    (Nat.le_trans h.fileSize (Disk.size_le_size_write _ _ _ _ _)) (by simp)

/-- Cutting or growing a file no shorter than a chunk's data region leaves its layout. -/
theorem setSize_above (h : ChunkHolds cs d i rs c) {g len : Nat}
    (hlen : g = c.file → chunkHeaderSize + c.physicalDataSize ≤ len) :
    ChunkHolds cs (d.setSize g len) i rs c := by
  refine h.of_disk (fun _ _ => Disk.byteAt_setSize_below fun hf => by have := hlen hf.symm; omega)
    ?_ (by simp)
  rw [Disk.size_setSize]
  split
  · rename_i hg
    exact hlen hg.1.symm
  · exact h.fileSize

/-- A new file leaves the layout of the chunks of the old ones. -/
theorem push (h : ChunkHolds cs d i rs c) (names : List (String × String × Nat)) :
    ChunkHolds cs (Disk.mk (d.files.push {}) names) i rs c :=
  h.of_disk (fun _ _ => by rw [Disk.file_push])
    (by unfold Disk.size; rw [Disk.file_push]; exact h.fileSize) (by simp)

end ChunkHolds

namespace Laid

variable {cs : Nat} {dir : String} {chunks : List Chunk} {w : World} {plan : List (List Record)}

/-- A write that misses the data region of every chunk leaves the layout. -/
theorem write_outside (h : Laid cs dir chunks w plan) {g off : Nat} {bs : ByteArray}
    (hsep : ∀ c ∈ chunks, g = c.file →
      chunkHeaderSize + c.physicalDataSize ≤ off ∨ off + bs.size ≤ chunkHeaderSize) :
    Laid cs dir chunks { w with disk := w.disk.write g off bs } plan :=
  { h with
    holds := fun i hc hp => (h.holds i hc hp).write_outside h.ordered
      (hsep _ (List.getElem_mem hc))
    ordered := h.ordered.write g off bs
    names := fun m hm => h.names m hm }

end Laid

/-- Flushing a checkpoint leaves the disk as it is, or writes the eight bytes of its value at the
start of its file; either way its flushed value becomes its written one. -/
theorem Checkpoint.flush_spec (c : Checkpoint) (d : Disk) :
    ((c.flush d).1 = d ∨ ∃ f, (c.flush d).1 = d.write f 0 ⟨(Bytes.ofInt 8 c.last).toArray⟩) ∧
      (c.flush d).2.last = c.last ∧ (c.flush d).2.read = c.last := by
  unfold Checkpoint.flush
  split
  · exact ⟨.inl rfl, rfl, rfl⟩
  · rename_i f _
    split
    · rename_i heq
      exact ⟨.inl rfl, rfl, (beq_iff_eq.1 heq).symm⟩
    · exact ⟨.inr ⟨f, rfl⟩, rfl, rfl⟩

/-- Flushing a checkpoint leaves the layout: a checkpoint file's bytes lie before any data region. -/
theorem Laid.flush {cs : Nat} {dir : String} {chunks : List Chunk} {w : World}
    {plan : List (List Record)} (h : Laid cs dir chunks w plan) (c : Checkpoint) :
    Laid cs dir chunks { w with disk := (c.flush w.disk).1 } plan := by
  rcases (c.flush_spec w.disk).1 with hd | ⟨f, hd⟩
  · rw [hd]
    exact h
  · rw [hd]
    refine h.write_outside fun _ _ _ => .inr ?_
    show 0 + (Bytes.ofInt 8 c.last).toArray.size ≤ chunkHeaderSize
    simp [chunkHeaderSize]


@[simp] theorem Bytes.size_toByteArray (b : Bytes) : (Bytes.toByteArray b).size = b.length := by
  simp [Bytes.toByteArray, ByteArray.size]

theorem Bytes.byteOf_toByteArray (b : Bytes) (j : Nat) :
    FileData.byteOf (Bytes.toByteArray b) j = b[j]?.getD 0 := by
  simp [FileData.byteOf, Bytes.toByteArray]

namespace ChunkHolds

variable {cs i : Nat} {rs : List Record} {c : Chunk} {d : Disk}

/-- A frame appended where an active chunk's data ends lays one more record, at the position the
frame starts at. -/
theorem append (h : ChunkHolds cs d i rs c) (hd : d.Ordered) (hact : c.isCompleted = false)
    {wk : ChunkWork} (hwk : c.work = some wk) {r : Record}
    (hpos : r.logPosition = ((i * cs : Nat) : Int) + (Record.frames rs).length) (hfit : r.Fits)
    (hmax : r.encode.length ≤ maxRecordSize) (hroom : c.physicalDataSize + r.framed.length ≤ cs)
    {wk' : ChunkWork} (hwk' : wk'.position = wk.position + (Bytes.toByteArray r.framed).size) :
    ChunkHolds cs (d.write c.file wk.position (Bytes.toByteArray r.framed)) i (rs ++ [r])
      { c with work := some wk',
               physicalDataSize := c.physicalDataSize + (Bytes.toByteArray r.framed).size } := by
  obtain ⟨wk₀, hwk₀, hpos₀⟩ := h.active hact
  rw [hwk] at hwk₀
  cases hwk₀
  have hlen : (Record.frames (rs ++ [r])).length = c.physicalDataSize + r.framed.length := by
    rw [Record.frames_append, List.length_append, h.dataSize]
    simp [Record.frames]
  refine
    { start := h.start, stop := h.stop, unscavenged := h.unscavenged, chunkSize := h.chunkSize
      dataSize := by simp only [Bytes.size_toByteArray]; exact hlen.symm
      room := by simpa using hroom
      placed := Record.placed_append h.placed hpos hfit hmax
      bytes := fun o ho => ?_
      fileSize := ?_
      fileExists := by simpa using h.fileExists
      active := fun _ => ⟨wk', rfl, by simp only [hwk', hpos₀, Bytes.size_toByteArray]; omega⟩ }
  · -- the new frame's bytes follow the old data
    dsimp only
    rw [Disk.file_write_self h.fileExists, FileData.byteAt_write (hd _), hpos₀,
      Bytes.byteOf_toByteArray]
    have hdata := h.dataSize
    simp only [Record.frames_append, Record.frames_singleton] at ho ⊢
    by_cases hlo : o < c.physicalDataSize
    · rw [if_neg (by omega), List.getElem_append_left (by omega)]
      exact h.bytes o (by omega)
    · have hidx : chunkHeaderSize + o - (chunkHeaderSize + c.physicalDataSize) =
          o - (Record.frames rs).length := by omega
      rw [if_pos ⟨by omega, by simp at ho ⊢; omega⟩, List.getElem_append_right (by omega), hidx,
        List.getElem?_eq_getElem, Option.getD_some]
  · -- the write ends where the new data ends
    show chunkHeaderSize + (c.physicalDataSize + (Bytes.toByteArray r.framed).size) ≤
      ((d.write c.file wk.position (Bytes.toByteArray r.framed)).file c.file).size
    rw [Disk.file_write_self h.fileExists, FileData.size_write, Bytes.size_toByteArray, hpos₀]
    have := h.fileSize
    unfold Disk.size at this
    split <;> omega

/-- Completing a chunk keeps the layout of its data region. -/
theorem complete (h : ChunkHolds cs d i rs c) (ft : ChunkFooter) :
    ChunkHolds cs d i rs { c with work := none, footer := some ft } :=
  { h with active := fun hact => by simp [Chunk.isCompleted] at hact }

end ChunkHolds


/-- A header is 128 bytes long. -/
theorem ChunkHeader.length_encode (h : ChunkHeader) : h.encode.length = chunkHeaderSize := by
  simp [ChunkHeader.encode, ChunkHeader.marker, Bytes.ofUuid, chunkHeaderSize]

namespace Laid

variable {cs : Nat} {dir : String} {chunks : List Chunk} {w : World} {plan : List (List Record)}

/-- In a layout, the chunk at place `k` is the only one with its file. -/
theorem file_ne (h : Laid cs dir chunks w plan) {i k : Nat} (hi : i < chunks.length)
    (hk : k < chunks.length) (hik : i ≠ k) : chunks[i].file ≠ chunks[k].file := fun heq => by
  have hi' : i < (chunks.map Chunk.file).length := by simpa using hi
  have hk' : k < (chunks.map Chunk.file).length := by simpa using hk
  have hmap : (chunks.map Chunk.file)[i] = (chunks.map Chunk.file)[k] := by simp [heq]
  exact hik ((List.getElem_inj h.files).1 hmap)

/-- Replacing a chunk by one with the same handle and file keeps handles and files distinct. -/
theorem map_set_eq {β : Type} (g : Chunk → β) {k : Nat} (hk : k < chunks.length) {c : Chunk}
    (hg : g c = g chunks[k]) : (chunks.set k c).map g = chunks.map g := by
  rw [List.map_set, hg]
  have hk' : k < (chunks.map g).length := by simpa using hk
  have : g chunks[k] = (chunks.map g)[k] := by simp
  rw [this, List.set_getElem_self]

/-- A record appended to the last chunk, where its data ends and within its room: the layout
holds of the plan with the record added to the last chunk's records. -/
theorem append_last (h : Laid cs dir chunks w plan) {k : Nat} (hk : k + 1 = chunks.length)
    {c : Chunk} (hc : chunks[k]? = some c) {rs : List Record} (hrs : plan[k]? = some rs)
    (hact : c.isCompleted = false) {wk : ChunkWork} (hwk : c.work = some wk) {r : Record}
    (hpos : r.logPosition = ((k * cs : Nat) : Int) + (Record.frames rs).length) (hfit : r.Fits)
    (hmax : r.encode.length ≤ maxRecordSize) (hroom : c.physicalDataSize + r.framed.length ≤ cs)
    {wk' : ChunkWork} (hwk' : wk'.position = wk.position + (Bytes.toByteArray r.framed).size) :
    Laid cs dir
      (chunks.set k
        { c with work := some wk',
                 physicalDataSize := c.physicalDataSize + (Bytes.toByteArray r.framed).size })
      { w with disk := w.disk.write c.file wk.position (Bytes.toByteArray r.framed) }
      (plan.set k (rs ++ [r])) := by
  obtain ⟨hkc, hck⟩ := List.getElem?_eq_some_iff.1 hc
  obtain ⟨hkp, hpk⟩ := List.getElem?_eq_some_iff.1 hrs
  have hholds := h.holds k hkc hkp
  rw [hck, hpk] at hholds
  subst hck
  refine
    { chunkSize_pos := h.chunkSize_pos
      chunkSize_lt := h.chunkSize_lt
      length := by simp [h.length]
      numbers := by simpa using h.numbers
      holds := fun i hc' hp' => ?_
      full := fun i hi => ?_
      handles := by rw [map_set_eq Chunk.handle hkc]; exact h.handles; rfl
      fresh := fun x hx => ?_
      files := by rw [map_set_eq Chunk.file hkc]; exact h.files; rfl
      ordered := h.ordered.write _ _ _
      names := fun m hm => h.names m (by simpa using hm) }
  · simp only [List.getElem_set]
    split
    · rename_i hki
      subst hki
      exact hholds.append h.ordered hact hwk hpos hfit hmax hroom hwk'
    · rename_i hki
      exact (h.holds i (by simpa using hc') (by simpa using hp')).write_outside h.ordered
        fun hf => absurd hf.symm (h.file_ne (by simpa using hc') hkc (Ne.symm hki))
  · -- only the last chunk changed, and fullness is asked of the others
    simp only [List.getElem_set]
    rw [if_neg (by simp at hi; omega)]
    exact h.full i (by simpa using hi)
  · rcases List.mem_or_eq_of_mem_set hx with hx | rfl
    · exact h.fresh x hx
    · exact h.fresh chunks[k] (List.getElem_mem hkc)

/-- Completing the last chunk, with an empty position map and a footer written where its data
ends and the file cut after the footer, keeps the layout. -/
theorem complete_last (h : Laid cs dir chunks w plan) {k : Nat} (hk : k < chunks.length)
    {wk : ChunkWork} (hwk : chunks[k].work = some wk)
    (hact : chunks[k].isCompleted = false) (ft : ChunkFooter) :
    Laid cs dir (chunks.set k { chunks[k] with work := none, footer := some ft })
      { w with disk := (((w.disk.write chunks[k].file wk.position (Chunk.posMapBytes [])).write
          chunks[k].file (wk.position + (Chunk.posMapBytes []).size)
            (Bytes.toByteArray ft.encode)).setSize chunks[k].file
              (wk.position + (Chunk.posMapBytes []).size + chunkHeaderSize)) } plan := by
  have hkp : k < plan.length := h.length ▸ hk
  obtain ⟨wk₀, hwk₀, hpos⟩ := (h.holds k hk hkp).active hact
  rw [hwk] at hwk₀
  cases hwk₀
  -- every chunk's data region lies before the footer, or in another file
  have hsealed : ∀ i (hi : i < chunks.length) (hp : i < plan.length),
      ChunkHolds cs (((w.disk.write chunks[k].file wk.position (Chunk.posMapBytes [])).write
          chunks[k].file (wk.position + (Chunk.posMapBytes []).size)
            (Bytes.toByteArray ft.encode)).setSize chunks[k].file
              (wk.position + (Chunk.posMapBytes []).size + chunkHeaderSize)) i plan[i] chunks[i] := by
    intro i hi hp
    have hsep : chunks[k].file = chunks[i].file → i = k := fun hf =>
      Decidable.byContradiction fun hik => h.file_ne hi hk hik hf.symm
    refine (((h.holds i hi hp).write_outside h.ordered fun hf => ?_).write_outside
      (h.ordered.write _ _ _) fun hf => ?_).setSize_above fun hf => ?_
    all_goals
      obtain rfl := hsep hf
      omega
  refine
    { chunkSize_pos := h.chunkSize_pos
      chunkSize_lt := h.chunkSize_lt
      length := by simp [h.length]
      numbers := h.numbers
      holds := fun i hc' hp' => ?_
      full := fun i hi => ?_
      handles := by rw [map_set_eq Chunk.handle hk]; exact h.handles; rfl
      fresh := fun x hx => ?_
      files := by rw [map_set_eq Chunk.file hk]; exact h.files; rfl
      ordered := ((h.ordered.write _ _ _).write _ _ _).setSize _ _
      names := fun m hm => h.names m hm }
  · simp only [List.getElem_set]
    split
    · rename_i hki
      subst hki
      exact (hsealed k hk hp').complete ft
    · exact hsealed i (by simpa using hc') hp'
  · simp only [List.getElem_set]
    split
    · left
      simp [Chunk.isCompleted]
    · exact h.full i (by simpa using hi)
  · rcases List.mem_or_eq_of_mem_set hx with hx | rfl
    · exact h.fresh x hx
    · exact h.fresh chunks[k] (List.getElem_mem hk)

/-- A new active chunk after the last, numbered past it, holding no data, in a new file named
for its number: the layout holds of the plan with an empty chunk added. -/
theorem add (h : Laid cs dir chunks w plan) (hn : plan.length < Nat.pow 2 32)
    (hfull : ∀ c ∈ chunks.getLast?, c.isCompleted = true ∨ c.physicalDataSize = cs)
    {header : ChunkHeader} (hs : header.chunkStartNumber = plan.length)
    (he : header.chunkEndNumber = plan.length) (hsc : header.isScavenged = false)
    (hcs : header.chunkSize = cs) {handle : Nat} (hhandle : ∀ c ∈ chunks, c.handle < handle)
    {fresh : Nat} (hfresh : handle < fresh) {wk : ChunkWork}
    (hwk : wk.position = header.encode.length) :
    Laid cs dir
      (chunks ++ [{ handle, name := ChunkFileName.ofParts header.chunkStartNumber 0, header,
                    file := w.disk.files.size, work := some wk }])
      { w with
        fresh := fresh
        disk := ((Disk.mk (w.disk.files.push {})
          (w.disk.names ++ [(dir, ChunkFileName.ofParts header.chunkStartNumber 0, w.disk.files.size)])).setSize
            w.disk.files.size (chunkHeaderSize + cs + chunkHeaderSize)).write w.disk.files.size 0
              (Bytes.toByteArray header.encode) }
      (plan ++ [[]]) := by
  -- the new file is past every file of the old chunks
  have hfiles : ∀ c ∈ chunks, c.file < w.disk.files.size := fun c hc => by
    obtain ⟨i, hi, rfl⟩ := List.mem_iff_getElem.1 hc
    exact (h.holds i hi (h.length ▸ hi)).fileExists
  have hold : ∀ i (hi : i < chunks.length) (hp : i < plan.length),
      ChunkHolds cs (((Disk.mk (w.disk.files.push {})
          (w.disk.names ++ [(dir, ChunkFileName.ofParts header.chunkStartNumber 0, w.disk.files.size)])).setSize
            w.disk.files.size (chunkHeaderSize + cs + chunkHeaderSize)).write w.disk.files.size 0
              (Bytes.toByteArray header.encode)) i plan[i] chunks[i] := by
    intro i hi hp
    have hne : w.disk.files.size ≠ chunks[i].file :=
      Nat.ne_of_gt (hfiles _ (List.getElem_mem hi))
    exact (((h.holds i hi hp).push _).setSize_above fun hf => absurd hf hne).write_outside
      ((h.ordered.push _).setSize _ _) fun hf => absurd hf hne
  have hsize : chunkHeaderSize + cs + chunkHeaderSize ≤
      (((Disk.mk (w.disk.files.push {})
        (w.disk.names ++ [(dir, ChunkFileName.ofParts header.chunkStartNumber 0, w.disk.files.size)])).setSize
          w.disk.files.size (chunkHeaderSize + cs + chunkHeaderSize)).write w.disk.files.size 0
            (Bytes.toByteArray header.encode)).size w.disk.files.size := by
    refine Nat.le_trans (Nat.le_of_eq ?_) (Disk.size_le_size_write _ _ _ _ _)
    rw [Disk.size_setSize, if_pos ⟨rfl, by simp⟩]
  refine
    { chunkSize_pos := h.chunkSize_pos
      chunkSize_lt := h.chunkSize_lt
      length := by simp [h.length]
      numbers := by simp only [List.length_append, List.length_singleton]; exact hn
      holds := fun i hc' hp' => ?_
      full := fun i hi => ?_
      handles := ?_
      fresh := fun x hx => ?_
      files := ?_
      ordered := ((h.ordered.push _).setSize _ _).write _ _ _
      names := fun m hm => ?_ }
  · by_cases hi : i < chunks.length
    · rw [List.getElem_append_left hi, List.getElem_append_left (h.length ▸ hi)]
      exact hold i hi (h.length ▸ hi)
    · have hi' : i = chunks.length := by simp at hc'; omega
      subst hi'
      rw [List.getElem_append_right (Nat.le_refl _), List.getElem_append_right (h.length ▸ Nat.le_refl _)]
      simp only [Nat.sub_self, h.length, List.getElem_singleton]
      exact
        { start := hs, stop := he, unscavenged := hsc, chunkSize := hcs
          dataSize := rfl
          room := Nat.zero_le _
          placed := trivial
          bytes := fun o ho => absurd ho (by simp)
          fileSize := Nat.le_trans (by simp) hsize
          fileExists := by simp
          active := fun _ => ⟨wk, rfl, by rw [hwk, ChunkHeader.length_encode]; rfl⟩ }
  · -- the old last chunk is now followed by the new one
    have hi' : i < chunks.length := by simp at hi; omega
    rw [List.getElem_append_left hi']
    by_cases hlast : i + 1 < chunks.length
    · exact h.full i hlast
    · have hi'' : i = chunks.length - 1 := by omega
      exact hfull _ (by rw [List.getLast?_eq_getElem?]; simp [hi''])
  · rw [List.map_append, List.nodup_append]
    refine ⟨h.handles, by simp, fun a ha b hb => ?_⟩
    obtain ⟨c, hc, rfl⟩ := List.mem_map.1 ha
    simp only [List.map_cons, List.map_nil, List.mem_singleton] at hb
    subst hb
    exact Nat.ne_of_lt (hhandle c hc)
  · rcases List.mem_append.1 hx with hx | hx
    · exact Nat.lt_trans (hhandle x hx) hfresh
    · simp only [List.mem_singleton] at hx
      subst hx
      exact hfresh
  · rw [List.map_append, List.nodup_append]
    refine ⟨h.files, by simp, fun a ha b hb => ?_⟩
    obtain ⟨c, hc, rfl⟩ := List.mem_map.1 ha
    simp only [List.map_cons, List.map_nil, List.mem_singleton] at hb
    subst hb
    exact Nat.ne_of_lt (hfiles c hc)
  · -- a later number names another file
    simp only [List.length_append, List.length_singleton] at hm
    exact Disk.find?_append_other (h.names m (by omega))
      fun heq => by have := ChunkFileName.ofParts_inj heq; omega

end Laid

end EventStore
