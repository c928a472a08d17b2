import EventStore.Proofs.Store.Writes

/-!
# Reading back what the writer laid

A read forward from a position of a layout (`Layout`) finds the next record of its plan: from the
start of a record it reads the record's frame back (`ChunkHolds.returns_readFrame`), and where a
chunk's data ends it goes on at the next chunk, which it reaches either because the chunk is full
or because it was completed; only the last chunk may be active and short of full, and there the
read finds nothing. The reads are proved from the last chunk down (`returns_readForwardIn_chunkStart`),
each chunk from what a read at the start of the next one finds.

`Scans s limit p es` is the loop of a reader that reads forward from `p`, record after record,
while the records stand below `limit`. On a layout the scan from the start of the log below the
writer returns every record of the plan, each with the position after it (`Layout.scans_log`).
With the writer's side (`runs_writeRecords`) this gives `written_records_read_back`: records
written and flushed are read back in order, each with the end its write returned. A reader takes
no body above the largest record size, so the records are those whose builders (`Builds`) keep
to it.
-/

namespace EventStore

open Store Record

variable {σ ε α β : Type}

/-- A read-only bind returns what its continuation returns on the value the first action returned. -/
theorem Returns.bind {m : ExceptT (Fault ε) (StateM σ) α} {f : α → ExceptT (Fault ε) (StateM σ) β}
    {s : σ} {v : α} {w : β} (hm : Returns m s v) (hf : Returns (f v) s w) :
    Returns (m >>= f) s w :=
  Runs.bind hm hf

/-! ## Frames of a laid chunk -/

namespace Record

/-- A record amid records placed from `base` stands where the frames before it end, and a reader
takes its body. -/
theorem Placed.split {base : Int} {pre post : List Record} {r : Record}
    (h : Placed base (pre ++ r :: post)) :
    r.logPosition = base + (frames pre).length ∧ r.Fits ∧ r.encode.length ≤ maxRecordSize := by
  induction pre generalizing base with
  | nil =>
    obtain ⟨h₁, h₂, h₃, -⟩ := h
    exact ⟨by simpa using h₁, h₂, h₃⟩
  | cons r' pre ih =>
    obtain ⟨-, -, -, h₄⟩ := h
    obtain ⟨h₁, h₂, h₃⟩ := ih h₄
    refine ⟨?_, h₂, h₃⟩
    rw [h₁, frames_cons, List.length_append]
    omega

/-- Every record placed from a position fits the widths of its fields and has a body a reader
takes. -/
theorem Placed.readable {base : Int} {rs : List Record} (h : Placed base rs) :
    ∀ r ∈ rs, r.Fits ∧ r.encode.length ≤ maxRecordSize := by
  intro r hr
  obtain ⟨pre, post, rfl⟩ := List.append_of_mem hr
  exact h.split.2

end Record

/-- The data region of chunk `c`'s file on `d` holds the frames of `rs`, one after another from
its start, and a reader takes the body of each record. This is all a frame read looks at, in a
chunk the writer laid and in a scavenged one alike. -/
structure Chunk.Frames (d : Disk) (rs : List Record) (c : Chunk) : Prop where
  dataSize : c.physicalDataSize = (frames rs).length
  bytes : ∀ o (h : o < (frames rs).length),
    (d.file c.file).byteAt (chunkHeaderSize + o) = (frames rs)[o]
  fileSize : chunkHeaderSize + c.physicalDataSize ≤ d.size c.file
  readable : ∀ r ∈ rs, r.Fits ∧ r.encode.length ≤ maxRecordSize

namespace Chunk.Frames

variable {d : Disk} {pre post : List Record} {r : Record} {c : Chunk}

/-- The frame of a record of a chunk lies within the chunk's data. -/
theorem frame_le (h : Chunk.Frames d (pre ++ r :: post) c) :
    (frames pre).length + r.framed.length ≤ c.physicalDataSize := by
  rw [h.dataSize, frames_append, frames_cons]
  simp only [List.length_append]
  omega

/-- The bytes of a chunk file from where a record's frame starts are the frame's. -/
theorem slice_frame (h : Chunk.Frames d (pre ++ r :: post) c) {n : Nat}
    (hn : n ≤ r.framed.length) :
    Bytes.ofByteArray ((d.file c.file).slice (chunkHeaderSize + (frames pre).length) n) =
      r.framed.take n := by
  have hle := h.frame_le
  refine FileData.toList_eq_of_byteOf (by simp [FileData.size_slice]; omega) fun j hj => ?_
  have hj' : j < n := by simp at hj; omega
  have hpre : (frames pre).length + j < (frames (pre ++ r :: post)).length := by
    rw [← h.dataSize]; omega
  rw [FileData.byteOf_slice _ _ _ hj', Nat.add_assoc, h.bytes _ hpre]
  simp only [frames_append, frames_cons]
  have hjr : j < r.framed.length := by omega
  rw [List.getElem_append_right (by omega), List.getElem_append_left (by simpa using hjr),
    List.getElem?_take_of_lt hj', List.getElem?_eq_getElem hjr]
  simp

/-- A frame read at the offset of a record of a chunk returns the record and its frame's length. -/
theorem returns_readFrame (h : Chunk.Frames d (pre ++ r :: post) c) {w : World} (hw : w.disk = d) :
    Returns (c.readFrame (frames pre).length) w (some (r, r.framed.length)) := by
  obtain ⟨hfit, hmax⟩ := h.readable r (by simp)
  have hle := h.frame_le
  have hlen := length_framed r
  have hsize := h.fileSize
  unfold Chunk.readFrame
  rw [if_neg (by unfold frameOverhead at hlen ⊢; omega)]
  dsimp only
  refine Returns.bind (v := w.disk) rfl ?_
  have hread : ∀ n, n ≤ r.framed.length →
      w.disk.readExact c.file (chunkHeaderSize + (frames pre).length) n =
        .ok ((d.file c.file).slice (chunkHeaderSize + (frames pre).length) n) := fun n hn => by
    rw [hw]
    exact Disk.readExact_eq (by omega)
  -- the prefix announces the body's length, and the whole frame then reads back as the record
  rw [hread 4 (by unfold frameOverhead at hlen; omega)]
  simp only [pure_bind]
  rw [h.slice_frame (by unfold frameOverhead at hlen; omega), frameBodyLen_framed hmax]
  dsimp only
  rw [if_neg (by omega), ← hlen, hread _ (Nat.le_refl _)]
  dsimp only
  rw [h.slice_frame (Nat.le_refl _), List.take_length, readFramed_framed hfit hmax]
  rfl

end Chunk.Frames

namespace ChunkHolds

variable {cs : Nat} {d : Disk} {i : Nat} {rs pre post : List Record} {r : Record} {c : Chunk}

/-- A chunk the writer laid holds the frames of its records. -/
theorem toFrames (h : ChunkHolds cs d i rs c) : Chunk.Frames d rs c :=
  ⟨h.dataSize, h.bytes, h.fileSize, h.placed.readable⟩

/-- The frame of a record of a chunk lies within the chunk's data. -/
theorem frame_le (h : ChunkHolds cs d i (pre ++ r :: post) c) :
    (frames pre).length + r.framed.length ≤ c.physicalDataSize :=
  h.toFrames.frame_le

/-- A frame read at the offset of a record of a chunk returns the record and its frame's length. -/
theorem returns_readFrame (h : ChunkHolds cs d i (pre ++ r :: post) c) {w : World} (hw : w.disk = d) :
    Returns (c.readFrame (frames pre).length) w (some (r, r.framed.length)) :=
  h.toFrames.returns_readFrame hw

end ChunkHolds

/-- Where the data of a chunk ends no frame is read. -/
theorem Chunk.returns_readFrame_end (c : Chunk) (w : World) :
    Returns (c.readFrame c.physicalDataSize : WorldM DbError _) w none := by
  unfold Chunk.readFrame
  rw [if_pos (by unfold frameOverhead; omega)]
  rfl

/-! ## Reads of a layout -/

/-- The chunk number of a natural position below `2 ^ 32` chunk sizes is the quotient. -/
theorem DbConfig.returns_chunkNumberOf (cfg : DbConfig) {m : Nat} (hcs : 0 < cfg.chunkSize)
    (hm : m / cfg.chunkSize < Nat.pow 2 32) (w : World) :
    Returns (cfg.chunkNumberOf m : WorldM ε Nat) w (m / cfg.chunkSize) := by
  have h32 : Int.pow 2 32 = ((Nat.pow 2 32 : Nat) : Int) := by decide
  unfold DbConfig.chunkNumberOf
  rw [if_neg (by omega)]
  dsimp only
  rw [← Int.ofNat_tdiv, if_pos ⟨Int.natCast_nonneg _, by rw [h32]; exact Int.ofNat_lt.2 hm⟩]
  rfl

/-- On a layout, the chunk found for a position of the span of its chunk numbers is the chunk at
the position's number. -/
theorem Layout.returns_getChunkFor {s : Store} {plan : List (List Record)} (hl : Layout s plan)
    {m : Nat} (hm : m / s.db.config.chunkSize < Nat.pow 2 32) :
    Returns (getChunkFor (m : Int) : StoreM ε (Option Chunk)) s
      s.db.chunks[m / s.db.config.chunkSize]? := by
  unfold getChunkFor getChunk
  rw [if_neg (by omega)]
  refine Returns.bind (v := s.db.config) rfl ?_
  refine Returns.bind (Runs.onWorld (DbConfig.returns_chunkNumberOf _ hl.laid.chunkSize_pos hm _)) ?_
  refine Returns.bind (runs_chunkList hl.sound) ?_
  rw [ChunkList.get?_numbered hl.laid.numbered]
  rfl

/-- In a chunk that was not scavenged a record stands at its own offset. -/
theorem Chunk.locate_unscavenged {c : Chunk} (h : c.header.isScavenged = false) (n : Nat) :
    c.locate n = some (n, n) := by
  simp [Chunk.locate, h]

namespace Layout

variable {s : Store} {plan : List (List Record)}

/-- A read at offset `k` of chunk `i` of a layout reads the frame stored there: a record found
ends where its frame does, and where none is found the read goes on at the next chunk only if
this one was completed. -/
theorem returns_readForwardIn_of_frame (hl : Layout s plan) {i k : Nat}
    (hi : i < s.db.chunks.length) (hk : k < s.db.config.chunkSize) {fuel : Nat}
    {x : Option (Record × Nat)} (hf : Returns (s.db.chunks[i].readFrame k) s.world x)
    {v : Option (Record × Int)}
    (hv : ∀ r n, x = some (r, n) → v = some (r, ((i * s.db.config.chunkSize + k + n : Nat) : Int)))
    (hnone : x = none → Returns (if s.db.chunks[i].isCompleted then
        readForwardIn fuel (((i + 1) * s.db.config.chunkSize : Nat) : Int) else pure none) s v) :
    Returns (readForwardIn (fuel + 1) ((i * s.db.config.chunkSize + k : Nat) : Int)) s v := by
  have hh := hl.laid.holds i hi (hl.laid.length ▸ hi)
  obtain ⟨hstart, hend, -⟩ := hl.laid.span hi
  have hdiv : (i * s.db.config.chunkSize + k) / s.db.config.chunkSize = i := by
    rw [Nat.add_comm, Nat.add_mul_div_right _ _ (by omega), Nat.div_eq_of_lt hk, Nat.zero_add]
  have hloc : s.db.chunks[i].header.localPosition ((i * s.db.config.chunkSize + k : Nat) : Int) = k := by
    unfold ChunkHeader.localPosition
    rw [show s.db.chunks[i].header.startPosition = _ from hstart,
      show ((i * s.db.config.chunkSize + k : Nat) : Int) - ((i * s.db.config.chunkSize : Nat) : Int) = k
        by omega]
    exact Word.pos_of_lt (Int.natCast_nonneg _)
      (Int.ofNat_lt.2 (Nat.lt_of_lt_of_le (Nat.lt_trans hk hl.laid.chunkSize_lt) (by decide)))
  unfold readForwardIn
  refine Returns.bind (hl.returns_getChunkFor (by
    rw [hdiv]; exact Nat.lt_of_lt_of_le (hl.laid.length ▸ hi) hl.laid.numbers)) ?_
  rw [hdiv, List.getElem?_eq_getElem hi]
  dsimp only
  rw [hloc, if_neg (by omega), Int.toNat_natCast, Chunk.locate_unscavenged hh.unscavenged]
  dsimp only
  refine Returns.bind (Runs.onWorld hf) ?_
  cases x with
  | none =>
    rw [hend]
    exact hnone rfl
  | some e =>
    obtain ⟨r, n⟩ := e
    rw [hv r n rfl, hstart]
    rfl

/-- A read at the start of a record of a layout returns the record and the position after it. -/
theorem returns_readForwardIn_record (hl : Layout s plan) {i : Nat} (hi : i < s.db.chunks.length)
    {pre post : List Record} {r : Record} (hrs : plan[i]? = some (pre ++ r :: post)) (fuel : Nat) :
    Returns (readForwardIn (fuel + 1)
      ((i * s.db.config.chunkSize + (frames pre).length : Nat) : Int)) s (some r.entry) := by
  obtain ⟨hi', hp⟩ := List.getElem?_eq_some_iff.1 hrs
  have hh : ChunkHolds s.db.config.chunkSize s.world.disk i (pre ++ r :: post) s.db.chunks[i] :=
    hp ▸ hl.laid.holds i hi hi'
  have hle := hh.frame_le
  have hroom := hh.room
  have hpos := length_encode_pos r
  have hlen := length_framed r
  obtain ⟨hat, -, -⟩ := hh.placed.split
  refine hl.returns_readForwardIn_of_frame hi (by omega) (hh.returns_readFrame rfl) ?_ nofun
  intro r' n he
  obtain ⟨rfl, rfl⟩ := Prod.mk.inj (Option.some.inj he)
  rw [Record.entry, hat]
  rfl

/-- Where the data of a chunk short of full ends, a read goes on at the next chunk if the chunk
was completed, and finds nothing if it is still active. -/
theorem returns_readForwardIn_dataEnd (hl : Layout s plan) {i : Nat} (hi : i < s.db.chunks.length)
    (hroom : s.db.chunks[i].physicalDataSize < s.db.config.chunkSize) {fuel : Nat}
    {v : Option (Record × Int)}
    (hnext : s.db.chunks[i].isCompleted = true →
      Returns (readForwardIn fuel (((i + 1) * s.db.config.chunkSize : Nat) : Int)) s v)
    (hlast : s.db.chunks[i].isCompleted = false → v = none) :
    Returns (readForwardIn (fuel + 1)
      ((i * s.db.config.chunkSize + s.db.chunks[i].physicalDataSize : Nat) : Int)) s v := by
  refine hl.returns_readForwardIn_of_frame hi hroom (Chunk.returns_readFrame_end _ _) nofun
    fun _ => ?_
  cases hc : s.db.chunks[i].isCompleted with
  | true => exact hnext hc
  | false =>
    rw [hlast hc]
    rfl

/-- Past the last chunk of a layout a read finds nothing. -/
theorem returns_readForwardIn_beyond (hl : Layout s plan)
    (hn : s.db.chunks.length < Nat.pow 2 32) (fuel : Nat) :
    Returns (readForwardIn fuel ((s.db.chunks.length * s.db.config.chunkSize : Nat) : Int)) s
      none := by
  cases fuel with
  | zero => rfl
  | succ fuel =>
    have hdiv : s.db.chunks.length * s.db.config.chunkSize / s.db.config.chunkSize =
        s.db.chunks.length := Nat.mul_div_cancel _ hl.laid.chunkSize_pos
    unfold readForwardIn
    refine Returns.bind (hl.returns_getChunkFor (by rw [hdiv]; exact hn)) ?_
    rw [hdiv, List.getElem?_eq_none (Nat.le_refl _)]
    rfl

/-- Within chunk `i`, a read finds the next record of the plan, given what a read at the start of
the next chunk finds. -/
theorem returns_readForwardIn_within (hl : Layout s plan) {i : Nat} (hi : i < plan.length)
    {pre post : List Record} (hrs : plan[i]? = some (pre ++ post)) {fuel : Nat}
    (hfuel : plan.length - i ≤ fuel)
    (hnext : ∀ f, plan.length - (i + 1) ≤ f →
      Returns (readForwardIn f (((i + 1) * s.db.config.chunkSize : Nat) : Int)) s
        ((plan.drop (i + 1)).flatten.head?.map Record.entry)) :
    Returns (readForwardIn fuel ((i * s.db.config.chunkSize + (frames pre).length : Nat) : Int)) s
      ((post ++ (plan.drop (i + 1)).flatten).head?.map Record.entry) := by
  have hi' : i < s.db.chunks.length := hl.laid.length ▸ hi
  obtain ⟨f, rfl⟩ : ∃ f, fuel = f + 1 := ⟨fuel - 1, by omega⟩
  cases post with
  | cons r post => exact hl.returns_readForwardIn_record hi' hrs f
  | nil =>
    -- the read starts where the data of chunk `i` ends
    rw [List.append_nil] at hrs
    obtain ⟨_, hp⟩ := List.getElem?_eq_some_iff.1 hrs
    have hh := hl.laid.holds i hi' hi
    rw [hp] at hh
    have hroom := hh.room
    rw [List.nil_append, ← hh.dataSize]
    by_cases hfull : s.db.chunks[i].physicalDataSize = s.db.config.chunkSize
    · rw [hfull, ← Nat.succ_mul]
      exact hnext (f + 1) (by omega)
    · refine hl.returns_readForwardIn_dataEnd hi' (by omega) (fun _ => hnext f (by omega))
        fun hact => ?_
      -- only the last chunk is active and short of full
      have hlast : i + 1 = plan.length := by
        refine Nat.le_antisymm hi (Decidable.byContradiction fun hlt => ?_)
        rcases hl.laid.full i (by rw [hl.laid.length]; omega) with hc | hc
        · rw [hact] at hc
          cases hc
        · exact hfull hc
      rw [hlast, List.drop_length]
      rfl

/-- A read at the start of chunk `j` of a layout, or just past its last chunk, finds the first
record of the chunks from `j` on. -/
theorem returns_readForwardIn_chunkStart (hl : Layout s plan)
    (hn : s.db.chunks.length < Nat.pow 2 32) {j : Nat} (hj : j ≤ plan.length) {fuel : Nat}
    (hfuel : plan.length - j ≤ fuel) :
    Returns (readForwardIn fuel ((j * s.db.config.chunkSize : Nat) : Int)) s
      ((plan.drop j).flatten.head?.map Record.entry) := by
  -- induction on the number of chunks from `j` on
  obtain ⟨d, hd⟩ : ∃ d, plan.length = j + d := ⟨plan.length - j, by omega⟩
  induction d generalizing j fuel with
  | zero =>
    rw [Nat.add_zero] at hd
    subst hd
    rw [List.drop_length, ← hl.laid.length]
    exact hl.returns_readForwardIn_beyond hn fuel
  | succ d ih =>
    have hj' : j < plan.length := by omega
    have hfirst : plan[j]? = some ([] ++ plan[j]) := by simp
    have hstart := hl.returns_readForwardIn_within hj' hfirst hfuel
      fun f hf => ih (by omega) hf (by omega)
    rwa [List.drop_eq_getElem_cons hj', List.flatten_cons]

/-- A read forward runs the chunk walk with a step for each chunk and one more. -/
theorem returns_readForward (hl : Layout s plan) {p : Int} {v : Option (Record × Int)}
    (h : Returns (readForwardIn (s.db.chunks.length + 1) p) s v) : Returns (readForward p) s v :=
  Returns.bind (runs_chunkList hl.sound) h

/-- A read of a layout from inside chunk `i`, past the records `pre` of the chunk, finds the next
record of the log: the first of the chunk's other records `post`, or of the later chunks. -/
theorem returns_readForward_at (hl : Layout s plan) (hn : s.db.chunks.length < Nat.pow 2 32)
    {i : Nat} (hi : i < plan.length) {pre post : List Record}
    (hrs : plan[i]? = some (pre ++ post)) :
    Returns (readForward ((i * s.db.config.chunkSize + (frames pre).length : Nat) : Int)) s
      ((post ++ (plan.drop (i + 1)).flatten).head?.map Record.entry) := by
  have hlen := hl.laid.length
  refine hl.returns_readForward (hl.returns_readForwardIn_within hi hrs (by omega) fun f hf => ?_)
  exact hl.returns_readForwardIn_chunkStart hn hi hf

end Layout

/-! ## Scans -/

/-- Reading forward from `p` record after record, while the records stand below `limit`, returns
the records of `es`, each with the position after it, and then stops: at the end of the log or at
a record at or past the limit. -/
inductive Scans (s : Store) (limit : Int) : Int → List (Record × Int) → Prop
  | last {p : Int} : Returns (readForward p) s none → Scans s limit p []
  | beyond {p q : Int} {r : Record} : Returns (readForward p) s (some (r, q)) →
      limit ≤ r.logPosition → Scans s limit p []
  | next {p q : Int} {r : Record} {es : List (Record × Int)} :
      Returns (readForward p) s (some (r, q)) → r.logPosition < limit → Scans s limit q es →
      Scans s limit p ((r, q) :: es)

namespace Scans

variable {s : Store} {limit : Int}

/-- Two positions where a read finds the same thing start the same scan. -/
theorem congr {p q : Int} {v : Option (Record × Int)} {es : List (Record × Int)}
    (hp : Returns (readForward p) s v) (hq : Returns (readForward q) s v)
    (h : Scans s limit q es) : Scans s limit p es := by
  cases h with
  | last h => exact .last (hq.unique h ▸ hp)
  | beyond h hlim => exact .beyond (hq.unique h ▸ hp) hlim
  | next h hlim hrest => exact .next (hq.unique h ▸ hp) hlim hrest

end Scans

namespace Layout

variable {s : Store} {plan : List (List Record)}

/-- Every record of a layout stands before the end of its log. -/
theorem logPosition_lt_planEnd (hl : Layout s plan) {i : Nat} (hi : i < plan.length)
    {pre post : List Record} {r : Record} (hrs : plan[i]? = some (pre ++ r :: post)) :
    r.logPosition < planEnd s.db.config.chunkSize plan := by
  obtain ⟨_, hp⟩ := List.getElem?_eq_some_iff.1 hrs
  have hh := hl.laid.holds i (hl.laid.length ▸ hi) hi
  rw [hp] at hh
  obtain ⟨hat, -, -⟩ := hh.placed.split
  have hle := hh.frame_le
  have hroom := hh.room
  have hpos := length_encode_pos r
  have hlen := length_framed r
  rw [hat]
  unfold planEnd
  by_cases hlast : i + 1 = plan.length
  · rw [← hlast, Nat.add_sub_cancel, List.getLastD_eq_getLast?, List.getLast?_eq_getElem?,
      ← hlast, Nat.add_sub_cancel, hrs, Option.getD_some, ← hh.dataSize]
    omega
  · have hmul : (i + 1) * s.db.config.chunkSize ≤ (plan.length - 1) * s.db.config.chunkSize :=
      Nat.mul_le_mul_right _ (by omega)
    rw [Nat.succ_mul] at hmul
    omega

/-- From inside chunk `i`, past the records `pre`, a scan returns the chunk's other records and
then those of the later chunks, given the scan from the start of the next chunk. -/
theorem scans_within (hl : Layout s plan) (hn : s.db.chunks.length < Nat.pow 2 32) {limit : Int}
    (hlim : planEnd s.db.config.chunkSize plan ≤ limit) {i : Nat} (hi : i < plan.length)
    {pre post : List Record} (hrs : plan[i]? = some (pre ++ post))
    (hnext : Scans s limit (((i + 1) * s.db.config.chunkSize : Nat) : Int)
      ((plan.drop (i + 1)).flatten.map Record.entry)) :
    Scans s limit ((i * s.db.config.chunkSize + (frames pre).length : Nat) : Int)
      ((post ++ (plan.drop (i + 1)).flatten).map Record.entry) := by
  -- induction on the records of the chunk still to read
  induction post generalizing pre with
  | nil =>
    -- where the chunk's data ends a read finds what it finds at the next chunk's start
    have hlen := hl.laid.length
    exact Scans.congr (hl.returns_readForward_at hn hi hrs)
      (hl.returns_readForward (hl.returns_readForwardIn_chunkStart hn hi (by omega))) hnext
  | cons r post ih =>
    obtain ⟨_, hp⟩ := List.getElem?_eq_some_iff.1 hrs
    have hh := hl.laid.holds i (hl.laid.length ▸ hi) hi
    rw [hp] at hh
    obtain ⟨hat, -, -⟩ := hh.placed.split
    have hafter : r.logPosition + r.framed.length =
        ((i * s.db.config.chunkSize + (frames (pre ++ [r])).length : Nat) : Int) := by
      rw [hat, frames_append, frames_singleton, List.length_append]
      omega
    have hrs' : plan[i]? = some ((pre ++ [r]) ++ post) := by rw [hrs, List.append_assoc]; rfl
    have hrest := ih hrs'
    rw [← hafter] at hrest
    exact .next (hl.returns_readForward_at hn hi hrs)
      (Int.lt_of_lt_of_le (hl.logPosition_lt_planEnd hi hrs) hlim) hrest

/-- A scan from the start of chunk `j` of a layout, or from just past its last chunk, returns the
records of the chunks from `j` on. -/
theorem scans_chunkStart (hl : Layout s plan) (hn : s.db.chunks.length < Nat.pow 2 32)
    {limit : Int} (hlim : planEnd s.db.config.chunkSize plan ≤ limit) {j : Nat}
    (hj : j ≤ plan.length) :
    Scans s limit ((j * s.db.config.chunkSize : Nat) : Int)
      ((plan.drop j).flatten.map Record.entry) := by
  -- induction on the number of chunks from `j` on
  obtain ⟨d, hd⟩ : ∃ d, plan.length = j + d := ⟨plan.length - j, by omega⟩
  induction d generalizing j with
  | zero =>
    rw [Nat.add_zero] at hd
    subst hd
    have hend := hl.returns_readForward (hl.returns_readForwardIn_chunkStart hn (Nat.le_refl _)
      (by rw [Nat.sub_self]; exact Nat.zero_le _))
    rw [List.drop_length] at hend ⊢
    exact .last hend
  | succ d ih =>
    have hj' : j < plan.length := by omega
    have hfirst : plan[j]? = some ([] ++ plan[j]) := by simp
    have hscan := hl.scans_within hn hlim hj' hfirst (ih (by omega) (by omega))
    rwa [List.drop_eq_getElem_cons hj', List.flatten_cons]

/-- The writer of a layout stands at or past the end of the log. -/
theorem planEnd_le_position (hl : Layout s plan) :
    planEnd s.db.config.chunkSize plan ≤ s.writer.position := by
  obtain ⟨m, hm, hle, -⟩ := hl.laid.planEnd_le
  rcases hl.position with hpos | ⟨-, -, -, hpos⟩
  · exact Int.le_of_eq hpos.symm
  · rw [hpos, hm]
    exact Int.ofNat_le.2 hle

/-- A scan of a layout from the start of the log, below the writer, returns all its records. -/
theorem scans_log (hl : Layout s plan) (hn : s.db.chunks.length < Nat.pow 2 32) :
    Scans s s.writer.position 0 (plan.flatten.map Record.entry) := by
  have hscan := hl.scans_chunkStart hn hl.planEnd_le_position (Nat.zero_le _)
  rwa [Nat.zero_mul, List.drop_zero] at hscan

end Layout

/-- Records written one after another and then flushed read back, from the start of the log and
below the flushed writer checkpoint, as the log held them followed by the records built, each with
the end its write returned; and no record crosses the span of a chunk. -/
theorem written_records_read_back {s s₁ s' : Store} {plan : List (List Record)}
    {makes : List (Int → Record)} {res : List (Int × Int)} {u : Unit} (hl : Layout s plan)
    (hb : ∀ m ∈ makes, Builds m) (hw : Runs (makes.mapM writeRecord) s res s₁)
    (hf : Runs (flushWriter : StoreM DbError Unit) s₁ u s')
    (hn : s'.db.chunks.length < Nat.pow 2 32) :
    Scans s' s'.db.config.checkpoints.writer.read 0
        (plan.flatten.map Record.entry ++ List.zipWith (fun m p => (m p.1, p.2)) makes res) ∧
      ∀ p ∈ res, ∃ i : Nat, ((i * s.db.config.chunkSize : Nat) : Int) ≤ p.1 ∧
        p.2 ≤ (((i + 1) * s.db.config.chunkSize : Nat) : Int) := by
  obtain ⟨-, plan₁, hl₁, hflat, hspan⟩ := Store.runs_writeRecords hl hb hw
  obtain ⟨hl', hread, -⟩ := Store.runs_flushWriter_layout hl₁ hf
  refine ⟨?_, hspan⟩
  rw [← hflat, hread]
  exact hl'.scans_log hn

/-- A log of chunk size 256 kept in memory, with no chunk yet and the writer at its start. -/
def smallEmptyLog : Store where
  world := {}
  db := { config := { dir := "db", chunkSize := 256, checkpoints := .inMemory }, chunks := [] }
  writer := { position := 0 }
  epochs := { cacheSize := 1 }

/-- The small empty log is laid out, with no chunk. -/
theorem layout_smallEmptyLog : Layout smallEmptyLog [] where
  laid :=
    { chunkSize_pos := by decide
      chunkSize_lt := by decide
      length := rfl
      numbers := Nat.zero_le _
      holds := fun _ h => absurd h (Nat.not_lt_zero _)
      full := fun _ h => absurd h (Nat.not_lt_zero _)
      handles := List.nodup_nil
      fresh := nofun
      files := List.nodup_nil
      ordered := fun _ => List.Pairwise.nil
      names := fun _ _ => rfl }
  sound := rfl
  position := Or.inl rfl
  written := rfl
  current := nofun

/-- A data record of one byte, built for the position it is written at. -/
def oneByteRecordAt (p : Int) : Record := .data ⟨p, 0, ⟨0⟩, [7]⟩

theorem builds_oneByteRecordAt : Builds oneByteRecordAt := fun _ h0 h1 =>
  ⟨rfl, ⟨Word.pos_of_lt h0 h1, (by decide : Word.signed 64 0 = 0),
    (by decide : 0 < Nat.pow 2 128), (by decide : [7].length < Nat.pow 2 32)⟩,
    by simp [oneByteRecordAt, Record.encode, Bytes.ofUuid, Bytes.sized, maxRecordSize]⟩

/-- Two records written into an empty log and flushed read back from its start, each with the end
its write returned. -/
theorem two_records_read_back :
    let s₁ := ((ExceptT.run ([oneByteRecordAt, oneByteRecordAt].mapM writeRecord)).run
      smallEmptyLog).2
    let s' := ((ExceptT.run (flushWriter : StoreM DbError Unit)).run s₁).2
    Layout smallEmptyLog [] ∧ (∀ m ∈ [oneByteRecordAt, oneByteRecordAt], Builds m) ∧
      Runs ([oneByteRecordAt, oneByteRecordAt].mapM writeRecord) smallEmptyLog
        [(0, 46), (46, 92)] s₁ ∧
      Runs (flushWriter : StoreM DbError Unit) s₁ () s' ∧ s'.db.chunks.length < Nat.pow 2 32 ∧
      Scans s' s'.db.config.checkpoints.writer.read 0
        [(oneByteRecordAt 0, 46), (oneByteRecordAt 46, 92)] ∧
      ∀ p ∈ [((0 : Int), (46 : Int)), (46, 92)], ∃ i : Nat, ((i * 256 : Nat) : Int) ≤ p.1 ∧
        p.2 ≤ (((i + 1) * 256 : Nat) : Int) := by
  intro s₁ s'
  have hb : ∀ m ∈ [oneByteRecordAt, oneByteRecordAt], Builds m := by
    intro m hm
    obtain rfl : m = oneByteRecordAt := by simpa using hm
    exact builds_oneByteRecordAt
  have hw : Runs ([oneByteRecordAt, oneByteRecordAt].mapM writeRecord) smallEmptyLog
      [(0, 46), (46, 92)] s₁ := Runs.of_toOption (by decide +kernel)
  have hf : Runs (flushWriter : StoreM DbError Unit) s₁ () s' := Runs.of_toOption (by decide +kernel)
  have hn : s'.db.chunks.length < Nat.pow 2 32 := by decide +kernel
  exact ⟨layout_smallEmptyLog, hb, hw, hf, hn,
    written_records_read_back layout_smallEmptyLog hb hw hf hn⟩

end EventStore
