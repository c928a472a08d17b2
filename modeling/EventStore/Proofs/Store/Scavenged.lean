import EventStore.Proofs.Store.Switch

/-!
# What a scavenging run leaves

A run of `scavenge start finish keep` that returns leaves a store that a reader sees as the layout
it started from with chunks `start` to `finish` merged: the chunk list gives the one merged chunk
for each number of the range and the chunk the writer laid for every other number of the layout,
and nothing past it (`Scavenged`, proved of every run that returns by `runs_scavenge`). The
merged chunk holds, at their own log positions, the records of the range that are system records
or that the predicate keeps.

The run is followed step by step through the lemmas of `Proofs/Store/Scavenge` and
`Proofs/Store/Switch`. What they need of the layout is said here of its records: the records of
chunk `j` stand within chunk `j`'s positions (`Layout.record_within`), the records after a place
where a read can start follow one another without overlap (`After.chain`), and the frames of a
range of chunks fit its capacity (`Layout.frames_range_le`).
-/

namespace EventStore

open Store Record

/-! ## Records of a layout -/

/-- Each frame takes at least the frame overhead. -/
theorem length_mul_le_frames (rs : List Record) : rs.length * frameOverhead ≤ (frames rs).length := by
  induction rs with
  | nil => exact Nat.le_refl _
  | cons r rs ih =>
    rw [frames_cons, List.length_append, List.length_cons, Nat.succ_mul, length_framed]
    omega

/-- A record of the chunks `a` to `a + k - 1` stands in one of them. -/
theorem mem_flatten_take_drop {plan : List (List Record)} {a k : Nat} {r : Record}
    (hr : r ∈ ((plan.drop a).take k).flatten) :
    ∃ j rs, a ≤ j ∧ j < a + k ∧ plan[j]? = some rs ∧ r ∈ rs := by
  obtain ⟨rs, hrs, hr⟩ := List.mem_flatten.1 hr
  obtain ⟨i, hi, rfl⟩ := List.mem_iff_getElem.1 hrs
  have hi' : i < k ∧ a + i < plan.length := by simp at hi; omega
  refine ⟨a + i, _, Nat.le_add_right a i, by omega, ?_, hr⟩
  rw [List.getElem_take, List.getElem_drop, List.getElem?_eq_getElem hi'.2]

namespace Layout

variable {s : Store} {plan : List (List Record)}

/-- A record of chunk `j` of a layout stands within the positions of chunk `j`, frame and all. -/
theorem record_within (hl : Layout s plan) {j : Nat} {rs : List Record} (hj : plan[j]? = some rs)
    {r : Record} (hr : r ∈ rs) :
    ((j * s.db.config.chunkSize : Nat) : Int) ≤ r.logPosition ∧
      r.logPosition + r.framed.length ≤ (((j + 1) * s.db.config.chunkSize : Nat) : Int) := by
  obtain ⟨hlt, hp⟩ := List.getElem?_eq_some_iff.1 hj
  have hh := hl.laid.holds j (hl.laid.length ▸ hlt) hlt
  rw [hp] at hh
  obtain ⟨pre, post, rfl⟩ := List.append_of_mem hr
  obtain ⟨hat, -, -⟩ := hh.placed.split
  have hle := hh.frame_le
  have hroom := hh.room
  rw [hat, Nat.succ_mul]
  push_cast
  omega

end Layout

namespace After

variable {s : Store} {plan : List (List Record)} {p : Int} {rs : List Record}

/-- The records after a place where a read can start stand at or after it, each frame ending
before the next record starts. -/
theorem chain (hl : Layout s plan) (h : After s.db.config.chunkSize plan p rs) :
    rs.Pairwise (fun r r' => r.logPosition + (r.framed.length : Int) ≤ r'.logPosition) ∧
      ∀ r ∈ rs, p ≤ r.logPosition := by
  induction rs generalizing p with
  | nil => exact ⟨List.Pairwise.nil, nofun⟩
  | cons r rs ih =>
    obtain ⟨hnext, hp⟩ := h.next hl
    obtain ⟨hpair, hafter⟩ := ih hnext
    have hlen := length_framed r
    refine ⟨List.pairwise_cons.2 ⟨hafter, hpair⟩, fun r' hr' => ?_⟩
    rcases List.mem_cons.1 hr' with rfl | hr'
    · exact hp
    · have := hafter r' hr'
      omega

end After

namespace Layout

variable {s : Store} {plan : List (List Record)} {a b : Nat}

/-- The records of chunks `a` to `b` stand within their positions, frames and all. -/
theorem range_within (hl : Layout s plan) (hab : a ≤ b) {r : Record}
    (hr : r ∈ ((plan.drop a).take (b + 1 - a)).flatten) :
    ((a * s.db.config.chunkSize : Nat) : Int) ≤ r.logPosition ∧
      r.logPosition + r.framed.length ≤ (((b + 1) * s.db.config.chunkSize : Nat) : Int) := by
  obtain ⟨j, rs, hj₁, hj₂, hj, hrs⟩ := mem_flatten_take_drop hr
  obtain ⟨h₁, h₂⟩ := hl.record_within hj hrs
  have hlo : a * s.db.config.chunkSize ≤ j * s.db.config.chunkSize := Nat.mul_le_mul_right _ hj₁
  have hhi : (j + 1) * s.db.config.chunkSize ≤ (b + 1) * s.db.config.chunkSize :=
    Nat.mul_le_mul_right _ (by omega)
  omega

/-- The records of the chunks from `b + 1` on stand at or after the first position of chunk
`b + 1`. -/
theorem past_range (hl : Layout s plan) {r : Record} (hr : r ∈ (plan.drop (b + 1)).flatten) :
    (((b + 1) * s.db.config.chunkSize : Nat) : Int) ≤ r.logPosition := by
  rw [← List.take_of_length_le (Nat.le_refl (plan.drop (b + 1)).length)] at hr
  obtain ⟨j, rs, hj₁, -, hj, hrs⟩ := mem_flatten_take_drop hr
  have := (hl.record_within hj hrs).1
  have hlo : (b + 1) * s.db.config.chunkSize ≤ j * s.db.config.chunkSize :=
    Nat.mul_le_mul_right _ hj₁
  omega

end Layout

/-! ## The merged chunk -/

theorem Bytes.byteOf_ofByteArray (b : ByteArray) (i : Nat) :
    FileData.byteOf b i = (Bytes.ofByteArray b)[i]?.getD 0 := by
  rw [FileData.byteOf, Bytes.ofByteArray, FileData.toList_eq_data, Array.getElem?_toList]

/-- A chunk opened on a sealed file whose data are the frames of `rs` holds them. -/
theorem Chunk.Sealed.toFrames {dir name : String} {hdr : ChunkHeader} {d : Disk} {file : Nat}
    {data : ByteArray} {m : List PosMapEntry} {ft : ChunkFooter}
    (hs : Chunk.Sealed dir name hdr d file data m ft) {rs : List Record}
    (hdata : Bytes.ofByteArray data = frames rs)
    (hread : ∀ r ∈ rs, r.Fits ∧ r.encode.length ≤ maxRecordSize) {c : Chunk} (hfile : c.file = file)
    (hsize : c.physicalDataSize = data.size) : Chunk.Frames d rs c := by
  have hlen : data.size = (frames rs).length := by rw [← Bytes.length_ofByteArray, hdata]
  have hhd := Chunk.size_header_toByteArray hdr
  refine ⟨by rw [hsize, hlen], fun o ho => ?_, by rw [hfile, hsize, hs.size]; omega, hread⟩
  -- the data region starts past the header, and the map and footer come after it
  rw [hfile, hs.shows, FileData.byteOf_append,
    if_pos (by simp only [ByteArray.size_append]; omega), FileData.byteOf_append,
    if_pos (by simp only [ByteArray.size_append]; omega), FileData.byteOf_append,
    if_neg (by omega), hhd, Nat.add_sub_cancel_left, Bytes.byteOf_ofByteArray, hdata,
    List.getElem?_eq_getElem ho, Option.getD_some]

/-- What scavenging chunks `start` to `finish` of a layout of `plan` leaves, as a reader sees it:
the chunk list gives one completed scavenged chunk holding `kept` for each number of the range,
the chunk the writer laid for every other number of the layout, and none past it. The
configuration and the writer are those of `s`. -/
structure Scavenged (s : Store) (plan : List (List Record)) (start finish : Nat)
    (kept : List Record) (s' : Store) : Prop where
  config : s'.db.config = s.db.config
  sound : s'.db.poisoned = false
  writer : s'.writer = s.writer
  ordered : start ≤ finish
  within : finish < plan.length
  length : s'.db.chunks.length + (finish - start) = plan.length
  number : plan.length < Nat.pow 2 32
  laid : ∀ i (hi : i < plan.length), (i < start ∨ finish < i) →
    ∃ c, LaidAt s' i plan[i] c ∧
      (i + 1 < plan.length → c.isCompleted = true ∨ c.physicalDataSize = s.db.config.chunkSize)
  merged : ∃ c, MergedAt s' start finish kept c
  beyond : ∀ n, plan.length ≤ n → ChunkList.get? s'.db.chunks n = none

end EventStore
