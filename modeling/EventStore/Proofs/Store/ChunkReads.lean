import EventStore.Proofs.Store.WriterPosition

/-!
# Reading chunks the chunk list gives

A read forward finds the chunk of its position through the chunk list, asks the chunk where the
first record at or after the position is stored, and reads the frame there. `Proofs/Store/ReadBack`
follows this on a layout, where chunk `i` of the list is chunk number `i`. Here the chunk list may
be any, and what a read needs of it is said chunk by chunk: `LaidAt s i rs c` for a chunk the
writer laid, holding `rs` as chunk number `i`, and `MergedAt s a b rs c` for a scavenged chunk of
chunk numbers `a` to `b`, which holds `rs` at their own log positions and finds each through its
position map (`posEntries`).

`ReadsFrom s need p v` says that a read forward from `p`, given at least `need` steps, returns
`v`. Within a laid chunk a read returns the chunk's next record or goes on at the next chunk's
start (`LaidAt.readsFrom_within`); within a scavenged chunk it returns the chunk's first record at
or after the position, or goes on past the chunk (`MergedAt.readsFrom`).
-/

namespace EventStore

open Store Record

variable {ε : Type}

/-! ## The chunk of a position -/

/-- The chunk size is one a layout can have, and no stop left the chunk list half-changed. -/
structure Store.Usable (s : Store) : Prop where
  chunkSize_pos : 0 < s.db.config.chunkSize
  chunkSize_lt : s.db.config.chunkSize < Nat.pow 2 31
  sound : s.db.poisoned = false

theorem Layout.usable {s : Store} {plan : List (List Record)} (hl : Layout s plan) : s.Usable :=
  ⟨hl.laid.chunkSize_pos, hl.laid.chunkSize_lt, hl.sound⟩

namespace Store.Usable

variable {s : Store}

/-- The chunk found for a natural position whose chunk number fits 32 bits is the one the chunk
list gives for that number. -/
theorem returns_getChunkFor (hu : s.Usable) {m : Nat}
    (hm : m / s.db.config.chunkSize < Nat.pow 2 32) :
    Returns (getChunkFor (m : Int) : StoreM ε (Option Chunk)) s
      (ChunkList.get? s.db.chunks (m / s.db.config.chunkSize)) := by
  unfold getChunkFor getChunk
  rw [if_neg (by omega)]
  refine Returns.bind (v := s.db.config) rfl ?_
  refine Returns.bind (Runs.onWorld (DbConfig.returns_chunkNumberOf _ hu.chunkSize_pos hm _)) ?_
  exact Returns.bind (runs_chunkList hu.sound) rfl

end Store.Usable

/-! ## Reads with enough steps -/

/-- A read forward from `p` returns `v` when given at least `need` steps. -/
def ReadsFrom (s : Store) (need : Nat) (p : Int) (v : Option (Record × Int)) : Prop :=
  ∀ fuel, need ≤ fuel → Returns (readForwardIn fuel p) s v

namespace ReadsFrom

variable {s : Store} {need : Nat} {p : Int} {v : Option (Record × Int)}

theorem mono (h : ReadsFrom s need p v) {need' : Nat} (hle : need ≤ need') :
    ReadsFrom s need' p v :=
  fun fuel hf => h fuel (Nat.le_trans hle hf)

/-- A read forward takes a step for each chunk and one more. -/
theorem returns_readForward (h : ReadsFrom s need p v) (hu : s.Usable)
    (hle : need ≤ s.db.chunks.length + 1) : Returns (readForward p) s v :=
  Returns.bind (runs_chunkList hu.sound) (h _ hle)

end ReadsFrom

/-! ## One step of a read -/

section Step

variable {s : Store} {base k : Nat} {c : Chunk} {fuel : Nat} {v : Option (Record × Int)}

/-- A position at a natural offset from a chunk's start is at that offset. -/
theorem ChunkHeader.localPosition_add {h : ChunkHeader} (hbase : h.startPosition = base)
    (hk : k < Nat.pow 2 63) : h.localPosition ((base + k : Nat) : Int) = (k : Int) := by
  unfold ChunkHeader.localPosition
  rw [hbase, show ((base + k : Nat) : Int) - (base : Int) = (k : Int) by omega]
  exact Word.pos_of_lt (Int.natCast_nonneg _) (Int.ofNat_lt.2 hk)

/-- Where the chunk of a position locates a record at or after the position's offset `k`, a read
reads the frame stored there: a record found ends where its frame does, and where none is found
the read goes on past the chunk only if the chunk was completed. -/
theorem returns_readForwardIn_located
    (hget : Returns (getChunkFor ((base + k : Nat) : Int) : StoreM DbError (Option Chunk)) s
      (some c))
    (hbase : c.header.startPosition = base) (hk : k < Nat.pow 2 63) {lg ph : Nat}
    (hloc : c.locate k = some (lg, ph)) {x : Option (Record × Nat)}
    (hf : Returns (c.readFrame ph) s.world x)
    (hv : ∀ r n, x = some (r, n) → v = some (r, ((base + lg + n : Nat) : Int)))
    (hnone : x = none → Returns (if c.isCompleted then readForwardIn fuel c.endPosition
      else pure none) s v) :
    Returns (readForwardIn (fuel + 1) ((base + k : Nat) : Int)) s v := by
  unfold readForwardIn
  refine Returns.bind hget ?_
  dsimp only
  rw [ChunkHeader.localPosition_add hbase hk, if_neg (by omega), Int.toNat_natCast, hloc]
  dsimp only
  refine Returns.bind (Runs.onWorld hf) ?_
  cases x with
  | none => exact hnone rfl
  | some e =>
    obtain ⟨r, n⟩ := e
    rw [hv r n rfl, Chunk.startPosition, hbase]
    rfl

/-- Where the chunk of a position locates no record at or after the position's offset, a read
goes on past the chunk. -/
theorem returns_readForwardIn_unlocated
    (hget : Returns (getChunkFor ((base + k : Nat) : Int) : StoreM DbError (Option Chunk)) s
      (some c))
    (hbase : c.header.startPosition = base) (hk : k < Nat.pow 2 63) (hloc : c.locate k = none)
    (hnext : Returns (readForwardIn fuel c.endPosition) s v) :
    Returns (readForwardIn (fuel + 1) ((base + k : Nat) : Int)) s v := by
  unfold readForwardIn
  refine Returns.bind hget ?_
  dsimp only
  rw [ChunkHeader.localPosition_add hbase hk, if_neg (by omega), Int.toNat_natCast, hloc]
  exact hnext

/-- Where the chunk list gives no chunk for the position's number, a read finds nothing. -/
theorem readsFrom_unfound (hu : s.Usable) {n : Nat} (hn : n < Nat.pow 2 32)
    (hnone : ChunkList.get? s.db.chunks n = none) :
    ReadsFrom s 0 ((n * s.db.config.chunkSize : Nat) : Int) none := by
  intro fuel _
  cases fuel with
  | zero => rfl
  | succ fuel =>
    have hdiv : n * s.db.config.chunkSize / s.db.config.chunkSize = n :=
      Nat.mul_div_cancel _ hu.chunkSize_pos
    unfold readForwardIn
    refine Returns.bind (hu.returns_getChunkFor (by rw [hdiv]; exact hn)) ?_
    rw [hdiv, hnone]
    rfl

end Step

/-! ## Chunks the writer laid -/

/-- Chunk number `i` of the store's chunk list is `c`, a chunk the writer laid, holding `rs`. -/
structure LaidAt (s : Store) (i : Nat) (rs : List Record) (c : Chunk) : Prop where
  found : ChunkList.get? s.db.chunks i = some c
  holds : ChunkHolds s.db.config.chunkSize s.world.disk i rs c
  number : i < Nat.pow 2 32

namespace LaidAt

variable {s : Store} {i : Nat} {rs pre post : List Record} {c : Chunk}

/-- The chunk of a position of a laid chunk is that chunk, starting at its number's first
position. -/
theorem returns_getChunkFor (hu : s.Usable) (h : LaidAt s i rs c) {k : Nat}
    (hk : k < s.db.config.chunkSize) :
    Returns (getChunkFor ((i * s.db.config.chunkSize + k : Nat) : Int) : StoreM DbError _) s
      (some c) ∧ c.header.startPosition = ((i * s.db.config.chunkSize : Nat) : Int) ∧
      c.header.endPosition = (((i + 1) * s.db.config.chunkSize : Nat) : Int) := by
  have hdiv : (i * s.db.config.chunkSize + k) / s.db.config.chunkSize = i := by
    rw [Nat.add_comm, Nat.add_mul_div_right _ _ hu.chunkSize_pos, Nat.div_eq_of_lt hk,
      Nat.zero_add]
  obtain ⟨hstart, hend, -⟩ := ChunkHeader.span_single h.holds.start h.holds.stop
    h.holds.chunkSize h.number hu.chunkSize_lt
  refine ⟨?_, hstart, hend⟩
  have hget := hu.returns_getChunkFor (ε := DbError) (m := i * s.db.config.chunkSize + k)
    (by rw [hdiv]; exact h.number)
  rwa [hdiv, h.found] at hget

/-- Within a laid chunk, past its records `pre`, a read returns the next record of the chunk, or,
where the chunk's data ends, what a read at the next chunk's start returns. There it goes only if
the chunk is full or was completed; an active chunk short of full ends the log. -/
theorem readsFrom_within (hu : s.Usable) (h : LaidAt s i (pre ++ post) c) {need : Nat}
    {v : Option (Record × Int)}
    (hnext : ReadsFrom s need (((i + 1) * s.db.config.chunkSize : Nat) : Int) v)
    (hlast : post = [] → c.isCompleted = false → c.physicalDataSize < s.db.config.chunkSize →
      v = none) :
    ReadsFrom s (need + 1) ((i * s.db.config.chunkSize + (frames pre).length : Nat) : Int)
      ((post.head?.map Record.entry).or v) := by
  intro fuel hfuel
  obtain ⟨f, rfl⟩ : ∃ f, fuel = f + 1 := ⟨fuel - 1, by omega⟩
  have hroom := h.holds.room
  have hsize : s.db.config.chunkSize < Nat.pow 2 63 :=
    Nat.lt_of_lt_of_le hu.chunkSize_lt (by decide)
  cases post with
  | cons r post =>
    -- the record's frame is read back where it starts
    have hle := h.holds.frame_le
    have hpos := length_encode_pos r
    have hlen := length_framed r
    obtain ⟨hget, hstart, -⟩ := h.returns_getChunkFor hu (k := (frames pre).length) (by omega)
    obtain ⟨hat, -, -⟩ := h.holds.placed.split
    refine returns_readForwardIn_located hget hstart (by omega)
      (Chunk.locate_unscavenged h.holds.unscavenged _) (h.holds.returns_readFrame rfl) ?_
      (fun h => by cases h)
    intro r' n he
    obtain ⟨rfl, rfl⟩ := Prod.mk.inj (Option.some.inj he)
    simp only [List.head?_cons, Option.map_some, Record.entry, hat]
    push_cast
    rfl
  | nil =>
    rw [List.append_nil] at h
    simp only [List.head?_nil, Option.map_none, Option.none_or]
    rw [← h.holds.dataSize]
    by_cases hfull : c.physicalDataSize = s.db.config.chunkSize
    · -- a full chunk's data ends where the next chunk starts
      rw [hfull, ← Nat.succ_mul]
      exact hnext _ (by omega)
    · -- where the data ends no frame is read
      obtain ⟨hget, hstart, hend⟩ := h.returns_getChunkFor hu (k := c.physicalDataSize) (by omega)
      refine returns_readForwardIn_located hget hstart (by omega)
        (Chunk.locate_unscavenged h.holds.unscavenged _) (Chunk.returns_readFrame_end _ _)
        (fun _ _ h => by cases h) fun _ => ?_
      cases hc : c.isCompleted with
      | true =>
        rw [if_pos rfl, Chunk.endPosition, hend]
        exact hnext f (by omega)
      | false =>
        rw [hlast rfl hc (by omega)]
        rfl

end LaidAt

/-! ## Scavenged chunks -/

/-- The position map entries of records stored one after another from offset `off` of the data
region of a scavenged chunk starting at log position `base`: each record's position relative to
the chunk start, and the offset its frame was written at. -/
def posEntries (base : Int) : Nat → List Record → List PosMapEntry
  | _, [] => []
  | off, r :: rs => ⟨(r.logPosition - base).toNat, off⟩ :: posEntries base (off + r.framed.length) rs

@[simp] theorem posEntries_nil (base : Int) (off : Nat) : posEntries base off [] = [] := rfl

theorem posEntries_cons (base : Int) (off : Nat) (r : Record) (rs : List Record) :
    posEntries base off (r :: rs) =
      ⟨(r.logPosition - base).toNat, off⟩ :: posEntries base (off + r.framed.length) rs := rfl

/-- The first entry at or after a relative position is that of the first record at or after the
position, when the records before it stand below it: its frame lies where the frames of those
before it end. -/
theorem find?_posEntries {base : Int} {p : Nat} {us vs : List Record}
    (hbase : ∀ r ∈ us, base ≤ r.logPosition) (hus : ∀ r ∈ us, r.logPosition < base + p)
    (hvs : ∀ r ∈ vs, base + p ≤ r.logPosition) (off : Nat) :
    (posEntries base off (us ++ vs)).find? (fun e => decide (p ≤ e.logPos)) =
      vs.head?.map fun r => ⟨(r.logPosition - base).toNat, off + (frames us).length⟩ := by
  induction us generalizing off with
  | nil =>
    cases vs with
    | nil => rfl
    | cons r vs =>
      have hr := hvs r (List.mem_cons_self ..)
      have hsel : decide (p ≤ (r.logPosition - base).toNat) = true := by simp; omega
      simp only [List.nil_append, posEntries_cons, List.find?_cons, hsel]
      rfl
  | cons u us ih =>
    have hu := hus u (List.mem_cons_self ..)
    have hub := hbase u (List.mem_cons_self ..)
    have hsel : decide (p ≤ (u.logPosition - base).toNat) = false := by simp; omega
    simp only [List.cons_append, posEntries_cons, List.find?_cons, hsel]
    rw [ih (fun r hr => hbase r (List.mem_cons_of_mem _ hr))
        (fun r hr => hus r (List.mem_cons_of_mem _ hr)), frames_cons, List.length_append,
      Nat.add_assoc]

/-- Chunk `c` of the store is a completed scavenged chunk, found for each chunk number `a` to
`b`, whose data region holds the frames of `rs`. Its records stand in order of log position, each
within the chunk's positions, and its position map has an entry for each of them. -/
structure MergedAt (s : Store) (a b : Nat) (rs : List Record) (c : Chunk) : Prop where
  found : ∀ n, a ≤ n → n ≤ b → ChunkList.get? s.db.chunks n = some c
  start : c.header.chunkStartNumber = a
  stop : c.header.chunkEndNumber = b
  chunkSize : c.header.chunkSize = s.db.config.chunkSize
  scavenged : c.header.isScavenged = true
  completed : c.isCompleted = true
  frames : Chunk.Frames s.world.disk rs c
  posMap : c.posMap = posEntries ((a * s.db.config.chunkSize : Nat) : Int) 0 rs
  sorted : rs.Pairwise fun r r' => r.logPosition < r'.logPosition
  within : ∀ r ∈ rs, ((a * s.db.config.chunkSize : Nat) : Int) ≤ r.logPosition ∧
    r.logPosition < (((b + 1) * s.db.config.chunkSize : Nat) : Int)
  ordered : a ≤ b
  number : b < Nat.pow 2 32

namespace MergedAt

variable {s : Store} {a b : Nat} {us vs : List Record} {c : Chunk}

/-- From any position of a scavenged chunk, a read returns the chunk's first record at or after
it, or, past the chunk's last record, what a read past the chunk returns. -/
theorem readsFrom (hu : s.Usable) (h : MergedAt s a b (us ++ vs) c) {m : Nat}
    (hlo : a * s.db.config.chunkSize ≤ m) (hhi : m < (b + 1) * s.db.config.chunkSize)
    (hus : ∀ r ∈ us, r.logPosition < (m : Int)) (hvs : ∀ r ∈ vs, (m : Int) ≤ r.logPosition)
    {need : Nat} {v : Option (Record × Int)}
    (hnext : ReadsFrom s need (((b + 1) * s.db.config.chunkSize : Nat) : Int) v) :
    ReadsFrom s (need + 1) (m : Int) ((vs.head?.map Record.entry).or v) := by
  intro fuel hfuel
  obtain ⟨f, rfl⟩ : ∃ f, fuel = f + 1 := ⟨fuel - 1, by omega⟩
  obtain ⟨k, rfl⟩ : ∃ k, m = a * s.db.config.chunkSize + k := ⟨m - a * s.db.config.chunkSize, by omega⟩
  obtain ⟨hstart, hend, -⟩ := ChunkHeader.span h.start h.stop h.chunkSize h.ordered h.number
    hu.chunkSize_lt
  have hk : k < Nat.pow 2 63 := by
    have hb : (b + 1) * s.db.config.chunkSize < Nat.pow 2 63 :=
      calc (b + 1) * s.db.config.chunkSize ≤ Nat.pow 2 32 * s.db.config.chunkSize :=
            Nat.mul_le_mul_right _ h.number
        _ < Nat.pow 2 32 * Nat.pow 2 31 :=
            Nat.mul_lt_mul_of_pos_left hu.chunkSize_lt (by decide)
        _ = Nat.pow 2 63 := by decide
    omega
  -- the chunk list gives the scavenged chunk for the position's number
  have hn : a ≤ (a * s.db.config.chunkSize + k) / s.db.config.chunkSize ∧
      (a * s.db.config.chunkSize + k) / s.db.config.chunkSize ≤ b := by
    constructor
    · exact (Nat.le_div_iff_mul_le hu.chunkSize_pos).2 (by omega)
    · exact Nat.lt_succ_iff.1 ((Nat.div_lt_iff_lt_mul hu.chunkSize_pos).2 hhi)
  have hget := hu.returns_getChunkFor (ε := DbError) (m := a * s.db.config.chunkSize + k)
    (Nat.lt_of_le_of_lt hn.2 h.number)
  rw [h.found _ hn.1 hn.2] at hget
  -- the position map points at the first record at or after the position
  have hfind := @find?_posEntries ((a * s.db.config.chunkSize : Nat) : Int) k us vs
    (fun r hr => (h.within r (List.mem_append_left _ hr)).1)
    (fun r hr => by have := hus r hr; push_cast at this ⊢; omega)
    (fun r hr => by have := hvs r hr; push_cast at this ⊢; omega) 0
  have hloc : c.locate k = vs.head?.map fun r =>
      ((r.logPosition - ((a * s.db.config.chunkSize : Nat) : Int)).toNat, (Record.frames us).length) := by
    rw [Chunk.locate, h.scavenged, h.posMap, hfind]
    cases vs <;> simp
  cases vs with
  | nil =>
    refine returns_readForwardIn_unlocated hget hstart hk (by simpa using hloc) ?_
    rw [Chunk.endPosition, hend]
    exact hnext f (by omega)
  | cons r vs =>
    have hr := hvs r (List.mem_cons_self ..)
    have hwithin := (h.within r (List.mem_append_right _ (List.mem_cons_self ..))).1
    refine returns_readForwardIn_located hget hstart hk (by simpa using hloc)
      (h.frames.returns_readFrame rfl) ?_ (fun h => by cases h)
    intro r' n he
    obtain ⟨rfl, rfl⟩ := Prod.mk.inj (Option.some.inj he)
    -- the position map gives the record's offset from the chunk start, so it ends where it did
    simp only [List.head?_cons, Option.map_some, Option.some_or, Record.entry, Option.some.injEq,
      Prod.mk.injEq, true_and]
    push_cast
    omega

end MergedAt

end EventStore
