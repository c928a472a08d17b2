import EventStore.Proofs.Store.Layout

/-!
# What the chunk writer does to the layout

Every action of the chunk writer that succeeds on a store laid out as `Layout` says leaves a
layout again. Finding the active chunk (`ensureChunk`) adds at most one empty chunk after the last;
a write that fits lays its record after the last chunk's data; a write that does not fit completes
the last chunk and starts the next one. So `writeRecord` adds to the plan exactly the record it
built, standing at the position it returns, ending where it says, and inside one chunk.
-/

namespace EventStore

open Store

/-- The writer on the active last chunk `c` of a layout, as `ensureChunk` leaves it. -/
structure Ready (s : Store) (plan : List (List Record)) (c : Chunk) : Prop where
  layout : Layout s plan
  last : s.db.chunks.getLast? = some c
  active : c.isCompleted = false
  current : s.writer.current = some c.handle

/-! ## Positions of a layout -/

/-- `plan'` is `plan` followed by empty chunks. -/
def Pads (plan plan' : List (List Record)) : Prop := ∃ k, plan' = plan ++ List.replicate k []

namespace Pads

variable {plan plan' plan'' : List (List Record)}

theorem refl (plan : List (List Record)) : Pads plan plan := ⟨0, by simp⟩

theorem trans (h₁ : Pads plan plan') (h₂ : Pads plan' plan'') : Pads plan plan'' := by
  obtain ⟨k₁, rfl⟩ := h₁
  obtain ⟨k₂, rfl⟩ := h₂
  exact ⟨k₁ + k₂, by rw [List.append_assoc, List.replicate_append_replicate]⟩

theorem of_shape (h : plan' = plan ∨ plan' = plan ++ [[]]) : Pads plan plan' := by
  rcases h with rfl | rfl
  · exact refl _
  · exact ⟨1, rfl⟩

end Pads

theorem planEnd_concat (cs : Nat) (init : List (List Record)) (rs : List Record) :
    planEnd cs (init ++ [rs]) = ((init.length * cs + (Record.frames rs).length : Nat) : Int) := by
  simp [planEnd]

/-- A chunk number is the position divided by the chunk size, below `2 ^ 32`. -/
theorem DbConfig.runs_chunkNumberOf_nat {ε : Type} {cfg : DbConfig} {m n : Nat} {w w' : World}
    (h : Runs (cfg.chunkNumberOf m : WorldM ε Nat) w n w') :
    w' = w ∧ 0 < cfg.chunkSize ∧ n = m / cfg.chunkSize ∧ n < Nat.pow 2 32 := by
  obtain ⟨hw, hcs, hn⟩ := DbConfig.runs_chunkNumberOf_inv h
  rw [← Int.ofNat_tdiv] at hn
  have hn' : n = m / cfg.chunkSize := Int.ofNat.inj hn
  refine ⟨hw, hcs, hn', ?_⟩
  unfold DbConfig.chunkNumberOf at h
  rw [if_neg (by omega)] at h
  dsimp only at h
  split at h
  · rename_i hq
    obtain ⟨hv, -⟩ := Runs.pure_inv h
    have h32 : Int.pow 2 32 = ((Nat.pow 2 32 : Nat) : Int) := by decide
    rw [h32, ← Int.ofNat_tdiv, ← hn'] at hq
    exact Int.ofNat_lt.1 hq.2
  · exact absurd h Runs.not_stop

namespace Laid

variable {cs : Nat} {dir : String} {chunks : List Chunk} {w : World} {plan : List (List Record)}

theorem numbered (h : Laid cs dir chunks w plan) : ChunkList.Numbered chunks := fun i hi =>
  ⟨(h.holds i hi (h.length ▸ hi)).start, (h.holds i hi (h.length ▸ hi)).stop⟩

/-- Chunk `i` of a layout spans a chunk size of positions from `i` chunk sizes on. -/
theorem span (h : Laid cs dir chunks w plan) {i : Nat} (hi : i < chunks.length) :
    chunks[i].startPosition = ((i * cs : Nat) : Int) ∧
      chunks[i].endPosition = (((i + 1) * cs : Nat) : Int) ∧
      chunks[i].header.capacity? = some cs :=
  have hh := h.holds i hi (h.length ▸ hi)
  ChunkHeader.span_single hh.start hh.stop hh.chunkSize
    (Nat.lt_of_lt_of_le (h.length ▸ hi) h.numbers) h.chunkSize_lt

/-- The span of a layout's chunks fits a 64-bit word. -/
theorem span_lt (h : Laid cs dir chunks w plan) : plan.length * cs < Nat.pow 2 63 :=
  calc plan.length * cs ≤ Nat.pow 2 32 * cs := Nat.mul_le_mul_right _ h.numbers
    _ < Nat.pow 2 32 * Nat.pow 2 31 := Nat.mul_lt_mul_of_pos_left h.chunkSize_lt (by decide)
    _ = Nat.pow 2 63 := by decide

/-- The last chunk of a layout holds the last records of the plan. -/
theorem last (h : Laid cs dir chunks w plan) {c : Chunk} (hc : chunks.getLast? = some c) :
    ∃ init rs, plan = init ++ [rs] ∧ init.length + 1 = chunks.length ∧
      chunks[init.length]? = some c ∧ ChunkHolds cs w.disk init.length rs c := by
  rcases List.eq_nil_or_concat plan with hp | ⟨init, rs, hp⟩
  · have : chunks = [] := List.eq_nil_of_length_eq_zero (by rw [h.length, hp]; rfl)
    simp [this] at hc
  · rw [List.concat_eq_append] at hp
    have hlen : init.length + 1 = chunks.length := by rw [h.length, hp]; simp
    have hck : chunks[init.length]? = some c := by
      rw [List.getLast?_eq_getElem?, ← hlen, Nat.add_sub_cancel] at hc
      exact hc
    obtain ⟨hk, hck'⟩ := List.getElem?_eq_some_iff.1 hck
    refine ⟨init, rs, hp, hlen, hck, ?_⟩
    have := h.holds init.length hk (by rw [hp]; simp)
    subst hp
    simpa [hck'] using this

/-- The data of the last chunk ends within the span of the layout, at its end only when the last
chunk is full. -/
theorem planEnd_le (h : Laid cs dir chunks w plan) :
    ∃ m : Nat, planEnd cs plan = m ∧ m ≤ plan.length * cs ∧
      ∀ c ∈ chunks.getLast?, m = plan.length * cs → c.physicalDataSize = cs := by
  cases hc : chunks.getLast? with
  | none =>
    have hp : plan = [] := by
      rw [List.getLast?_eq_none_iff] at hc
      exact List.eq_nil_of_length_eq_zero (by rw [← h.length, hc]; rfl)
    subst hp
    exact ⟨0, by simp [planEnd], Nat.zero_le _, nofun⟩
  | some c =>
    obtain ⟨init, rs, rfl, -, -, hh⟩ := h.last hc
    have hroom := hh.room
    have hdata := hh.dataSize
    refine ⟨_, planEnd_concat cs init rs, ?_, fun c' hc' hm => ?_⟩
    · simp only [List.length_append, List.length_singleton, Nat.add_mul, Nat.one_mul]
      omega
    · simp only [Option.mem_def, Option.some.injEq] at hc'
      subst hc'
      simp only [List.length_append, List.length_singleton, Nat.add_mul, Nat.one_mul] at hm
      omega

end Laid

@[simp] theorem Checkpoint.last_write (c : Checkpoint) (p : Int) : (c.write p).last = p := rfl

/-! ## Finding and adding chunks -/

namespace Store

variable {s s' : Store}

theorem runs_getChunk_inv {ε : Type} {n : Nat} {x : Option Chunk}
    (h : Runs (getChunk n : StoreM ε (Option Chunk)) s x s') :
    x = ChunkList.get? s.db.chunks n ∧ s' = s ∧ s.db.poisoned = false := by
  unfold getChunk at h
  obtain ⟨cs, s₁, h₁, h₂⟩ := h.bind_inv
  obtain ⟨rfl, rfl, hpo⟩ := runs_chunkList_inv h₁
  obtain ⟨rfl, rfl⟩ := Runs.pure_inv h₂
  exact ⟨rfl, rfl, hpo⟩

/-- The chunk number of a natural position, read on a store: the store is unchanged. -/
theorem runs_chunkNumberAt_inv {ε : Type} {m n : Nat}
    (h : Runs (onWorld (s.db.config.chunkNumberOf m) : StoreM ε Nat) s n s') :
    s' = s ∧ 0 < s.db.config.chunkSize ∧ n = m / s.db.config.chunkSize ∧ n < Nat.pow 2 32 := by
  obtain ⟨w, hw, rfl⟩ := Runs.onWorld_inv h
  obtain ⟨rfl, hcs, hn, hlt⟩ := DbConfig.runs_chunkNumberOf_nat hw
  exact ⟨rfl, hcs, hn, hlt⟩

/-- Adding a chunk at a number that no chunk covers, or only a completed one, succeeds only at the
next number: the chunk file is created and the chunk goes after the others. -/
theorem runs_addNewChunk_inv {header : ChunkHeader} {c : Chunk}
    (h : Runs (addNewChunk header) s c s') (hnum : ChunkList.Numbered s.db.chunks)
    (hfree : ∀ e ∈ ChunkList.get? s.db.chunks header.chunkStartNumber, e.isCompleted = true)
    (hse : header.chunkEndNumber = header.chunkStartNumber) :
    header.chunkStartNumber = s.db.chunks.length ∧ s.db.poisoned = false ∧
      ∃ w, Runs (s.db.config.createChunkFile header) s.world c w ∧
        s' = { s with world := w, db.chunks := s.db.chunks ++ [c] } := by
  unfold addNewChunk at h
  replace h := runs_holdingChunks_inv h
  obtain ⟨cs, s₁, h₁, h₂⟩ := h.bind_inv
  obtain ⟨hcs, hs₁, hpo⟩ := runs_chunkList_inv h₁
  subst cs s₁
  obtain ⟨cfg, s₂, h₃, h₄⟩ := h₂.bind_inv
  obtain ⟨hcfg, hs₂⟩ := runs_config_inv h₃
  subst cfg s₂
  dsimp only at h₄
  split at h₄
  · -- a completed chunk covers the number: it is refused
    rename_i e he
    rw [if_pos (by simp [hfree e he])] at h₄
    obtain ⟨_, _, h₅, -⟩ := h₄.bind_inv
    exact absurd h₅ Runs.not_fail
  · split at h₄
    · obtain ⟨_, _, h₅, -⟩ := h₄.bind_inv
      exact absurd h₅ Runs.not_fail
    · rename_i hnone hcount
      -- no chunk covers the number, so it lies past the numbered chunks, where the count stands
      have hpast : s.db.chunks.length ≤ header.chunkStartNumber := by
        rw [ChunkList.get?_numbered hnum] at hnone
        simpa using hnone
      have hstart : header.chunkStartNumber = s.db.chunks.length := by
        have hcount' : header.chunkStartNumber = ChunkList.count s.db.chunks := by simpa using hcount
        rw [ChunkList.count_numbered hnum] at hcount'
        have := Nat.mod_le s.db.chunks.length (Nat.pow 2 32)
        omega
      obtain ⟨c', s₃, h₅, h₆⟩ := h₄.bind_inv
      obtain ⟨w, hw, rfl⟩ := Runs.onWorld_inv h₅
      obtain ⟨_, s₄, h₇, h₈⟩ := h₆.bind_inv
      rw [Runs.modify_inv h₇] at h₈
      obtain ⟨hc, rfl⟩ := Runs.pure_inv h₈
      subst c'
      have hheader : c.header = header := by
        obtain ⟨cap, -, hnew⟩ := DbConfig.runs_createChunkFile_inv hw
        obtain ⟨wk, -, -, rfl, -⟩ := Chunk.runs_createNew_inv hnew
        rfl
      refine ⟨hstart, hpo, w, hw, ?_⟩
      dsimp only
      rw [ChunkList.add_numbered hnum (by rw [hheader, hstart]) (by rw [hheader, hse, hstart])]

theorem runs_chunkByHandle_inv {ε : Type} {hd : Nat} {x : Option Chunk}
    (h : Runs (chunkByHandle? hd : StoreM ε (Option Chunk)) s x s') :
    x = s.db.chunks.find? (·.handle = hd) ∧ s' = s ∧ s.db.poisoned = false := by
  unfold chunkByHandle? at h
  obtain ⟨cs, s₁, h₁, h₂⟩ := h.bind_inv
  obtain ⟨hcs, hs₁, hpo⟩ := runs_chunkList_inv h₁
  subst cs s₁
  obtain ⟨rfl, rfl⟩ := Runs.pure_inv h₂
  exact ⟨rfl, rfl, hpo⟩

end Store

/-- A layout with the writer at the end of the last chunk's data, on that chunk while it is
active. -/
theorem Ready.of_laid {s : Store} {plan : List (List Record)} {c : Chunk}
    (hlaid : Laid s.db.config.chunkSize s.db.config.dir s.db.chunks s.world plan)
    (hsound : s.db.poisoned = false)
    (hpos : s.writer.position = planEnd s.db.config.chunkSize plan)
    (hwritten : s.db.config.checkpoints.writer.last = s.writer.position)
    (hc : s.db.chunks.getLast? = some c) (hact : c.isCompleted = false)
    (hcur : s.writer.current = some c.handle) : Ready s plan c :=
  { layout :=
      { laid := hlaid
        sound := hsound
        position := .inl hpos
        written := hwritten
        current := fun _ hh => ⟨c, hc, Option.some.inj (hcur.symm.trans hh), hact⟩ }
    last := hc
    active := hact
    current := hcur }

/-- A layout reads a store only through its chunk size and directory, chunks, world, health, writer
position and chunk, and written writer checkpoint. -/
theorem Layout.of_parts {s t : Store} {plan : List (List Record)} (hl : Layout s plan)
    (hcs : t.db.config.chunkSize = s.db.config.chunkSize) (hdir : t.db.config.dir = s.db.config.dir)
    (hch : t.db.chunks = s.db.chunks) (hw : t.world = s.world) (hpo : t.db.poisoned = s.db.poisoned)
    (hpos : t.writer.position = s.writer.position) (hcur : t.writer.current = s.writer.current)
    (hwr : t.db.config.checkpoints.writer.last = s.db.config.checkpoints.writer.last) :
    Layout t plan :=
  { laid := by rw [hcs, hdir, hch, hw]; exact hl.laid
    sound := by rw [hpo]; exact hl.sound
    position := by rw [hpos, hcs, hch]; exact hl.position
    written := by rw [hwr, hpos]; exact hl.written
    current := by rw [hcur, hch]; exact hl.current }

/-- The writer of a layout stands at a position a 64-bit word holds. -/
theorem Layout.position_bounds {s : Store} {plan : List (List Record)} (hl : Layout s plan) :
    0 ≤ s.writer.position ∧ s.writer.position < Nat.pow 2 63 := by
  have hspan := hl.laid.span_lt
  obtain ⟨m, hpe, hle, -⟩ := hl.laid.planEnd_le
  rcases hl.position with hp | ⟨-, -, -, hp⟩
  · rw [hp, hpe]
    exact ⟨Int.natCast_nonneg _, Int.ofNat_lt.2 (Nat.lt_of_le_of_lt hle hspan)⟩
  · rw [hp]
    exact ⟨Int.natCast_nonneg _, Int.ofNat_lt.2 hspan⟩

theorem Ready.position {s : Store} {plan : List (List Record)} {c : Chunk} (hr : Ready s plan c) :
    s.writer.position = planEnd s.db.config.chunkSize plan := by
  rcases hr.layout.position with hp | ⟨c', hc', hcomp, -⟩
  · exact hp
  · have : c' = c := Option.some.inj (hc'.symm.trans hr.last)
    subst this
    rw [hr.active] at hcomp
    cases hcomp

namespace Store

variable {s s' : Store}

/-- Finding the active chunk at the writer position of a layout: it is the last chunk, when the
writer stands inside its span, or a new empty chunk after a full or completed last one. Either way
the writer is then on it, and the plan keeps its records. -/
theorem runs_activeChunkAt {plan : List (List Record)} {c : Chunk} (hl : Layout s plan)
    (h : Runs (activeChunkAt s.writer.position) s c s') :
    ∃ plan', Ready s' plan' c ∧ plan'.flatten = plan.flatten ∧ s'.db.config = s.db.config ∧
      s'.writer.position = s.writer.position ∧
      (plan' = plan ∧ s.writer.position < ((plan.length * s.db.config.chunkSize : Nat) : Int) ∨
        plan' = plan ++ [[]]) := by
  have hlaid := hl.laid
  -- the writer stands at a natural position, at the end of the span only past a full or
  -- completed last chunk
  obtain ⟨m, hm, hmfull⟩ : ∃ m : Nat, s.writer.position = m ∧
      (m = plan.length * s.db.config.chunkSize → ∀ c ∈ s.db.chunks.getLast?,
        c.isCompleted = true ∨ c.physicalDataSize = s.db.config.chunkSize) := by
    obtain ⟨m, hpe, -, hfull⟩ := hlaid.planEnd_le
    rcases hl.position with hp | ⟨c, hc, hcomp, hp⟩
    · exact ⟨m, hp.trans hpe, fun hm c hc => .inr (hfull c hc hm)⟩
    · refine ⟨_, hp, fun _ c' hc' => .inl ?_⟩
      rw [Option.mem_unique hc' hc]
      exact hcomp
  unfold activeChunkAt at h
  rw [hm] at h
  obtain ⟨cfg, s₁, h₁, h₂⟩ := h.bind_inv
  obtain ⟨hcfg, hs₁⟩ := runs_config_inv h₁
  subst cfg s₁
  obtain ⟨n, s₂, h₃, h₄⟩ := h₂.bind_inv
  obtain ⟨hs₂, hcs, hn, hn32⟩ := runs_chunkNumberAt_inv h₃
  subst s₂
  obtain ⟨x, s₃, h₅, h₆⟩ := h₄.bind_inv
  obtain ⟨hx, hs₃, -⟩ := runs_getChunk_inv h₅
  subst x s₃
  obtain ⟨c₀, s₄, h₇, h₈⟩ := h₆.bind_inv
  -- the chunk found must end its data at the writer position
  dsimp only at h₈
  split at h₈
  · obtain ⟨_, _, h₉, -⟩ := h₈.bind_inv
    exact absurd h₉ Runs.not_fail
  rename_i hend
  obtain ⟨_, s₅, h₉, h₁₀⟩ := h₈.bind_inv
  rw [runs_modifyWriter_inv h₉] at h₁₀
  obtain ⟨hc, rfl⟩ := Runs.pure_inv h₁₀
  subst c₀
  rw [ChunkList.get?_numbered hlaid.numbered] at h₇
  split at h₇
  · -- the chunk of that number is active: it is the last one
    rename_i c₁ hfilt
    obtain ⟨hc₁, hs₄⟩ := Runs.pure_inv h₇
    subst c₁ s₄
    obtain ⟨hget, hact⟩ := Option.filter_eq_some_iff.1 hfilt
    simp only [Bool.not_eq_true'] at hact
    obtain ⟨hnlt, hcn⟩ := List.getElem?_eq_some_iff.1 hget
    have hspan := hlaid.span hnlt
    rw [hcn] at hspan
    have hend' : n * s.db.config.chunkSize + c.physicalDataSize = m := by
      have := Decidable.of_not_not hend
      rw [hspan.1, ← Int.natCast_add] at this
      exact Int.ofNat.inj this
    -- a chunk before the last is completed or full; a full one would end at the next number
    have hlast : n + 1 = s.db.chunks.length := by
      rcases Nat.lt_or_ge (n + 1) s.db.chunks.length with hlt | hge
      · exfalso
        rcases hlaid.full n hlt with hcomp | hphys
        · rw [hcn, hact] at hcomp
          cases hcomp
        · rw [hcn] at hphys
          have : m / s.db.config.chunkSize = n + 1 := by
            rw [← hend', hphys, ← Nat.succ_mul, Nat.mul_div_cancel _ hcs]
          omega
      · omega
    have hgetLast : s.db.chunks.getLast? = some c := by
      rw [List.getLast?_eq_getElem?, ← hlast, Nat.add_sub_cancel, hget]
    have hpos : s.writer.position = planEnd s.db.config.chunkSize plan := by
      rcases hl.position with hp | ⟨c', hc', hcomp, -⟩
      · exact hp
      · rw [Option.mem_unique hc' hgetLast, hact] at hcomp
        cases hcomp
    -- the writer stands before the end of the span of the chunk it divides to, the last one
    have hinside : s.writer.position < ((plan.length * s.db.config.chunkSize : Nat) : Int) := by
      have hdiv := Nat.lt_mul_div_succ m hcs
      rw [← hn, hlast, hlaid.length, Nat.mul_comm] at hdiv
      rw [hm]
      exact Int.ofNat_lt.2 hdiv
    exact ⟨plan, Ready.of_laid hlaid hl.sound hpos hl.written hgetLast hact rfl, rfl, rfl, rfl,
      .inl ⟨rfl, hinside⟩⟩
  · -- no active chunk of that number: a new one is added after the last
    rename_i hfilt
    obtain ⟨header, s₆, h₁₁, h₁₂⟩ := h₇.bind_inv
    obtain ⟨w₁, hw₁, hs₆⟩ := Runs.onWorld_inv h₁₁
    subst s₆
    obtain ⟨hhcs, hhs, hhe, hhsc, hw₁'⟩ := ChunkHeader.runs_fresh_inv hw₁
    subst w₁
    have hfree : ∀ e ∈ ChunkList.get? s.db.chunks header.chunkStartNumber,
        e.isCompleted = true := by
      rw [hhs, ChunkList.get?_numbered hlaid.numbered]
      intro e he
      rw [Option.filter_eq_none_iff] at hfilt
      simpa using hfilt e he
    obtain ⟨hstart, -, w₂, hw₂, hs₄⟩ :=
      runs_addNewChunk_inv h₁₂ hlaid.numbered hfree (hhe.trans hhs.symm)
    subst s₄
    have hnL : n = plan.length := by
      rw [← hhs, ← hlaid.length]
      exact hstart
    obtain ⟨cap, hcap, hnew⟩ := DbConfig.runs_createChunkFile_inv hw₂
    obtain ⟨wk, -, hwk, hc, hw₂'⟩ := Chunk.runs_createNew_inv hnew
    subst c w₂
    have hspan := ChunkHeader.span_single hhs hhe hhcs hn32 hlaid.chunkSize_lt
    obtain rfl : cap = s.db.config.chunkSize := Option.some.inj (hcap.symm.trans hspan.2.2)
    -- the new chunk starts at the next number, where the writer stands
    have hend' : n * s.db.config.chunkSize = m := by
      have h₁ : header.startPosition + ((0 : Nat) : Int) = (m : Int) := Decidable.of_not_not hend
      rw [hspan.1, ← Int.natCast_add, Nat.add_zero] at h₁
      exact Int.ofNat.inj h₁
    have hlaid' := hlaid.add (hnL ▸ hn32) (hmfull (by rw [← hend', hnL])) (hhs.trans hnL)
      (hhe.trans hnL) hhsc hhcs (fun c hc => Nat.lt_succ_of_lt (hlaid.fresh c hc))
      (Nat.lt_succ_self _) hwk
    refine ⟨plan ++ [[]], Ready.of_laid hlaid' hl.sound ?_ hl.written (by simp) rfl rfl,
      by simp, rfl, rfl, .inr rfl⟩
    show s.writer.position = _
    rw [hm, ← hend', hnL]
    simp [planEnd]

/-! ## What the writer's small steps keep

Each step is stated by the parts of the store it keeps or sets, so that a run of several steps is
followed part by part rather than through one nested record. -/

theorem runs_modifyWriter_parts {ε : Type} {f : ChunkWriter → ChunkWriter} {u : Unit}
    (h : Runs (modifyWriter f : StoreM ε Unit) s u s') :
    s'.db = s.db ∧ s'.world = s.world ∧ s'.writer = f s.writer := by
  rw [runs_modifyWriter_inv h]
  exact ⟨rfl, rfl, rfl⟩

theorem runs_setLastFrameLen_parts {ε : Type} {n : Nat} {u : Unit}
    (h : Runs (modifyWriter fun w => { w with lastFrameLen := n } : StoreM ε Unit) s u s') :
    s'.db = s.db ∧ s'.world = s.world ∧ s'.writer.position = s.writer.position ∧
      s'.writer.current = s.writer.current := by
  rw [runs_modifyWriter_inv h]
  exact ⟨rfl, rfl, rfl, rfl⟩

theorem runs_setWriterPosition_parts {ε : Type} {p : Int} {u : Unit}
    (h : Runs (setWriterPosition p : StoreM ε Unit) s u s') :
    s'.db.chunks = s.db.chunks ∧ s'.db.config.chunkSize = s.db.config.chunkSize ∧
      s'.db.config.dir = s.db.config.dir ∧ s'.db.poisoned = s.db.poisoned ∧ s'.world = s.world ∧
      s'.writer.position = p ∧ s'.writer.current = s.writer.current ∧
      s'.db.config.checkpoints.writer = s.db.config.checkpoints.writer.write p := by
  rw [runs_setWriterPosition_inv h]
  exact ⟨rfl, rfl, rfl, rfl, rfl, rfl, rfl, rfl⟩

theorem runs_flushWriter_parts {ε : Type} {u : Unit} (h : Runs (flushWriter : StoreM ε Unit) s u s') :
    s'.db.chunks = s.db.chunks ∧ s'.db.config.chunkSize = s.db.config.chunkSize ∧
      s'.db.config.dir = s.db.config.dir ∧ s'.db.poisoned = s.db.poisoned ∧ s'.writer = s.writer ∧
      s'.world = { s.world with disk := (s.db.config.checkpoints.writer.flush s.world.disk).1 } ∧
      s'.db.config.checkpoints.writer = (s.db.config.checkpoints.writer.flush s.world.disk).2 := by
  rw [runs_flushWriter_inv h]
  exact ⟨rfl, rfl, rfl, rfl, rfl, rfl, rfl⟩

theorem runs_withChunk_parts {γ : Type} {c : Chunk} {f : Chunk → WorldM DbError (γ × Chunk)} {a : γ}
    (h : Runs (withChunk c f) s a s') :
    ∃ c' w, Runs (f c) s.world (a, c') w ∧ s'.db.chunks = ChunkList.update s.db.chunks c' ∧
      s'.db.config = s.db.config ∧ s'.db.poisoned = s.db.poisoned ∧ s'.world = w ∧
      s'.writer = s.writer := by
  obtain ⟨c', w, hw, rfl⟩ := runs_withChunk_inv h
  exact ⟨c', w, hw, rfl, rfl, rfl, rfl, rfl⟩

/-- The active chunk the writer appends to, on a layout: the last chunk, or a new empty chunk after
it, with the writer on it. -/
theorem runs_ensureChunk {plan : List (List Record)} {c : Chunk} (hl : Layout s plan)
    (h : Runs ensureChunk s c s') :
    ∃ plan', Ready s' plan' c ∧ plan'.flatten = plan.flatten ∧ s'.db.config = s.db.config ∧
      s'.writer.position = s.writer.position ∧ (plan' = plan ∨ plan' = plan ++ [[]]) := by
  unfold ensureChunk at h
  obtain ⟨w, s₁, h₁, h₂⟩ := h.bind_inv
  obtain ⟨hw, hs₁⟩ := runs_theWriter_inv h₁
  subst w s₁
  dsimp only at h₂
  split at h₂
  · rename_i hd hcur
    obtain ⟨x, s₂, h₃, h₄⟩ := h₂.bind_inv
    obtain ⟨hx, hs₂, -⟩ := runs_chunkByHandle_inv h₃
    subst x s₂
    split at h₄
    · -- the writer's current chunk is the last one, found by its handle
      rename_i c₁ hfind
      obtain ⟨hc, hs'⟩ := Runs.pure_inv h₄
      subst c s'
      obtain ⟨c₂, hc₂, hh, hact⟩ := hl.current hd hcur
      have hget := hc₂
      rw [List.getLast?_eq_getElem?] at hget
      obtain ⟨hk, hck⟩ := List.getElem?_eq_some_iff.1 hget
      rw [← hh, ← hck, ChunkList.find?_handle hl.laid.handles hk, hck] at hfind
      obtain rfl := Option.some.inj hfind
      exact ⟨plan, ⟨hl, hc₂, hact, hcur.trans (congrArg some hh.symm)⟩, rfl, rfl, rfl, .inl rfl⟩
    · obtain ⟨plan', hr, hflat, hcfg, hpos, hshape⟩ := runs_activeChunkAt hl h₄
      exact ⟨plan', hr, hflat, hcfg, hpos, hshape.imp_left And.left⟩
  · obtain ⟨plan', hr, hflat, hcfg, hpos, hshape⟩ := runs_activeChunkAt hl h₂
    exact ⟨plan', hr, hflat, hcfg, hpos, hshape.imp_left And.left⟩

/-- A writer on no chunk finds its active chunk at its position. -/
theorem runs_ensureChunk_of_none {plan : List (List Record)} {c : Chunk} (hl : Layout s plan)
    (hcur : s.writer.current = none) (h : Runs ensureChunk s c s') :
    ∃ plan', Ready s' plan' c ∧ plan'.flatten = plan.flatten ∧ s'.db.config = s.db.config ∧
      s'.writer.position = s.writer.position ∧
      (plan' = plan ∧ s.writer.position < ((plan.length * s.db.config.chunkSize : Nat) : Int) ∨
        plan' = plan ++ [[]]) := by
  unfold ensureChunk at h
  obtain ⟨w, s₁, h₁, h₂⟩ := h.bind_inv
  obtain ⟨hw, hs₁⟩ := runs_theWriter_inv h₁
  subst w s₁
  rw [hcur] at h₂
  exact runs_activeChunkAt hl h₂

/-- Sealing the active chunk of a layout and moving to the next: the plan keeps its records, and
the writer stands at the start of a new empty chunk. -/
theorem runs_completeChunk {plan : List (List Record)} {u : Unit} (hl : Layout s plan)
    (h : Runs completeChunk s u s') :
    ∃ plan', Layout s' plan' ∧ plan'.flatten = plan.flatten ∧
      s'.db.config.chunkSize = s.db.config.chunkSize ∧ Pads plan plan' ∧
      s.writer.position ≤ s'.writer.position ∧ plan'.getLast? = some [] := by
  unfold completeChunk at h
  obtain ⟨c, s₁, h₁, h₂⟩ := h.bind_inv
  obtain ⟨plan₁, hr, hflat₁, hcfg₁, hpos₁, hshape₁⟩ := runs_ensureChunk hl h₁
  -- the last chunk is completed where its data ends
  obtain ⟨ft, s₂, h₃, h₄⟩ := h₂.bind_inv
  obtain ⟨c', w, hw, hch₂, hcfg₂, hpo₂, hw₂, hwr₂⟩ := runs_withChunk_parts h₃
  obtain ⟨wk, hwk, hc', hw'⟩ := Chunk.runs_complete_inv hw
  subst hc' hw'
  -- the writer leaves it and moves to its end, and the writer checkpoint is flushed there
  obtain ⟨_, s₃, h₅, h₆⟩ := h₄.bind_inv
  obtain ⟨hdb₃, hw₃, hwr₃⟩ := runs_modifyWriter_parts h₅
  obtain ⟨_, s₄, h₇, h₈⟩ := h₆.bind_inv
  obtain ⟨hch₄, hcs₄, hdir₄, hpo₄, hw₄, hpos₄, hcur₄, hcp₄⟩ := runs_setWriterPosition_parts h₇
  obtain ⟨_, s₅, h₉, h₁₀⟩ := h₈.bind_inv
  obtain ⟨hch₅, hcs₅, hdir₅, hpo₅, hwr₅, hw₅, hcp₅⟩ := runs_flushWriter_parts h₉
  obtain ⟨c'', s₆, h₁₁, h₁₂⟩ := h₁₀.bind_inv
  obtain ⟨-, rfl⟩ := Runs.pure_inv h₁₂
  -- the completed chunk is the last; the writer stands at its end, where the next one starts
  have hlaid := hr.layout.laid
  obtain ⟨init, rs, hp, hlen, hck, -⟩ := hlaid.last hr.last
  obtain ⟨hk, hck'⟩ := List.getElem?_eq_some_iff.1 hck
  have hdone := hlaid.complete_last hk (hck' ▸ hwk) (hck' ▸ hr.active) ft
  rw [hck'] at hdone
  have hupd := ChunkList.update_eq_set hlaid.handles hk
    (c := { c with work := none, footer := some ft }) (by rw [hck'])
  have hend : c.endPosition = ((plan₁.length * s₁.db.config.chunkSize : Nat) : Int) := by
    rw [← hck', (hlaid.span hk).2.1, hp]
    simp
  -- the parts of the store after the four steps
  have hcs : s₅.db.config.chunkSize = s₁.db.config.chunkSize := by
    rw [hcs₅, hcs₄, hdb₃, hcfg₂]
  have hdir : s₅.db.config.dir = s₁.db.config.dir := by
    rw [hdir₅, hdir₄, hdb₃, hcfg₂]
  have hch : s₅.db.chunks = s₁.db.chunks.set init.length { c with work := none, footer := some ft } := by
    rw [hch₅, hch₄, hdb₃, hch₂, hupd]
  have hpos : s₅.writer.position = c.endPosition := by
    rw [hwr₅, hpos₄]
  have hcp : s₅.db.config.checkpoints.writer.last = c.endPosition := by
    rw [hcp₅, (Checkpoint.flush_spec _ _).2.1, hcp₄, Checkpoint.last_write]
  have hworld : s₅.world = { s₄.world with disk :=
      ((s₁.db.config.checkpoints.writer.write c.endPosition).flush s₄.world.disk).1 } := by
    rw [hw₅, hcp₄, hdb₃, hcfg₂]
  rw [hw₄, hw₃, hw₂] at hworld
  have hl₅ : Layout s₅ plan₁ :=
    { laid := by
        rw [hcs, hdir, hch, hworld]
        exact hdone.flush _
      sound := by rw [hpo₅, hpo₄, hdb₃, hpo₂]; exact hr.layout.sound
      position := .inr ⟨{ c with work := none, footer := some ft }, by
          rw [hch, List.getLast?_eq_getElem?]
          simp [← hlen], rfl, by rw [hpos, hend, hcs]⟩
      written := hcp.trans hpos.symm
      current := fun _ hh => by
        rw [hwr₅, hcur₄, hwr₃] at hh
        cases hh }
  have hcur₅ : s₅.writer.current = none := by rw [hwr₅, hcur₄, hwr₃]
  obtain ⟨plan₂, hr₂, hflat₂, hcfg₆, hpos₆, hshape₂⟩ := runs_ensureChunk_of_none hl₅ hcur₅ h₁₁
  -- the writer stands at the end of the span, so a new empty chunk is added
  obtain rfl : plan₂ = plan₁ ++ [[]] := hshape₂.resolve_left fun ⟨_, hlt⟩ => by
    rw [hpos, hend, hcs] at hlt
    exact Int.lt_irrefl _ hlt
  refine ⟨plan₁ ++ [[]], hr₂.layout, hflat₂.trans hflat₁, ?_, (Pads.of_shape hshape₁).trans
    (Pads.of_shape (.inr rfl)), ?_, by simp⟩
  · rw [hcfg₆, hcs, ← hcfg₁]
  · -- the writer moves from where the last chunk's data ends to where the chunk ends
    obtain ⟨m, hpe, hle, -⟩ := hlaid.planEnd_le
    rw [hpos₆, hpos, hend, ← hpos₁, hr.position, hpe]
    exact Int.ofNat_le.2 hle

/-- One try at writing a record that stands at the writer position of a layout. Either the record
is laid after the last chunk's data, the writer stands where it ends and that is the position
returned, and it lies within one chunk's span; or it did not fit after the data of the last chunk
(or of a new empty one), and the writer moved on to a new empty chunk with the plan's records
unchanged. -/
theorem runs_writeOnce {plan : List (List Record)} {r : Record} {res : Option Int}
    (hl : Layout s plan) (hpos : r.logPosition = s.writer.position) (hfit : r.Fits)
    (hmax : r.encode.length ≤ maxRecordSize) (h : Runs (writeOnce r) s res s') :
    s'.db.config.chunkSize = s.db.config.chunkSize ∧ ∃ plan', Layout s' plan' ∧
      ((res = none ∧ plan'.flatten = plan.flatten ∧ Pads plan plan' ∧
          s.writer.position ≤ s'.writer.position ∧ plan'.getLast? = some [] ∧
          ∃ rs, (plan.getLast? = some rs ∨ rs = []) ∧
            s.db.config.chunkSize < (Record.frames rs).length + r.framed.length) ∨
       (res = some s'.writer.position ∧ plan'.flatten = plan.flatten ++ [r] ∧
        s'.writer.position = r.logPosition + r.framed.length ∧
        (∃ i : Nat, ((i * s.db.config.chunkSize : Nat) : Int) ≤ r.logPosition ∧
          s'.writer.position ≤ (((i + 1) * s.db.config.chunkSize : Nat) : Int)) ∧
        ∃ init rs, Pads plan (init ++ [rs]) ∧ plan' = init ++ [rs ++ [r]] ∧
          r.logPosition = ((init.length * s.db.config.chunkSize + (Record.frames rs).length : Nat) :
            Int))) := by
  unfold writeOnce at h
  obtain ⟨_, s₁, h₁, h₂⟩ := h.bind_inv
  obtain ⟨hdb₁, hw₁, hpos₁, hcur₁⟩ := runs_setLastFrameLen_parts h₁
  have hl₁ : Layout s₁ plan := hl.of_parts (by rw [hdb₁]) (by rw [hdb₁]) (by rw [hdb₁]) hw₁
    (by rw [hdb₁]) hpos₁ hcur₁ (by rw [hdb₁])
  dsimp only at h₂
  obtain ⟨cfg, s₂, h₃, h₄⟩ := h₂.bind_inv
  obtain ⟨hcfg, hs₂⟩ := runs_config_inv h₃
  subst cfg s₂
  split at h₄
  · obtain ⟨_, _, h₅, -⟩ := h₄.bind_inv
    exact absurd h₅ Runs.not_fail
  obtain ⟨c, s₃, h₅, h₆⟩ := h₄.bind_inv
  obtain ⟨plan₁, hr, hflat₁, hcfg₃, hpos₃, hshape₁⟩ := runs_ensureChunk hl₁ h₅
  obtain ⟨b, s₄, h₇, h₈⟩ := h₆.bind_inv
  obtain ⟨c', w, happ, hch₄, hcfg₄, hpo₄, hw₄, hwr₄⟩ := runs_withChunk_parts h₇
  obtain ⟨wk, n, hwk, hcap, hcase⟩ := Chunk.runs_append_inv happ
  have hlaid := hr.layout.laid
  obtain ⟨init, rs, hp, hlen, hck, hholds⟩ := hlaid.last hr.last
  obtain ⟨hk, hck'⟩ := List.getElem?_eq_some_iff.1 hck
  have hcs₁ : s₁.db.config.chunkSize = s.db.config.chunkSize := by rw [hdb₁]
  have hcs₃ : s₃.db.config.chunkSize = s.db.config.chunkSize := by rw [hcfg₃, hcs₁]
  -- the room the append checks is the last chunk's capacity, the chunk size
  have hn : n = s₃.db.config.chunkSize := by
    have := (hlaid.span hk).2.2
    rw [hck'] at this
    exact Option.some.inj (hcap.symm.trans this)
  subst hn
  split at h₈
  · -- the record fits: it is laid after the last chunk's data
    rename_i hb
    obtain ⟨-, hb', -⟩ | ⟨hroom, -, wk', hwk', rfl, rfl⟩ := hcase
    · rw [hb] at hb'
      cases hb'
    obtain ⟨x, s₅, h₉, h₁₀⟩ := h₈.bind_inv
    obtain ⟨hx, hs₅⟩ := runs_theWriter_inv h₉
    subst x s₅
    obtain ⟨_, s₆, h₁₁, h₁₂⟩ := h₁₀.bind_inv
    obtain ⟨hch₆, hcs₆, hdir₆, hpo₆, hw₆, hpos₆, hcur₆, hcp₆⟩ := runs_setWriterPosition_parts h₁₁
    obtain ⟨hres, hs'⟩ := Runs.pure_inv h₁₂
    subst s'
    -- the record stands where the last chunk's data ends
    have hwpos : s₄.writer.position = r.logPosition := by rw [hwr₄, hpos₃, hpos₁, hpos]
    have hend : s₃.writer.position =
        ((init.length * s₃.db.config.chunkSize + (Record.frames rs).length : Nat) : Int) := by
      rw [hr.position, hp, planEnd_concat]
    have hstart : r.logPosition = ((init.length * s₃.db.config.chunkSize : Nat) : Int) +
        (Record.frames rs).length := by
      rw [hpos, ← hpos₁, ← hpos₃, hend, Int.natCast_add]
    have hroom' : c.physicalDataSize + r.framed.length ≤ s₃.db.config.chunkSize := by
      simpa using hroom
    have hrs : plan₁[init.length]? = some rs := by simp [hp]
    have hlaid' := hlaid.append_last hlen hck hrs hr.active hwk hstart hfit hmax hroom' hwk'
    have hupd : ChunkList.update s₃.db.chunks
        { c with work := some wk', physicalDataSize := c.physicalDataSize +
          (Bytes.toByteArray r.framed).size } =
        s₃.db.chunks.set init.length { c with work := some wk', physicalDataSize :=
          c.physicalDataSize + (Bytes.toByteArray r.framed).size } :=
      ChunkList.update_eq_set hlaid.handles hk (by rw [hck'])
    have hplan : plan₁.set init.length (rs ++ [r]) = init ++ [rs ++ [r]] := by
      rw [hp, List.set_append_right _ _ (Nat.le_refl _)]
      simp
    rw [hplan] at hlaid'
    have hready : Ready s₆ (init ++ [rs ++ [r]])
        { c with work := some wk', physicalDataSize := c.physicalDataSize +
          (Bytes.toByteArray r.framed).size } := by
      refine Ready.of_laid ?_ ?_ ?_ ?_ ?_ hr.active ?_
      · rw [hcs₆, hdir₆, hch₆, hw₆, hch₄, hw₄, hcfg₄, hupd]
        exact hlaid'
      · rw [hpo₆, hpo₄]
        exact hr.layout.sound
      · rw [hpos₆, hcs₆, hcfg₄, planEnd_concat, hwr₄, hend, Record.frames_append,
          Record.frames_singleton]
        simp only [List.length_append, Int.natCast_add]
        omega
      · rw [hcp₆, Checkpoint.last_write, hpos₆]
      · rw [hch₆, hch₄, hupd, List.getLast?_eq_getElem?]
        simp [← hlen]
      · rw [hcur₆, hwr₄]
        exact hr.current
    have hdata := hholds.dataSize
    refine ⟨by rw [hcs₆, hcfg₄, hcs₃], _, hready.layout,
      .inr ⟨hres.trans (congrArg some hpos₆.symm), ?_, by rw [hpos₆, hwpos], ⟨init.length, ?_, ?_⟩,
        init, rs, hp ▸ Pads.of_shape hshape₁, rfl, ?_⟩⟩
    · rw [← hflat₁, hp]
      simp
    · rw [hstart, ← hcs₃]
      omega
    · rw [hpos₆, hwpos, hstart, ← hcs₃, Nat.succ_mul]
      omega
    · rw [hstart, hcs₃, Int.natCast_add]
  · -- no room: the chunk is completed and the writer moves to the next
    rename_i hb
    obtain ⟨hnoroom, -, rfl, rfl⟩ | ⟨-, hb', -⟩ := hcase
    · obtain ⟨_, s₅, h₉, h₁₀⟩ := h₈.bind_inv
      obtain ⟨hres, rfl⟩ := Runs.pure_inv h₁₀
      have hch : s₄.db.chunks = s₃.db.chunks := by
        rw [hch₄, ChunkList.update_eq_set hlaid.handles hk (by rw [hck']), ← hck',
          List.set_getElem_self]
      have hl₄ : Layout s₄ plan₁ := hr.layout.of_parts (by rw [hcfg₄]) (by rw [hcfg₄]) hch hw₄
        hpo₄ (by rw [hwr₄]) (by rw [hwr₄]) (by rw [hcfg₄])
      obtain ⟨plan₂, hl₂, hflat₂, hcs₂, hpads₂, hpos₂, hlast₂⟩ := runs_completeChunk hl₄ h₉
      -- the record did not fit after the data of the last chunk, the chunk of the plan's last
      -- records or a new empty one
      have hrs : plan.getLast? = some rs ∨ rs = [] := by
        rcases hshape₁ with rfl | rfl
        · exact .inl (by simp [hp])
        · exact .inr (List.singleton_inj.1 (List.append_inj_right' hp rfl).symm)
      refine ⟨by rw [hcs₂, hcfg₄, hcfg₃, hcs₁], plan₂, hl₂, .inl ⟨hres, hflat₂.trans hflat₁,
        (Pads.of_shape hshape₁).trans hpads₂, ?_, hlast₂, rs, hrs, ?_⟩⟩
      · rw [← hpos₁, ← hpos₃, ← hwr₄]
        exact hpos₂
      · rw [← hcs₃, ← hholds.dataSize]
        simpa using hnoroom
    · rw [hb'] at hb
      exact absurd rfl hb

/-- Writing a record built for the position it lands at, on a layout: the plan gains exactly that
record, which stands at the start returned and ends at the end returned, where the writer now
stands, within one chunk's span. The record goes after the data of the last chunk of the plan
followed by empty chunks, at or after where the writer stood. -/
theorem runs_writeRecord {plan : List (List Record)} {make : Int → Record} {st en : Int}
    (hl : Layout s plan) (hb : Builds make) (h : Runs (writeRecord make) s (st, en) s') :
    s'.db.config.chunkSize = s.db.config.chunkSize ∧ ∃ plan', Layout s' plan' ∧
      plan'.flatten = plan.flatten ++ [make st] ∧ (make st).logPosition = st ∧
      en = st + (make st).framed.length ∧ s'.writer.position = en ∧
      (∃ i : Nat, ((i * s.db.config.chunkSize : Nat) : Int) ≤ st ∧
        en ≤ (((i + 1) * s.db.config.chunkSize : Nat) : Int)) ∧
      ∃ init rs, Pads plan (init ++ [rs]) ∧ plan' = init ++ [rs ++ [make st]] ∧
        st = ((init.length * s.db.config.chunkSize + (Record.frames rs).length : Nat) : Int) ∧
        s.writer.position ≤ st := by
  -- a try that returns an end has laid the record built for the writer position
  have laid : ∀ {s₀ : Store} {plan₀ : List (List Record)} {fin : Int}, Layout s₀ plan₀ →
      plan₀.flatten = plan.flatten → Pads plan plan₀ → s.writer.position ≤ s₀.writer.position →
      s₀.db.config.chunkSize = s.db.config.chunkSize →
      Runs (writeOnce (make s₀.writer.position)) s₀ (some fin) s' →
      s'.db.config.chunkSize = s.db.config.chunkSize ∧ ∃ plan', Layout s' plan' ∧
        plan'.flatten = plan.flatten ++ [make s₀.writer.position] ∧
        (make s₀.writer.position).logPosition = s₀.writer.position ∧
        fin = s₀.writer.position + (make s₀.writer.position).framed.length ∧
        s'.writer.position = fin ∧
        (∃ i : Nat, ((i * s.db.config.chunkSize : Nat) : Int) ≤ s₀.writer.position ∧
          fin ≤ (((i + 1) * s.db.config.chunkSize : Nat) : Int)) ∧
        ∃ init rs, Pads plan (init ++ [rs]) ∧ plan' = init ++ [rs ++ [make s₀.writer.position]] ∧
          s₀.writer.position =
            ((init.length * s.db.config.chunkSize + (Record.frames rs).length : Nat) : Int) ∧
          s.writer.position ≤ s₀.writer.position := by
    intro s₀ plan₀ fin hl₀ hflat₀ hpads₀ hle₀ hcs₀ hw
    obtain ⟨h0, h63⟩ := hl₀.position_bounds
    obtain ⟨hpos, hfit, hmax⟩ := hb s₀.writer.position h0 h63
    obtain ⟨hcs, plan', hl', hcase⟩ := runs_writeOnce hl₀ hpos hfit hmax hw
    obtain ⟨hnone, -⟩ | ⟨hsome, hflat, hend, ⟨i, hi₁, hi₂⟩, init, rs, hpads, hplan', hat⟩ := hcase
    · cases hnone
    · obtain rfl := Option.some.inj hsome
      rw [hpos, hcs₀] at *
      exact ⟨hcs.trans hcs₀, plan', hl', by rw [hflat, hflat₀], hpos, hend, rfl, ⟨i, hi₁, hi₂⟩,
        init, rs, hpads₀.trans hpads, hplan', hat, hle₀⟩
  unfold writeRecord at h
  obtain ⟨st₀, s₁, h₁, h₂⟩ := h.bind_inv
  obtain ⟨w, hw, hst₀⟩ := Runs.map_inv h₁
  obtain ⟨hw', hs₁⟩ := runs_theWriter_inv hw
  subst w s₁ st₀
  obtain ⟨res, s₂, h₃, h₄⟩ := h₂.bind_inv
  split at h₄
  · -- the first try fitted
    obtain ⟨hv, hs₂⟩ := Runs.pure_inv h₄
    subst s₂
    obtain ⟨rfl, rfl⟩ := Prod.mk.inj hv
    exact laid hl rfl (Pads.refl _) (Int.le_refl _) rfl h₃
  · -- it did not: the writer moved to a new chunk, and the second try must fit
    rename_i hnot
    obtain ⟨h0, h63⟩ := hl.position_bounds
    obtain ⟨hpos, hfit, hmax⟩ := hb _ h0 h63
    obtain ⟨hcs₂, plan₂, hl₂, hcase⟩ := runs_writeOnce hl hpos hfit hmax h₃
    obtain ⟨-, hflat₂, hpads₂, hpos₂, -⟩ | ⟨hsome, -⟩ := hcase
    · obtain ⟨st₁, s₃, h₅, h₆⟩ := h₄.bind_inv
      obtain ⟨w, hw, hst₁⟩ := Runs.map_inv h₅
      obtain ⟨hw', hs₃⟩ := runs_theWriter_inv hw
      subst w s₃ st₁
      obtain ⟨res', s₄, h₇, h₈⟩ := h₆.bind_inv
      split at h₈
      · obtain ⟨hv, hs₄⟩ := Runs.pure_inv h₈
        subst s₄
        obtain ⟨rfl, rfl⟩ := Prod.mk.inj hv
        exact laid hl₂ hflat₂ hpads₂ hpos₂ hcs₂ h₇
      · obtain ⟨_, _, -, h₉⟩ := h₈.bind_inv
        exact absurd h₉ Runs.not_fail
    · exact absurd hsome (hnot _)

/-- Flushing the writer checkpoint keeps the layout, and the checkpoint then reads where the writer
stands. -/
theorem runs_flushWriter_layout {ε : Type} {plan : List (List Record)} {u : Unit} (hl : Layout s plan)
    (h : Runs (flushWriter : StoreM ε Unit) s u s') :
    Layout s' plan ∧ s'.db.config.checkpoints.writer.read = s'.writer.position ∧
      s'.db.config.chunkSize = s.db.config.chunkSize := by
  obtain ⟨hch, hcs, hdir, hpo, hwr, hw, hcp⟩ := runs_flushWriter_parts h
  have hspec := Checkpoint.flush_spec s.db.config.checkpoints.writer s.world.disk
  refine ⟨{ laid := ?_, sound := ?_, position := ?_, written := ?_, current := ?_ }, ?_, hcs⟩
  · rw [hcs, hdir, hch, hw]
    exact hl.laid.flush _
  · rw [hpo]
    exact hl.sound
  · rw [hwr, hcs, hch]
    exact hl.position
  · rw [hcp, hspec.2.1, hwr]
    exact hl.written
  · rw [hwr, hch]
    exact hl.current
  · rw [hcp, hspec.2.2, hwr]
    exact hl.written

end Store

/-- A record with the log position after it, as a reader returns it. -/
def Record.entry (r : Record) : Record × Int := (r, r.logPosition + r.framed.length)

namespace Store

variable {s s' : Store}

/-- Writing records one after another on a layout: the plan gains exactly the records built, in
order, each with the end its write returned, and none crosses the span of a chunk. -/
theorem runs_writeRecords {plan : List (List Record)} {makes : List (Int → Record)}
    {res : List (Int × Int)} (hl : Layout s plan) (hb : ∀ m ∈ makes, Builds m)
    (h : Runs (makes.mapM writeRecord) s res s') :
    s'.db.config.chunkSize = s.db.config.chunkSize ∧ ∃ plan', Layout s' plan' ∧
      plan'.flatten.map Record.entry =
        plan.flatten.map Record.entry ++ List.zipWith (fun m p => (m p.1, p.2)) makes res ∧
      ∀ p ∈ res, ∃ i : Nat, ((i * s.db.config.chunkSize : Nat) : Int) ≤ p.1 ∧
        p.2 ≤ (((i + 1) * s.db.config.chunkSize : Nat) : Int) := by
  -- one write at a time, each on the layout the previous one left
  induction makes generalizing s plan res with
  | nil =>
    rw [List.mapM_nil] at h
    obtain ⟨rfl, rfl⟩ := Runs.pure_inv h
    exact ⟨rfl, plan, hl, by simp, nofun⟩
  | cons m ms ih =>
    rw [List.mapM_cons] at h
    obtain ⟨⟨st, en⟩, s₁, h₁, h₂⟩ := h.bind_inv
    obtain ⟨rs, s₂, h₃, h₄⟩ := h₂.bind_inv
    obtain ⟨hres, hs₂⟩ := Runs.pure_inv h₄
    subst res s₂
    obtain ⟨hcs₁, plan₁, hl₁, hflat₁, hpos, hen, -, ⟨i, hi₁, hi₂⟩, -⟩ :=
      runs_writeRecord hl (hb m (List.mem_cons_self ..)) h₁
    obtain ⟨hcs₂, plan₂, hl₂, hflat₂, hspan⟩ :=
      ih hl₁ (fun m' hm' => hb m' (List.mem_cons_of_mem _ hm')) h₃
    refine ⟨hcs₂.trans hcs₁, plan₂, hl₂, ?_, fun p hp => ?_⟩
    · rw [hflat₂, hflat₁, List.map_append, List.zipWith_cons_cons]
      simp [Record.entry, hpos, hen]
    · rcases List.mem_cons.1 hp with rfl | hp
      · exact ⟨i, hi₁, hi₂⟩
      · rw [← hcs₁]
        exact hspan p hp

end Store

end EventStore
