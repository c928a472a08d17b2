import EventStore.Proofs.Store.ReadBack

/-!
# Reading from where the writer stood

Each record the writer appends goes where the writer stands or, when it does not fit what is left
of the chunk, at the start of the next chunk, which leaves the rest of the old chunk unused. A read
started where the writer stood before a series of writes still finds exactly the records written:
a read at the end of a completed chunk's data goes on at the next chunk.

`After cs plan p rs` says that a read can start at position `p` of the log of `plan`, and that the
records from there on are `rs`: `p` lies after some records of a chunk, or at the start of a chunk.
The writer of a layout stands at such a place with nothing after it (`After.of_layout`). Empty
chunks added after the last (`After.pads`), and a record added after the last chunk's data at or
past `p` (`After.push`), keep the place. A scan from such a place returns the records after it
(`After.scans`), and, below a position that only later records reach, the records before them
(`After.scans_below`).

`Appended s plan s' plan' added` is what appending records does, as a reader sees it: every place
a read could start keeps, now with `added` after what followed it, and the added records stand
between the writer's old and new positions. It composes (`Appended.trans`); writing a record
(`Appended.writeRecord`) and flushing the writer checkpoint (`Appended.flushWriter`) are its steps.
-/

namespace EventStore

open Record

/-- A read can start at position `p` of the log of `plan`, and the records from there on are `rs`:
`p` lies after the records `pre` of chunk `i`, which the records `post` follow, or at the start of
chunk `i`, at most just past the last chunk. -/
def After (cs : Nat) (plan : List (List Record)) (p : Int) (rs : List Record) : Prop :=
  (∃ i pre post, plan[i]? = some (pre ++ post) ∧
    p = ((i * cs + (frames pre).length : Nat) : Int) ∧ post ++ (plan.drop (i + 1)).flatten = rs) ∨
  (∃ i, i ≤ plan.length ∧ p = ((i * cs : Nat) : Int) ∧ (plan.drop i).flatten = rs)

/-- A scan below a lower limit stops where the records reach it. -/
theorem Scans.cut {s : Store} {limit limit' p : Int} {es es' : List (Record × Int)}
    (h : Scans s limit p (es ++ es')) (hle : limit' ≤ limit)
    (hes : ∀ e ∈ es, e.1.logPosition < limit')
    (hes' : ∀ e ∈ es'.head?, limit' ≤ e.1.logPosition) : Scans s limit' p es := by
  induction es generalizing p with
  | nil =>
    -- the scan stops at once, or finds a record at or past the lower limit
    cases h with
    | last hr => exact .last hr
    | beyond hr hlim => exact .beyond hr (Int.le_trans hle hlim)
    | next hr _ _ => exact .beyond hr (hes' _ rfl)
  | cons e es ih =>
    cases h with
    | next hr _ hrest =>
      exact .next hr (hes _ (List.mem_cons_self ..))
        (ih hrest fun e' he' => hes e' (List.mem_cons_of_mem _ he'))

namespace After

variable {cs : Nat} {plan plan' : List (List Record)} {p : Int} {rs : List Record}

/-- The writer of a layout stands where a read can start, with nothing after it. -/
theorem of_layout {s : Store} (hl : Layout s plan) :
    After s.db.config.chunkSize plan s.writer.position [] := by
  rcases hl.position with hp | ⟨-, -, -, hp⟩
  · -- where the last chunk's data ends, or at the start of an empty log
    rcases List.eq_nil_or_concat plan with rfl | ⟨init, last, rfl⟩
    · exact .inr ⟨0, Nat.le_refl _, by rw [hp]; simp [planEnd], rfl⟩
    · refine .inl ⟨init.length, last, [], by simp, ?_, by simp⟩
      rw [hp, List.concat_eq_append, planEnd_concat]
  · -- past a completed last chunk
    exact .inr ⟨plan.length, Nat.le_refl _, hp, by simp⟩

/-- Empty chunks after the last change nothing a read finds. -/
theorem pads (h : After cs plan p rs) (hpads : Pads plan plan') : After cs plan' p rs := by
  obtain ⟨k, rfl⟩ := hpads
  rcases h with ⟨i, pre, post, hi, hp, hrs⟩ | ⟨i, hi, hp, hrs⟩
  · have hlt : i < plan.length := (List.getElem?_eq_some_iff.1 hi).1
    refine .inl ⟨i, pre, post, by rw [List.getElem?_append_left hlt, hi], hp, ?_⟩
    rw [List.drop_append_of_le_length hlt, List.flatten_append]
    simpa using hrs
  · refine .inr ⟨i, by simp only [List.length_append]; omega, hp, ?_⟩
    rw [List.drop_append_of_le_length hi, List.flatten_append]
    simpa using hrs

/-- A record added after the data of the last chunk, at or past `p`, is the last record after
`p`. The chunk must still hold it, so `p` cannot be past the chunk. -/
theorem push {init : List (List Record)} {last : List Record} {r : Record}
    (h : After cs (init ++ [last]) p rs)
    (hp : p ≤ ((init.length * cs + (frames last).length : Nat) : Int))
    (hroom : (frames (last ++ [r])).length ≤ cs) (hr : 0 < r.framed.length) :
    After cs (init ++ [last ++ [r]]) p (rs ++ [r]) := by
  rcases h with ⟨i, pre, post, hi, hpi, hrs⟩ | ⟨i, hi, hpi, hrs⟩
  · rcases Nat.lt_or_ge i init.length with hlt | hge
    · -- `p` lies in an earlier chunk: the record comes after the later chunks
      rw [List.getElem?_append_left hlt] at hi
      refine .inl ⟨i, pre, post, by rw [List.getElem?_append_left hlt, hi], hpi, ?_⟩
      rw [List.drop_append_of_le_length hlt, List.flatten_append] at hrs ⊢
      rw [← hrs]
      simp
    · -- `p` lies in the last chunk: the record comes after the records there
      have hi' : i = init.length := by
        have := (List.getElem?_eq_some_iff.1 hi).1
        simp only [List.length_append, List.length_singleton] at this
        omega
      subst hi'
      rw [List.getElem?_append_right (Nat.le_refl _), Nat.sub_self] at hi
      obtain rfl : last = pre ++ post := Option.some.inj hi
      refine .inl ⟨init.length, pre, post ++ [r], by simp, hpi, ?_⟩
      rw [← hrs]
      simp
  · rcases Nat.lt_or_ge init.length i with hlt | hge
    · -- past the last chunk the record would not fit in it
      have hi' : i = init.length + 1 := by
        simp only [List.length_append, List.length_singleton] at hi
        omega
      subst hi'
      rw [frames_append, frames_singleton, List.length_append] at hroom
      rw [hpi, Nat.succ_mul] at hp
      omega
    · refine .inr ⟨i, by simp only [List.length_append, List.length_singleton]; omega, hpi, ?_⟩
      rw [List.drop_append_of_le_length hge, List.flatten_append] at hrs ⊢
      rw [← hrs]
      simp

/-- The first record of the chunks from `i` on stands first in some chunk `j` from `i` on; the
records after it are the rest of that chunk and those of the later chunks. -/
theorem exists_first_of_flatten_drop {plan : List (List Record)} {i : Nat} {r : Record}
    {rs : List Record} (h : (plan.drop i).flatten = r :: rs) :
    ∃ j post, i ≤ j ∧ plan[j]? = some (r :: post) ∧ post ++ (plan.drop (j + 1)).flatten = rs := by
  induction plan generalizing i with
  | nil => simp at h
  | cons x xs ih =>
    cases i with
    | succ k =>
      obtain ⟨j, post, hj, hget, hrest⟩ := ih (by simpa using h)
      exact ⟨j + 1, post, by omega, by simpa using hget, by simpa using hrest⟩
    | zero =>
      rw [List.drop_zero, List.flatten_cons] at h
      cases x with
      | nil =>
        -- an empty first chunk: the record is in a later one
        obtain ⟨j, post, -, hget, hrest⟩ := ih (i := 0) (by simpa using h)
        exact ⟨j + 1, post, by omega, by simpa using hget, by simpa using hrest⟩
      | cons y ys =>
        obtain ⟨rfl, hrest⟩ := List.cons_eq_cons.1 h
        exact ⟨0, ys, Nat.le_refl _, rfl, by simpa using hrest⟩

/-- The first record after a place where a read can start stands in a chunk `j`, after the records
`pre` of that chunk, at or after the place; the records after it are the chunk's other records and
those of the later chunks. -/
theorem cons_inv {s : Store} {r : Record} (hl : Layout s plan)
    (h : After s.db.config.chunkSize plan p (r :: rs)) :
    ∃ j pre post, plan[j]? = some (pre ++ r :: post) ∧
      post ++ (plan.drop (j + 1)).flatten = rs ∧
      p ≤ ((j * s.db.config.chunkSize + (frames pre).length : Nat) : Int) := by
  rcases h with ⟨i, pre, post, hi, rfl, hrs⟩ | ⟨i, hi, rfl, hrs⟩
  · cases post with
    | cons r' post =>
      -- the record is the next one of the same chunk
      obtain ⟨rfl, hrest⟩ := List.cons_eq_cons.1 hrs
      exact ⟨i, pre, post, hi, hrest, Int.le_refl _⟩
    | nil =>
      -- the chunk's data ends at most a chunk size after its start, where the later chunks begin
      obtain ⟨j, post', hij, hj, hrest⟩ := exists_first_of_flatten_drop (by simpa using hrs)
      obtain ⟨hlt, hp⟩ := List.getElem?_eq_some_iff.1 hi
      have hh := hl.laid.holds i (hl.laid.length ▸ hlt) hlt
      rw [hp] at hh
      have hroom := hh.room
      rw [hh.dataSize, List.append_nil] at hroom
      have hmul : (i + 1) * s.db.config.chunkSize ≤ j * s.db.config.chunkSize :=
        Nat.mul_le_mul_right _ hij
      refine ⟨j, [], post', by simpa using hj, hrest, ?_⟩
      rw [Nat.succ_mul] at hmul
      simp only [frames_nil, List.length_nil, Nat.add_zero]
      exact Int.ofNat_le.2 (by omega)
  · obtain ⟨j, post', hij, hj, hrest⟩ := exists_first_of_flatten_drop hrs
    refine ⟨j, [], post', by simpa using hj, hrest, ?_⟩
    simp only [frames_nil, List.length_nil, Nat.add_zero]
    exact Int.ofNat_le.2 (Nat.mul_le_mul_right _ hij)

/-- Where the first record after a place ends, a read can start again, with the records after it;
the record stands at or after the place. -/
theorem next {s : Store} {r : Record} (hl : Layout s plan)
    (h : After s.db.config.chunkSize plan p (r :: rs)) :
    After s.db.config.chunkSize plan (r.logPosition + r.framed.length) rs ∧ p ≤ r.logPosition := by
  obtain ⟨j, pre, post, hj, hrs, hp⟩ := h.cons_inv hl
  obtain ⟨hlt, hget⟩ := List.getElem?_eq_some_iff.1 hj
  have hh := hl.laid.holds j (hl.laid.length ▸ hlt) hlt
  rw [hget] at hh
  obtain ⟨hat, -, -⟩ := hh.placed.split
  refine ⟨.inl ⟨j, pre ++ [r], post, by simpa using hj, ?_, hrs⟩, by rw [hat]; exact hp⟩
  rw [hat, frames_append, frames_singleton, List.length_append]
  push_cast
  omega

/-- A read from a place where a read can start finds the first record after it. -/
theorem returns_readForward {s : Store} (hl : Layout s plan)
    (hn : s.db.chunks.length < Nat.pow 2 32) (h : After s.db.config.chunkSize plan p rs) :
    Returns (Store.readForward p) s (rs.head?.map Record.entry) := by
  rcases h with ⟨i, pre, post, hi, rfl, rfl⟩ | ⟨i, hi, rfl, rfl⟩
  · exact hl.returns_readForward_at hn (List.getElem?_eq_some_iff.1 hi).1 hi
  · have hlen := hl.laid.length
    exact hl.returns_readForward (hl.returns_readForwardIn_chunkStart hn hi (by omega))

/-- A scan of a layout from a place where a read can start, below a limit at or past the end of
the log, returns the records after it. -/
theorem scans {s : Store} (hl : Layout s plan) (hn : s.db.chunks.length < Nat.pow 2 32)
    {limit : Int} (hlim : planEnd s.db.config.chunkSize plan ≤ limit)
    (h : After s.db.config.chunkSize plan p rs) : Scans s limit p (rs.map Record.entry) := by
  rcases h with ⟨i, pre, post, hi, rfl, rfl⟩ | ⟨i, hi, rfl, rfl⟩
  · have hlt : i < plan.length := (List.getElem?_eq_some_iff.1 hi).1
    exact hl.scans_within hn hlim hlt hi (hl.scans_chunkStart hn hlim hlt)
  · exact hl.scans_chunkStart hn hlim hi

/-- A scan from a place where a read can start, below a position that the records after it reach
only once the first of them, `mine`, are past, returns `mine`. -/
theorem scans_below {s : Store} {mine later : List Record} {q : Int} (hl : Layout s plan)
    (hn : s.db.chunks.length < Nat.pow 2 32) (h : After s.db.config.chunkSize plan p (mine ++ later))
    (hmine : ∀ r ∈ mine, r.logPosition < q) (hlater : ∀ r ∈ later, q ≤ r.logPosition) :
    Scans s q p (mine.map Record.entry) := by
  -- scan the whole log, below the writer or `q` if that is further, then cut at `q`
  have hlim : planEnd s.db.config.chunkSize plan ≤ max s.writer.position q :=
    Int.le_trans hl.planEnd_le_position (Int.le_max_left _ _)
  have hscan := h.scans hl hn hlim
  rw [List.map_append] at hscan
  refine hscan.cut (Int.le_max_right _ _) (fun e he => ?_) (fun e he => ?_)
  · obtain ⟨r, hr, rfl⟩ := List.mem_map.1 he
    exact hmine r hr
  · cases later with
    | nil => cases he
    | cons r rs =>
      obtain rfl : e = r.entry := (Option.some.inj he).symm
      exact hlater r (List.mem_cons_self ..)

end After

/-- What appending the records `added` did to a store, as a reader sees it: the layout went from
`plan` to `plan'`, every place at or before the writer where a read could start still can, with the
added records after what followed it, and the added records stand from where the writer stood to
where it stands now. The chunk size stays, and chunks are only added. -/
structure Appended (s : Store) (plan : List (List Record)) (s' : Store)
    (plan' : List (List Record)) (added : List Record) : Prop where
  layout : Layout s' plan'
  after : ∀ {p : Int} {rs : List Record}, After s.db.config.chunkSize plan p rs →
    p ≤ s.writer.position → After s.db.config.chunkSize plan' p (rs ++ added)
  between : ∀ r ∈ added, s.writer.position ≤ r.logPosition ∧ r.logPosition < s'.writer.position
  advances : s.writer.position ≤ s'.writer.position
  chunkSize : s'.db.config.chunkSize = s.db.config.chunkSize
  chunks : s.db.chunks.length ≤ s'.db.chunks.length

namespace Appended

variable {s s₁ s₂ : Store} {plan plan₁ plan₂ : List (List Record)} {added added₂ : List Record}

theorem refl (hl : Layout s plan) : Appended s plan s plan [] where
  layout := hl
  after h _ := by simpa using h
  between := nofun
  advances := Int.le_refl _
  chunkSize := rfl
  chunks := Nat.le_refl _

theorem trans (h₁ : Appended s plan s₁ plan₁ added) (h₂ : Appended s₁ plan₁ s₂ plan₂ added₂) :
    Appended s plan s₂ plan₂ (added ++ added₂) where
  layout := h₂.layout
  after ha hp := by
    have ha₁ := h₁.after ha hp
    rw [← h₁.chunkSize] at ha₁
    have ha₂ := h₂.after ha₁ (Int.le_trans hp h₁.advances)
    rwa [h₁.chunkSize, List.append_assoc] at ha₂
  between r hr := by
    rcases List.mem_append.1 hr with hr | hr
    · exact ⟨(h₁.between r hr).1, Int.lt_of_lt_of_le (h₁.between r hr).2 h₂.advances⟩
    · exact ⟨Int.le_trans h₁.advances (h₂.between r hr).1, (h₂.between r hr).2⟩
  advances := Int.le_trans h₁.advances h₂.advances
  chunkSize := h₂.chunkSize.trans h₁.chunkSize
  chunks := Nat.le_trans h₁.chunks h₂.chunks

/-- A record written on a layout is appended, where the writer stood or at the start of the next
chunk, and the writer ends after it. -/
theorem writeRecord {make : Int → Record} {st en : Int} (hl : Layout s plan) (hb : Builds make)
    (h : Runs (Store.writeRecord make) s (st, en) s₁) :
    ∃ plan₁, Appended s plan s₁ plan₁ [make st] ∧ (make st).logPosition = st ∧
      en = st + (make st).framed.length ∧ s₁.writer.position = en := by
  obtain ⟨hcs, plan₁, hl₁, -, hpos, hen, hwr, -, init, last, hpads, rfl, hst, hle⟩ :=
    Store.runs_writeRecord hl hb h
  -- the chunk the record went to holds it
  have hroom : (frames (last ++ [make st])).length ≤ s.db.config.chunkSize := by
    have hk : init.length < s₁.db.chunks.length := by
      rw [hl₁.laid.length]
      simp
    have hh := hl₁.laid.holds init.length hk (hl₁.laid.length ▸ hk)
    simp only [List.getElem_append_right (Nat.le_refl _), Nat.sub_self,
      List.getElem_singleton] at hh
    rw [← hh.dataSize, ← hcs]
    exact hh.room
  have hfr := length_framed (make st)
  have henc := length_encode_pos (make st)
  have hlen : s.db.chunks.length ≤ s₁.db.chunks.length := by
    rw [hl.laid.length, hl₁.laid.length]
    obtain ⟨k, hk⟩ := hpads
    have := congrArg List.length hk
    simp only [List.length_append, List.length_replicate, List.length_singleton] at this ⊢
    omega
  refine ⟨_, ⟨hl₁, fun {p _} ha hp => ?_, fun r hr => ?_, ?_, hcs, hlen⟩, hpos, hen, hwr⟩
  · have hp' : p ≤ ((init.length * s.db.config.chunkSize + (frames last).length : Nat) : Int) := by
      rw [← hst]
      exact Int.le_trans hp hle
    exact (ha.pads hpads).push hp' hroom (by omega)
  · obtain rfl := List.mem_singleton.1 hr
    rw [hpos, hwr, hen]
    omega
  · rw [hwr, hen]
    omega

/-- Flushing the writer checkpoint appends nothing and leaves the writer where it stands. -/
theorem flushWriter {ε : Type} {u : Unit} (hl : Layout s plan)
    (h : Runs (Store.flushWriter : StoreM ε Unit) s u s₁) :
    Appended s plan s₁ plan [] ∧ s₁.writer = s.writer := by
  obtain ⟨hl₁, -, hcs⟩ := Store.runs_flushWriter_layout hl h
  obtain ⟨hch, -, -, -, hwr, -⟩ := Store.runs_flushWriter_parts h
  exact ⟨⟨hl₁, fun ha _ => by simpa using ha, nofun, Int.le_of_eq (by rw [hwr]), hcs,
    Nat.le_of_eq (congrArg List.length hch.symm)⟩, hwr⟩

end Appended

end EventStore
