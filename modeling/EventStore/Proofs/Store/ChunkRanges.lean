import EventStore.Proofs.Store.Reads

/-!
# The chunk list keeps disjoint ranges

A database keeps its open chunks in a list ordered by the first chunk number each covers; a
scavenged chunk covers several numbers. Adding a chunk takes out every chunk whose range meets
its own and puts it in their place, by its first number; a truncation clears the list.

`ChunkList.Sound` is the list's representation invariant: every chunk's range is in order, and
each chunk ends before every later one starts, so the ranges are disjoint and the first numbers
increase (`Sound.disjoint`, `Sound.starts_lt`). The empty list is sound and an addition of a
chunk whose range is in order keeps it so (`Sound.add`), hence every sequence of additions and
clears does (`sound_replay`). On a sound list the lookup of a chunk number gives the one chunk
whose range holds it (`get?_eq_some_iff`), an addition hands back exactly the chunks whose ranges
meet the new one (`mem_add_fst_iff`), and the next chunk's number is the 32-bit number after the
largest end (`count_eq_nextChunk`), which is 0 past the last one.
-/

namespace EventStore

namespace ChunkHeader

/-- The range of chunk numbers a header names is in order. -/
def InOrder (h : ChunkHeader) : Prop := h.chunkStartNumber ≤ h.chunkEndNumber

/-- Two headers' ranges share a chunk number. -/
def Overlaps (h h' : ChunkHeader) : Prop := ∃ n, h.covers n = true ∧ h'.covers n = true

theorem covers_iff {h : ChunkHeader} {n : Nat} :
    h.covers n = true ↔ h.chunkStartNumber ≤ n ∧ n ≤ h.chunkEndNumber := by
  simp [covers]

/-- Ranges in order meet exactly when each starts no later than the other ends. -/
theorem overlaps_iff {h h' : ChunkHeader} (hh : h.InOrder) (hh' : h'.InOrder) :
    h.Overlaps h' ↔
      h.chunkStartNumber ≤ h'.chunkEndNumber ∧ h'.chunkStartNumber ≤ h.chunkEndNumber := by
  unfold InOrder at hh hh'
  constructor
  · rintro ⟨n, hn, hn'⟩
    rw [covers_iff] at hn hn'
    omega
  · rintro ⟨h₁, h₂⟩
    -- the later of the two starts lies in both ranges
    refine ⟨max h.chunkStartNumber h'.chunkStartNumber, covers_iff.2 ⟨?_, ?_⟩, covers_iff.2 ⟨?_, ?_⟩⟩
      <;> omega

end ChunkHeader

namespace ChunkList

/-- Chunk `c` ends before chunk `d` starts. -/
def Before (c d : Chunk) : Prop := c.header.chunkEndNumber < d.header.chunkStartNumber

/-- The representation invariant of the chunk list: every chunk's range is in order, and each
chunk ends before every later chunk starts. -/
structure Sound (cs : List Chunk) : Prop where
  inOrder : ∀ c ∈ cs, c.header.InOrder
  before : cs.Pairwise Before

theorem sound_nil : Sound [] := ⟨fun _ h => (List.not_mem_nil h).elim, List.Pairwise.nil⟩

variable {cs : List Chunk} {c d : Chunk} {n : Nat}

/-- The chunks of a sound list have pairwise disjoint ranges. -/
theorem Sound.disjoint (h : Sound cs) : cs.Pairwise fun c d => ¬ c.header.Overlaps d.header := by
  refine (List.pairwise_iff_forall_sublist.2 fun {c d} hcd => ?_)
  have hb : Before c d := List.pairwise_iff_forall_sublist.1 h.before hcd
  have hc := h.inOrder c (hcd.subset (by simp))
  have hd := h.inOrder d (hcd.subset (by simp))
  rw [ChunkHeader.overlaps_iff hc hd]
  unfold Before at hb
  omega

/-- The chunks of a sound list are ordered by their first numbers, each standing under its own. -/
theorem Sound.starts_lt (h : Sound cs) :
    cs.Pairwise fun c d => c.header.chunkStartNumber < d.header.chunkStartNumber := by
  refine (List.pairwise_iff_forall_sublist.2 fun {c d} hcd => ?_)
  have hb : Before c d := List.pairwise_iff_forall_sublist.1 h.before hcd
  have hc := h.inOrder c (hcd.subset (by simp))
  unfold Before at hb
  unfold ChunkHeader.InOrder at hc
  omega

/-! ## Lookup -/

/-- In a sound list, the lookup of a chunk number gives the chunk whose range holds it. -/
theorem get?_eq_some_iff (h : Sound cs) : get? cs n = some c ↔ c ∈ cs ∧ c.header.covers n = true := by
  constructor
  · intro hg
    exact ⟨(get?_spec hg).1, (Option.filter_eq_some_iff.1 hg).2⟩
  · rintro ⟨hc, hcov⟩
    obtain ⟨l₁, l₂, rfl⟩ := List.append_of_mem hc
    -- every later chunk starts past `c`'s end, so past `n`: `c` is the last one starting at or
    -- before `n`
    have hlater : ∀ d ∈ l₂, n < d.header.chunkStartNumber := fun d hd => by
      have hb : Before c d := (List.pairwise_cons.1 (List.pairwise_append.1 h.before).2.1).1 d hd
      have := (ChunkHeader.covers_iff.1 hcov).2
      unfold Before at hb
      omega
    have hnone : l₂.filter (fun d => decide (d.header.chunkStartNumber ≤ n)) = [] :=
      List.filter_eq_nil_iff.2 fun d hd => by simpa using hlater d hd
    unfold get?
    rw [List.filter_append, List.filter_cons_of_pos (by simpa using (ChunkHeader.covers_iff.1 hcov).1),
      hnone, ← List.singleton_append, List.append_nil, List.getLast?_append, List.getLast?_singleton]
    simpa [Option.filter] using hcov

/-- In a sound list, the lookup of a chunk number finds nothing exactly when no range holds it. -/
theorem get?_eq_none_iff (h : Sound cs) : get? cs n = none ↔ ∀ c ∈ cs, c.header.covers n = false := by
  constructor
  · intro hg c hc
    cases hcov : c.header.covers n with
    | false => rfl
    | true =>
      rw [(get?_eq_some_iff h).2 ⟨hc, hcov⟩] at hg
      cases hg
  · intro hall
    cases hg : get? cs n with
    | none => rfl
    | some c =>
      obtain ⟨hc, hcov⟩ := (get?_eq_some_iff h).1 hg
      rw [hall c hc] at hcov
      cases hcov

/-! ## Adding a chunk -/

/-- The chunks an addition hands back are the held chunks whose ranges meet the new one. -/
theorem mem_add_fst_iff (hc : c.header.InOrder) (hcs : ∀ d ∈ cs, d.header.InOrder) :
    d ∈ (add cs c).1 ↔ d ∈ cs ∧ d.header.Overlaps c.header := by
  unfold add
  simp only [List.mem_filter, Bool.and_eq_true, decide_eq_true_eq]
  constructor
  · rintro ⟨hd, hov⟩
    exact ⟨hd, (ChunkHeader.overlaps_iff (hcs d hd) hc).2 hov⟩
  · rintro ⟨hd, hov⟩
    exact ⟨hd, (ChunkHeader.overlaps_iff (hcs d hd) hc).1 hov⟩

/-- An addition puts the new chunk after the held chunks that end before it starts and before the
held chunks that start after it ends; the others are handed back. -/
theorem add_snd_eq (hc : c.header.InOrder) (hcs : ∀ d ∈ cs, d.header.InOrder) :
    (add cs c).2 = cs.filter (fun d => d.header.chunkEndNumber < c.header.chunkStartNumber) ++
      c :: cs.filter (fun d => c.header.chunkEndNumber < d.header.chunkStartNumber) := by
  unfold add
  dsimp only
  rw [List.filter_filter, List.filter_filter, List.append_assoc, List.singleton_append]
  -- a kept chunk that starts before the new one ends before it, one that starts after it starts
  -- past its end
  congr 1
  · refine List.filter_congr fun d hd => ?_
    have := hcs d hd
    unfold ChunkHeader.InOrder at this hc
    rw [Bool.eq_iff_iff]
    simp only [Bool.and_eq_true, Bool.not_eq_true', Bool.and_eq_false_iff, decide_eq_true_eq,
      decide_eq_false_iff_not]
    omega
  · refine congrArg (c :: ·) (List.filter_congr fun d hd => ?_)
    have := hcs d hd
    unfold ChunkHeader.InOrder at this hc
    rw [Bool.eq_iff_iff]
    simp only [Bool.and_eq_true, Bool.not_eq_true', Bool.and_eq_false_iff, decide_eq_true_eq,
      decide_eq_false_iff_not]
    omega

/-- Adding a chunk whose range is in order keeps the chunk list sound. -/
theorem Sound.add (h : Sound cs) (hc : c.header.InOrder) : Sound (add cs c).2 := by
  rw [add_snd_eq hc h.inOrder]
  refine ⟨fun d hd => ?_, ?_⟩
  · simp only [List.mem_append, List.mem_cons, List.mem_filter] at hd
    rcases hd with ⟨hd, -⟩ | rfl | ⟨hd, -⟩
    · exact h.inOrder d hd
    · exact hc
    · exact h.inOrder d hd
  -- the chunks before the new one end before it starts, and it ends before those after it start
  refine List.pairwise_append.2 ⟨h.before.sublist List.filter_sublist,
    List.pairwise_cons.2 ⟨fun e he => ?_, h.before.sublist List.filter_sublist⟩, fun d hd e he => ?_⟩
  · simpa [Before] using (List.mem_filter.1 he).2
  · have hd' : d.header.chunkEndNumber < c.header.chunkStartNumber := by
      simpa using (List.mem_filter.1 hd).2
    rcases List.mem_cons.1 he with rfl | he
    · exact hd'
    · have he' : c.header.chunkEndNumber < e.header.chunkStartNumber := by
        simpa using (List.mem_filter.1 he).2
      unfold Before
      unfold ChunkHeader.InOrder at hc
      omega

/-! ## The next chunk number -/

/-- In a sound list that holds chunks, the next chunk's number is the 32-bit number after the
largest end. -/
theorem count_eq_nextChunk (h : Sound cs) (hne : cs ≠ []) :
    ∃ c ∈ cs, (∀ d ∈ cs, d.header.chunkEndNumber ≤ c.header.chunkEndNumber) ∧
      count cs = Word.nextChunk c.header.chunkEndNumber := by
  obtain ⟨l, c, rfl⟩ := (List.eq_nil_or_concat cs).resolve_left hne
  rw [List.concat_eq_append] at h ⊢
  refine ⟨c, by simp, fun d hd => ?_, by simp [count]⟩
  rcases List.mem_append.1 hd with hd | hd
  · -- an earlier chunk ends before the last one starts
    have hb : Before d c := (List.pairwise_append.1 h.before).2.2 d hd c (by simp)
    have hc := h.inOrder c (by simp)
    unfold Before at hb
    unfold ChunkHeader.InOrder at hc
    omega
  · obtain rfl := List.mem_singleton.1 hd
    exact Nat.le_refl _

/-! ## Runs of additions and clears -/

/-- A change of the chunk list: adding a chunk whose range is in order, or clearing the list. -/
inductive Change where
  | add (c : Chunk) (h : c.header.InOrder)
  | clear

/-- The chunk list after a change. -/
def Change.apply : Change → List Chunk → List Chunk
  | .add c _, cs => (ChunkList.add cs c).2
  | .clear, _ => []

/-- The chunk list after a sequence of changes. -/
def replay (cs : List Chunk) (changes : List Change) : List Chunk :=
  changes.foldl (fun cs ch => ch.apply cs) cs

/-- Every change keeps the chunk list sound. -/
theorem Sound.apply (h : Sound cs) (ch : Change) : Sound (ch.apply cs) := by
  cases ch with
  | add c hc => exact h.add hc
  | clear => exact sound_nil

/-- Every sequence of changes keeps the chunk list sound. -/
theorem sound_replay (h : Sound cs) (changes : List Change) : Sound (replay cs changes) := by
  induction changes generalizing cs with
  | nil => exact h
  | cons ch changes ih => exact ih (h.apply ch)

/-- After every sequence of additions of chunks whose ranges are in order and of clears, starting
from no chunks: the chunks held have pairwise disjoint ranges and increasing first numbers; an
addition hands back exactly the held chunks whose ranges meet the new one; the lookup of a chunk
number gives the held chunk whose range holds it, and nothing when no range does; and the next
chunk's number is 0 with no chunks, else the 32-bit number after the largest end held. -/
theorem chunk_list_keeps_disjoint_ranges (changes : List Change) :
    let cs := replay [] changes
    cs.Pairwise (fun c d => ¬ c.header.Overlaps d.header) ∧
    cs.Pairwise (fun c d => c.header.chunkStartNumber < d.header.chunkStartNumber) ∧
    (∀ c, c.header.InOrder → ∀ d, d ∈ (add cs c).1 ↔ d ∈ cs ∧ d.header.Overlaps c.header) ∧
    (∀ n c, get? cs n = some c ↔ c ∈ cs ∧ c.header.covers n = true) ∧
    (∀ n, get? cs n = none ↔ ∀ c ∈ cs, c.header.covers n = false) ∧
    (cs = [] ∧ count cs = 0 ∨
      ∃ c ∈ cs, (∀ d ∈ cs, d.header.chunkEndNumber ≤ c.header.chunkEndNumber) ∧
        count cs = Word.nextChunk c.header.chunkEndNumber) := by
  intro cs
  have h : Sound cs := sound_replay sound_nil changes
  refine ⟨h.disjoint, h.starts_lt, fun c hc d => mem_add_fst_iff hc h.inOrder,
    fun n c => get?_eq_some_iff h, fun n => get?_eq_none_iff h, ?_⟩
  by_cases hne : cs = []
  · exact .inl ⟨hne, by rw [hne]; rfl⟩
  · exact .inr (count_eq_nextChunk h hne)

end ChunkList

end EventStore
