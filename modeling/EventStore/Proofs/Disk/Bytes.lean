import EventStore.Disk

/-!
# A sparse file read byte by byte

A file keeps the runs of bytes written to it. `FileData.byteAt f i` is the byte at offset `i`:
that of the last run holding `i`, and zero where no run holds it. Reading a range gives the bytes
at its offsets (`FileData.byteOf_slice`), whatever the runs look like.

Writing keeps the runs ordered and apart (`FileData.Ordered`), merging the runs a write overlaps
or touches into one. On ordered runs a write changes exactly the bytes it covers
(`FileData.byteAt_write`), and cutting or growing a file keeps the bytes below its new length
(`FileData.byteAt_setSize`).
-/

namespace EventStore

namespace FileData

/-- The byte at offset `i` of a byte array, zero past its end. -/
def byteOf (b : ByteArray) (i : Nat) : UInt8 := b.data[i]?.getD 0

theorem byteOf_of_size_le {b : ByteArray} {i : Nat} (h : b.size ≤ i) : byteOf b i = 0 := by
  simp [byteOf, Array.getElem?_eq_none (show b.data.size ≤ i from h)]

theorem byteOf_zeros (n i : Nat) : byteOf (zeros n) i = 0 := by
  simp only [byteOf, zeros, Array.getElem?_replicate]
  split <;> rfl

@[simp] theorem size_zeros (n : Nat) : (zeros n).size = n := by
  simp [zeros, ByteArray.size]

/-- Copying `len` bytes of `src` from `so` into `dst` at `doff`, where `dst` reaches `doff` and
`src` holds the bytes: the copied range holds them and every other byte of `dst` stays. -/
theorem byteOf_copySlice {src dst : ByteArray} {so doff len : Nat} (exact : Bool)
    (hd : doff ≤ dst.size) (hs : so + len ≤ src.size) (j : Nat) :
    byteOf (src.copySlice so dst doff len exact) j =
      if doff ≤ j ∧ j < doff + len then byteOf src (so + (j - doff)) else byteOf dst j := by
  have hdata : (src.copySlice so dst doff len exact).data =
      dst.data.extract 0 doff ++ src.data.extract so (so + len) ++
        dst.data.extract (doff + min len (src.data.size - so)) dst.data.size := rfl
  have hmin : min len (src.data.size - so) = len := by
    simp only [ByteArray.size] at hs
    omega
  have hd' : doff ≤ dst.data.size := hd
  have hs' : so + len ≤ src.data.size := hs
  simp only [byteOf, hdata, hmin, Array.getElem?_append, Array.size_append, Array.size_extract,
    Array.getElem?_extract]
  by_cases h1 : j < doff
  · simp only [show j < min doff dst.data.size - 0 by omega,
      show j < min doff dst.data.size - 0 + (min (so + len) src.data.size - so) by omega,
      if_true, Nat.zero_add, show ¬ (doff ≤ j ∧ j < doff + len) by omega, if_false]
  · by_cases h2 : j < doff + len
    · simp only [show ¬ j < min doff dst.data.size - 0 by omega,
        show j < min doff dst.data.size - 0 + (min (so + len) src.data.size - so) by omega,
        if_true, if_false, show j - (min doff dst.data.size - 0) = j - doff by omega]
      rw [if_pos (by omega), if_pos ⟨by omega, h2⟩]
    · simp only [show ¬ j < min doff dst.data.size - 0 by omega,
        show ¬ j < min doff dst.data.size - 0 + (min (so + len) src.data.size - so) by omega,
        if_false, show ¬ (doff ≤ j ∧ j < doff + len) by omega]
      by_cases h3 : j < dst.data.size
      · rw [if_pos (by omega)]
        congr 2
        omega
      · rw [if_neg (by omega), Array.getElem?_eq_none (by omega)]

theorem size_copySlice {src dst : ByteArray} {so doff len : Nat} (exact : Bool)
    (hd : doff ≤ dst.size) (hs : so + len ≤ src.size) :
    (src.copySlice so dst doff len exact).size = max dst.size (doff + len) := by
  have hdata : (src.copySlice so dst doff len exact).data =
      dst.data.extract 0 doff ++ src.data.extract so (so + len) ++
        dst.data.extract (doff + min len (src.data.size - so)) dst.data.size := rfl
  have hd' : doff ≤ dst.data.size := hd
  have hs' : so + len ≤ src.data.size := hs
  show (src.copySlice so dst doff len exact).data.size = max dst.data.size (doff + len)
  simp only [hdata, Array.size_append, Array.size_extract]
  omega

/-- Two byte arrays of one size with the same bytes are equal. -/
theorem ext_byteOf {a b : ByteArray} (hs : a.size = b.size)
    (h : ∀ i < a.size, byteOf a i = byteOf b i) : a = b := by
  apply ByteArray.ext
  apply Array.ext hs
  intro i hia hib
  have := h i hia
  simp only [byteOf, Array.getElem?_eq_getElem hia, Array.getElem?_eq_getElem hib,
    Option.getD_some] at this
  exact this

/-- Whether a run holds offset `i`. -/
def Holds (r : Nat × ByteArray) (i : Nat) : Prop := r.1 ≤ i ∧ i < runEnd r

instance (r : Nat × ByteArray) (i : Nat) : Decidable (Holds r i) :=
  inferInstanceAs (Decidable (r.1 ≤ i ∧ i < runEnd r))

/-- The byte at `i` of the last of `runs` that holds it, or `b` where none does. -/
def runsByte (runs : List (Nat × ByteArray)) (i : Nat) (b : UInt8) : UInt8 :=
  runs.foldl (fun acc r => if Holds r i then byteOf r.2 (i - r.1) else acc) b

/-- The byte at offset `i` of the file. -/
def byteAt (f : FileData) (i : Nat) : UInt8 := runsByte f.runs i 0

theorem runsByte_nil (i : Nat) (b : UInt8) : runsByte [] i b = b := rfl

theorem runsByte_cons (r : Nat × ByteArray) (rs : List (Nat × ByteArray)) (i : Nat) (b : UInt8) :
    runsByte (r :: rs) i b = runsByte rs i (if Holds r i then byteOf r.2 (i - r.1) else b) := rfl

/-- Runs that do not hold an offset leave its byte as it was. -/
theorem runsByte_of_forall_not {runs : List (Nat × ByteArray)} {i : Nat} {b : UInt8}
    (h : ∀ r ∈ runs, ¬ Holds r i) : runsByte runs i b = b := by
  induction runs generalizing b with
  | nil => rfl
  | cons r rs ih =>
    rw [runsByte_cons, if_neg (h r (by simp)), ih fun s hs => h s (by simp [hs])]

/-- Runs kept in order of offset, each ending at or before the next begins. -/
def Apart (runs : List (Nat × ByteArray)) : Prop := runs.Pairwise fun r s => runEnd r ≤ s.1

/-- The file's runs are kept apart, in order of offset. -/
def Ordered (f : FileData) : Prop := Apart f.runs

/-- Of two runs kept apart, one ends before the other begins. -/
theorem Apart.sep {runs : List (Nat × ByteArray)} (h : Apart runs) {r s : Nat × ByteArray}
    (hr : r ∈ runs) (hs : s ∈ runs) (hne : r ≠ s) : runEnd r ≤ s.1 ∨ runEnd s ≤ r.1 := by
  induction runs with
  | nil => cases hr
  | cons a rs ih =>
    obtain ⟨ha, hrs⟩ := List.pairwise_cons.1 h
    rcases List.mem_cons.1 hr with hra | hr' <;> rcases List.mem_cons.1 hs with hsa | hs'
    · exact absurd (hra.trans hsa.symm) hne
    · exact .inl (hra ▸ ha s hs')
    · exact .inr (hsa ▸ ha r hr')
    · exact ih hrs hr' hs'

/-- On runs kept apart, the byte at an offset is that of the run holding it. -/
theorem runsByte_of_mem {runs : List (Nat × ByteArray)} (h : Apart runs) {r : Nat × ByteArray}
    (hr : r ∈ runs) {i : Nat} (hi : Holds r i) (b : UInt8) :
    runsByte runs i b = byteOf r.2 (i - r.1) := by
  induction runs generalizing b with
  | nil => cases hr
  | cons a rs ih =>
    obtain ⟨ha, hrs⟩ := List.pairwise_cons.1 h
    rw [runsByte_cons]
    rcases List.mem_cons.1 hr with rfl | hr
    · -- the runs after `r` begin at or after its end, so none holds `i`
      rw [if_pos hi]
      exact runsByte_of_forall_not fun s hs hsi => by
        have := ha s hs
        simp only [Holds] at hi hsi
        omega
    · exact ih hrs hr _

/-- Dropping runs that do not hold an offset leaves its byte. -/
theorem runsByte_filter {runs : List (Nat × ByteArray)} {p : Nat × ByteArray → Bool} {i : Nat}
    (h : ∀ r ∈ runs, p r = false → ¬ Holds r i) (b : UInt8) :
    runsByte (runs.filter p) i b = runsByte runs i b := by
  induction runs generalizing b with
  | nil => rfl
  | cons r rs ih =>
    have ih' := ih fun s hs => h s (by simp [hs])
    by_cases hp : p r = true
    · rw [List.filter_cons_of_pos hp, runsByte_cons, runsByte_cons, ih']
    · rw [List.filter_cons_of_neg hp, runsByte_cons, ih',
        if_neg (h r (by simp) (by simpa using hp))]

/-! ## Reading a range -/

/-- One run copied into a read's buffer, as `slice` does. -/
def sliceStep (off len : Nat) (acc : ByteArray) (r : Nat × ByteArray) : ByteArray :=
  let lo := max r.1 off
  let hi := min (r.1 + r.2.size) (off + len)
  if lo < hi then r.2.copySlice (lo - r.1) acc (lo - off) (hi - lo) else acc

theorem slice_eq_foldl (f : FileData) (off len : Nat) :
    f.slice off len = f.runs.foldl (sliceStep off len) (zeros len) := rfl

theorem sliceStep_spec (off len : Nat) {acc : ByteArray} (hacc : acc.size = len)
    (r : Nat × ByteArray) :
    (sliceStep off len acc r).size = len ∧ ∀ j < len,
      byteOf (sliceStep off len acc r) j =
        if Holds r (off + j) then byteOf r.2 (off + j - r.1) else byteOf acc j := by
  unfold sliceStep
  dsimp only
  split
  · rename_i hlt
    have hd : max r.1 off - off ≤ acc.size := by omega
    have hs : max r.1 off - r.1 + (min (r.1 + r.2.size) (off + len) - max r.1 off) ≤ r.2.size := by
      omega
    refine ⟨by rw [size_copySlice _ hd hs]; omega, fun j hj => ?_⟩
    rw [byteOf_copySlice _ hd hs]
    by_cases hh : Holds r (off + j)
    · rw [if_pos hh]
      simp only [Holds, runEnd] at hh
      rw [if_pos (by omega)]
      congr 1
      omega
    · rw [if_neg hh]
      simp only [Holds, runEnd] at hh
      rw [if_neg (by omega)]
  · rename_i hge
    refine ⟨hacc, fun j hj => ?_⟩
    rw [if_neg]
    simp only [Holds, runEnd]
    omega

/-- Reading `len` bytes at `off` gives the bytes of the file at those offsets. -/
theorem slice_spec (f : FileData) (off len : Nat) :
    (f.slice off len).size = len ∧ ∀ j < len, byteOf (f.slice off len) j = f.byteAt (off + j) := by
  rw [slice_eq_foldl]
  -- the buffer starts as zeros and each run copies the bytes it holds over it
  suffices h : ∀ (runs : List (Nat × ByteArray)) (acc : ByteArray), acc.size = len →
      (runs.foldl (sliceStep off len) acc).size = len ∧ ∀ j < len,
        byteOf (runs.foldl (sliceStep off len) acc) j = runsByte runs (off + j) (byteOf acc j) by
    obtain ⟨hs, hb⟩ := h f.runs (zeros len) (size_zeros len)
    exact ⟨hs, fun j hj => by rw [hb j hj, byteOf_zeros]; rfl⟩
  intro runs
  induction runs with
  | nil => exact fun acc hacc => ⟨hacc, fun _ _ => rfl⟩
  | cons r rs ih =>
    intro acc hacc
    obtain ⟨hs, hb⟩ := sliceStep_spec off len hacc r
    obtain ⟨hs', hb'⟩ := ih _ hs
    refine ⟨hs', fun j hj => ?_⟩
    rw [List.foldl_cons, hb' j hj, hb j hj, runsByte_cons]

theorem size_slice (f : FileData) (off len : Nat) : (f.slice off len).size = len :=
  (slice_spec f off len).1

theorem byteOf_slice (f : FileData) (off len : Nat) {j : Nat} (hj : j < len) :
    byteOf (f.slice off len) j = f.byteAt (off + j) :=
  (slice_spec f off len).2 j hj

/-! ## Writing -/

/-- Whether a write of `bs` at `off` overlaps or touches a run. -/
def Touches (off : Nat) (bs : ByteArray) (r : Nat × ByteArray) : Bool :=
  r.1 ≤ off + bs.size && off ≤ runEnd r

/-- `run` is what a write of `bs` at `off` makes of the runs `T` it touches: it spans `T` and the
write, from the write or one of `T` to the write or one of `T`, holds `bs` over the written range
and the bytes of `T` over the rest. -/
structure Merges (T : List (Nat × ByteArray)) (off : Nat) (bs : ByteArray)
    (run : Nat × ByteArray) : Prop where
  start_le : run.1 ≤ off
  le_stop : off + bs.size ≤ runEnd run
  spans : ∀ t ∈ T, run.1 ≤ t.1 ∧ runEnd t ≤ runEnd run
  start_eq : run.1 = off ∨ ∃ t ∈ T, run.1 = t.1
  stop_eq : runEnd run = off + bs.size ∨ ∃ t ∈ T, runEnd run = runEnd t
  bytes : ∀ i, run.1 ≤ i → i < runEnd run →
    byteOf run.2 (i - run.1) = if off ≤ i ∧ i < off + bs.size then byteOf bs (i - off)
      else runsByte T i 0

theorem foldl_min_spec (T : List (Nat × ByteArray)) (init : Nat) :
    T.foldl (fun m r => min m r.1) init ≤ init ∧
      (∀ t ∈ T, T.foldl (fun m r => min m r.1) init ≤ t.1) ∧
      (T.foldl (fun m r => min m r.1) init = init ∨
        ∃ t ∈ T, T.foldl (fun m r => min m r.1) init = t.1) := by
  induction T generalizing init with
  | nil => exact ⟨Nat.le_refl _, nofun, .inl rfl⟩
  | cons a rs ih =>
    obtain ⟨h1, h2, h3⟩ := ih (min init a.1)
    simp only [List.foldl_cons, List.mem_cons, forall_eq_or_imp, exists_eq_or_imp]
    refine ⟨by omega, ⟨by omega, h2⟩, ?_⟩
    rcases h3 with h | ⟨t, ht, h⟩
    · by_cases hm : init ≤ a.1
      · exact .inl (by omega)
      · exact .inr (.inl (by omega))
    · exact .inr (.inr ⟨t, ht, h⟩)

theorem foldl_max_spec (T : List (Nat × ByteArray)) (init : Nat) :
    init ≤ T.foldl (fun m r => max m (runEnd r)) init ∧
      (∀ t ∈ T, runEnd t ≤ T.foldl (fun m r => max m (runEnd r)) init) ∧
      (T.foldl (fun m r => max m (runEnd r)) init = init ∨
        ∃ t ∈ T, T.foldl (fun m r => max m (runEnd r)) init = runEnd t) := by
  induction T generalizing init with
  | nil => exact ⟨Nat.le_refl _, nofun, .inl rfl⟩
  | cons a rs ih =>
    obtain ⟨h1, h2, h3⟩ := ih (max init (runEnd a))
    simp only [List.foldl_cons, List.mem_cons, forall_eq_or_imp, exists_eq_or_imp]
    refine ⟨by omega, ⟨by omega, h2⟩, ?_⟩
    rcases h3 with h | ⟨t, ht, h⟩
    · by_cases hm : runEnd a ≤ init
      · exact .inl (by omega)
      · exact .inr (.inl (by omega))
    · exact .inr (.inr ⟨t, ht, h⟩)

/-- One run placed into a merge's buffer that begins at `start`, as `mergeRuns` does. -/
def mergeStep (start : Nat) (acc : ByteArray) (r : Nat × ByteArray) : ByteArray :=
  r.2.copySlice 0 acc (r.1 - start) r.2.size

/-- The buffer of a merge holds, at each offset, the byte the merged runs put there. -/
theorem mergeStep_foldl (start stop : Nat) (T : List (Nat × ByteArray))
    (hT : ∀ t ∈ T, start ≤ t.1 ∧ runEnd t ≤ stop) (acc : ByteArray) (hacc : acc.size = stop - start) :
    (T.foldl (mergeStep start) acc).size = stop - start ∧ ∀ j < stop - start,
      byteOf (T.foldl (mergeStep start) acc) j = runsByte T (start + j) (byteOf acc j) := by
  induction T generalizing acc with
  | nil => exact ⟨hacc, fun _ _ => rfl⟩
  | cons t rs ih =>
    obtain ⟨hts, hte⟩ := hT t (by simp)
    simp only [runEnd] at hte
    have hd : t.1 - start ≤ acc.size := by omega
    have hs : 0 + t.2.size ≤ t.2.size := by omega
    have hsize : (mergeStep start acc t).size = stop - start := by
      unfold mergeStep
      rw [size_copySlice _ hd hs]
      omega
    obtain ⟨h1, h2⟩ := ih (fun s hs => hT s (by simp [hs])) _ hsize
    refine ⟨h1, fun j hj => ?_⟩
    rw [List.foldl_cons, h2 j hj, runsByte_cons]
    congr 1
    unfold mergeStep
    rw [byteOf_copySlice _ hd hs]
    by_cases hh : Holds t (start + j)
    · rw [if_pos hh]
      simp only [Holds, runEnd] at hh
      rw [if_pos (by omega)]
      congr 1
      omega
    · rw [if_neg hh]
      simp only [Holds, runEnd] at hh
      rw [if_neg (by omega)]

theorem merges_mergeRuns (T : List (Nat × ByteArray)) (off : Nat) (bs : ByteArray) :
    Merges T off bs (mergeRuns T off bs) := by
  obtain ⟨hs1, hs2, hs3⟩ := foldl_min_spec T off
  obtain ⟨he1, he2, he3⟩ := foldl_max_spec T (off + bs.size)
  -- name the span's ends
  generalize hstart : T.foldl (fun m r => min m r.1) off = start at hs1 hs2 hs3
  generalize hstop : T.foldl (fun m r => max m (runEnd r)) (off + bs.size) = stop at he1 he2 he3
  have hspan : ∀ t ∈ T, start ≤ t.1 ∧ runEnd t ≤ stop := fun t ht => ⟨hs2 t ht, he2 t ht⟩
  obtain ⟨hb1, hb2⟩ := mergeStep_foldl start stop T hspan (zeros (stop - start)) (size_zeros _)
  have hmerge : mergeRuns T off bs = (start, bs.copySlice 0
      (T.foldl (mergeStep start) (zeros (stop - start))) (off - start) bs.size) := by
    rw [← hstart, ← hstop]
    rfl
  have hd : off - start ≤ (T.foldl (mergeStep start) (zeros (stop - start))).size := by
    rw [hb1]
    omega
  have hs : 0 + bs.size ≤ bs.size := by omega
  have hsz : (bs.copySlice 0 (T.foldl (mergeStep start) (zeros (stop - start))) (off - start)
      bs.size).size = stop - start := by
    rw [size_copySlice _ hd hs, hb1]
    omega
  have hend : runEnd (mergeRuns T off bs) = stop := by
    rw [hmerge, runEnd, hsz]
    omega
  rw [hmerge] at hend ⊢
  refine ⟨hs1, by rw [hend]; exact he1, fun t ht => ⟨hs2 t ht, by rw [hend]; exact he2 t ht⟩,
    hs3.imp_right id, by rw [hend]; exact he3, fun i hi1 hi2 => ?_⟩
  rw [hend] at hi2
  dsimp only at hi1 ⊢
  rw [byteOf_copySlice _ hd hs]
  by_cases hw : off ≤ i ∧ i < off + bs.size
  · rw [if_pos hw, if_pos (by omega)]
    congr 1
    omega
  · rw [if_neg hw, if_neg (by omega), hb2 (i - start) (by omega), byteOf_zeros,
      show start + (i - start) = i by omega]

/-- A write over one run that begins at or before it extends that run. -/
theorem merges_single {o off : Nat} {b bs : ByteArray} (ho : o ≤ off) (ht : off ≤ o + b.size) :
    Merges [(o, b)] off bs (o, bs.copySlice 0 b (off - o) bs.size false) := by
  have hd : off - o ≤ b.size := by omega
  have hs : 0 + bs.size ≤ bs.size := by omega
  have hend : runEnd (o, bs.copySlice 0 b (off - o) bs.size false) =
      max (o + b.size) (off + bs.size) := by
    simp only [runEnd]
    rw [size_copySlice _ hd hs]
    omega
  refine ⟨ho, by rw [hend]; omega, ?_, .inr ⟨(o, b), by simp, rfl⟩, ?_, fun i hi1 hi2 => ?_⟩
  · intro t ht'
    rw [List.mem_singleton.1 ht', hend]
    exact ⟨Nat.le_refl _, by simp only [runEnd]; omega⟩
  · rw [hend]
    by_cases hm : off + bs.size ≤ o + b.size
    · exact .inr ⟨(o, b), by simp, by simp only [runEnd]; omega⟩
    · exact .inl (by omega)
  · rw [hend] at hi2
    dsimp only at hi1 ⊢
    rw [byteOf_copySlice _ hd hs]
    by_cases hw : off ≤ i ∧ i < off + bs.size
    · rw [if_pos hw, if_pos (by omega)]
      congr 1
      omega
    · rw [if_neg hw, if_neg (by omega), runsByte_cons, runsByte_nil]
      by_cases hh : Holds (o, b) i
      · rw [if_pos hh]
      · rw [if_neg hh, byteOf_of_size_le]
        simp only [Holds, runEnd] at hh
        omega

/-- What a write does to the runs: the runs it touches become one run, placed among the others
in order of offset, and the file grows to hold the write. -/
theorem write_runs (f : FileData) (off : Nat) {bs : ByteArray} (h : bs.size ≠ 0) :
    ∃ run, Merges (f.runs.filter (Touches off bs)) off bs run ∧
      (f.write off bs).runs = insertRun run (f.runs.filter fun r => !Touches off bs r) ∧
      (f.write off bs).size = max f.size (off + bs.size) := by
  unfold write
  rw [if_neg h, List.partition_eq_filter_filter]
  dsimp only
  split
  · rename_i o b hT
    split
    · rename_i ho
      have hmem : (o, b) ∈ f.runs.filter (Touches off bs) := by
        show (o, b) ∈ f.runs.filter fun r => r.1 ≤ off + bs.size && off ≤ runEnd r
        rw [hT]
        simp
      have ht := (List.mem_filter.1 hmem).2
      simp only [Touches, runEnd, Bool.and_eq_true, decide_eq_true_eq] at ht
      have ht2 : off ≤ o + b.size := of_decide_eq_true ht.2
      refine ⟨_, ?_, rfl, rfl⟩
      show Merges (f.runs.filter fun r => r.1 ≤ off + bs.size && off ≤ runEnd r) off bs _
      rw [hT]
      exact merges_single ho ht2
    · exact ⟨_, merges_mergeRuns _ off bs, rfl, rfl⟩
  · exact ⟨_, merges_mergeRuns _ off bs, rfl, rfl⟩

theorem mem_insertRun {r x : Nat × ByteArray} {l : List (Nat × ByteArray)} :
    x ∈ insertRun r l ↔ x = r ∨ x ∈ l := by
  induction l with
  | nil => simp [insertRun]
  | cons s rest ih =>
    unfold insertRun
    split
    · simp
    · simp only [List.mem_cons, ih]
      exact or_left_comm

/-- A run apart from every run of an ordered list can be placed among them in order. -/
theorem apart_insertRun {r : Nat × ByteArray} {l : List (Nat × ByteArray)} (hl : Apart l)
    (hr : r.1 < runEnd r) (hsep : ∀ s ∈ l, runEnd s ≤ r.1 ∨ runEnd r ≤ s.1) :
    Apart (insertRun r l) := by
  induction l with
  | nil => exact List.pairwise_singleton _ r
  | cons s rest ih =>
    obtain ⟨hs, hrest⟩ := List.pairwise_cons.1 hl
    have hsr := hsep s (by simp)
    have hs1 : s.1 ≤ runEnd s := by simp [runEnd]
    unfold insertRun
    split
    · rename_i hlt
      refine List.pairwise_cons.2 ⟨fun x hx => ?_, hl⟩
      rcases List.mem_cons.1 hx with rfl | hx
      · omega
      · have := hs x hx
        have hx1 : x.1 ≤ runEnd x := by simp [runEnd]
        rcases hsep x (by simp [hx]) with h | h <;> omega
    · rename_i hge
      refine List.pairwise_cons.2 ⟨fun x hx => ?_, ih hrest fun x hx => hsep x (by simp [hx])⟩
      rcases mem_insertRun.1 hx with rfl | hx
      · omega
      · exact hs x hx

/-- The runs a write leaves alone end before the merged run or begin after it. -/
theorem Merges.sep {runs : List (Nat × ByteArray)} (hA : Apart runs) {off : Nat} {bs : ByteArray}
    {run : Nat × ByteArray} (hm : Merges (runs.filter (Touches off bs)) off bs run)
    {o : Nat × ByteArray} (ho : o ∈ runs) (hno : Touches off bs o = false) :
    runEnd o ≤ run.1 ∨ runEnd run ≤ o.1 := by
  simp only [Touches, Bool.and_eq_false_iff, decide_eq_false_iff_not, Nat.not_le] at hno
  have hne : ∀ t ∈ runs.filter (Touches off bs), t ≠ o := fun t ht hto => by
    have := (List.mem_filter.1 ht).2
    simp only [Touches, Bool.and_eq_true, decide_eq_true_eq] at this
    subst hto
    omega
  have ho1 : o.1 ≤ runEnd o := by simp [runEnd]
  rcases hno with hno | hno
  · -- the run begins after the write ends, so after the merged run too
    right
    rcases hm.stop_eq with h | ⟨t, ht, h⟩
    · omega
    · have htt := (List.mem_filter.1 ht).2
      simp only [Touches, Bool.and_eq_true, decide_eq_true_eq] at htt
      have ht1 : t.1 ≤ runEnd t := by simp [runEnd]
      rcases hA.sep (List.mem_filter.1 ht).1 ho (hne t ht) with h' | h' <;> omega
  · -- the run ends before the write begins, so before the merged run too
    left
    rcases hm.start_eq with h | ⟨t, ht, h⟩
    · omega
    · have htt := (List.mem_filter.1 ht).2
      simp only [Touches, Bool.and_eq_true, decide_eq_true_eq] at htt
      have ht1 : t.1 ≤ runEnd t := by simp [runEnd]
      rcases hA.sep (List.mem_filter.1 ht).1 ho (hne t ht) with h' | h' <;> omega

theorem ordered_and_runsByte_write {f : FileData} (hf : f.Ordered) (off : Nat) (bs : ByteArray) :
    (f.write off bs).Ordered ∧ ∀ i, (f.write off bs).byteAt i =
      if off ≤ i ∧ i < off + bs.size then byteOf bs (i - off) else f.byteAt i := by
  by_cases h0 : bs.size = 0
  · have hw : f.write off bs = f := by
      unfold write
      rw [if_pos h0]
    rw [hw]
    exact ⟨hf, fun i => by rw [if_neg (by omega)]⟩
  obtain ⟨run, hm, hruns, -⟩ := write_runs f off h0
  have hO : Apart (f.runs.filter fun r => !Touches off bs r) :=
    hf.sublist List.filter_sublist
  have hrun : run.1 < runEnd run := by
    have := hm.start_le
    have := hm.le_stop
    omega
  have hsep : ∀ s ∈ f.runs.filter (fun r => !Touches off bs r),
      runEnd s ≤ run.1 ∨ runEnd run ≤ s.1 := fun s hs => by
    obtain ⟨hs, hno⟩ := List.mem_filter.1 hs
    exact hm.sep hf hs (by simpa using hno)
  have hN : Apart (insertRun run (f.runs.filter fun r => !Touches off bs r)) :=
    apart_insertRun hO hrun hsep
  refine ⟨by unfold Ordered; rw [hruns]; exact hN, fun i => ?_⟩
  unfold byteAt
  rw [hruns]
  have hmemN : run ∈ insertRun run (f.runs.filter fun r => !Touches off bs r) :=
    mem_insertRun.2 (.inl rfl)
  by_cases hw : off ≤ i ∧ i < off + bs.size
  · -- the merged run holds the written bytes
    have hh : Holds run i := ⟨by have := hm.start_le; omega, by have := hm.le_stop; omega⟩
    rw [runsByte_of_mem hN hmemN hh, hm.bytes i hh.1 hh.2, if_pos hw, if_pos hw]
  rw [if_neg hw]
  by_cases hr : Holds run i
  · -- elsewhere in the merged run, the bytes of the runs it replaced
    have hT : runsByte (f.runs.filter (Touches off bs)) i 0 = runsByte f.runs i 0 :=
      runsByte_filter (fun o ho hno hoi => by
        rcases hm.sep hf ho hno with h | h <;> simp only [Holds] at hr hoi <;> omega) 0
    rw [runsByte_of_mem hN hmemN hr, hm.bytes i hr.1 hr.2, if_neg hw, hT]
  · by_cases hO' : ∃ o ∈ f.runs.filter (fun r => !Touches off bs r), Holds o i
    · obtain ⟨o, ho, hoi⟩ := hO'
      rw [runsByte_of_mem hN (mem_insertRun.2 (.inr ho)) hoi,
        runsByte_of_mem hf (List.mem_filter.1 ho).1 hoi]
    · -- no run holds `i`, before or after
      have hnew : ∀ r ∈ insertRun run (f.runs.filter fun r => !Touches off bs r), ¬ Holds r i :=
        fun r hr' hri => by
          rcases mem_insertRun.1 hr' with rfl | hr'
          · exact hr hri
          · exact hO' ⟨r, hr', hri⟩
      rw [runsByte_of_forall_not hnew, runsByte_of_forall_not]
      intro r hr' hri
      by_cases ht : Touches off bs r = true
      · obtain ⟨h1, h2⟩ := hm.spans r (List.mem_filter.2 ⟨hr', ht⟩)
        exact hr ⟨by have := hri.1; omega, by have := hri.2; omega⟩
      · exact hO' ⟨r, List.mem_filter.2 ⟨hr', by simpa using ht⟩, hri⟩

/-- Writing keeps a file's runs ordered. -/
theorem Ordered.write {f : FileData} (hf : f.Ordered) (off : Nat) (bs : ByteArray) :
    (f.write off bs).Ordered :=
  (ordered_and_runsByte_write hf off bs).1

/-- On ordered runs, a write changes exactly the bytes it covers. -/
theorem byteAt_write {f : FileData} (hf : f.Ordered) (off : Nat) (bs : ByteArray) (i : Nat) :
    (f.write off bs).byteAt i =
      if off ≤ i ∧ i < off + bs.size then byteOf bs (i - off) else f.byteAt i :=
  (ordered_and_runsByte_write hf off bs).2 i

theorem size_write (f : FileData) (off : Nat) (bs : ByteArray) :
    (f.write off bs).size = if bs.size = 0 then f.size else max f.size (off + bs.size) := by
  by_cases h0 : bs.size = 0
  · rw [if_pos h0]
    unfold write
    rw [if_pos h0]
  · rw [if_neg h0]
    exact (write_runs f off h0).choose_spec.2.2


/-! ## Cutting and growing -/

/-- The part of a run below `len`, as cutting a file to `len` bytes leaves it. -/
def cutRun (len : Nat) (r : Nat × ByteArray) : Nat × ByteArray :=
  if r.1 + r.2.size ≤ len then r else (r.1, r.2.extract 0 (len - r.1))

theorem setSize_runs (f : FileData) (len : Nat) :
    (f.setSize len).runs = (f.runs.filter (·.1 < len)).map (cutRun len) := rfl

@[simp] theorem size_setSize (f : FileData) (len : Nat) : (f.setSize len).size = len := rfl

theorem byteOf_extract_zero (b : ByteArray) (k j : Nat) :
    byteOf (b.extract 0 k) j = if j < k then byteOf b j else 0 := by
  simp only [byteOf, ByteArray.data_extract, Array.getElem?_extract, Nat.zero_add, Nat.sub_zero]
  by_cases hj : j < k
  · rw [if_pos hj]
    by_cases hb : j < b.data.size
    · rw [if_pos (by omega)]
    · rw [if_neg (by omega), Array.getElem?_eq_none (by omega)]
  · rw [if_neg hj, if_neg (by omega)]
    rfl

@[simp] theorem cutRun_fst (len : Nat) (r : Nat × ByteArray) : (cutRun len r).1 = r.1 := by
  unfold cutRun
  split <;> rfl

theorem runEnd_cutRun (len : Nat) (r : Nat × ByteArray) :
    runEnd (cutRun len r) = min (runEnd r) (max r.1 len) := by
  unfold cutRun
  split <;> simp only [runEnd, ByteArray.size_extract] <;> omega

/-- Below the cut, a cut run holds the offsets it held. -/
theorem holds_cutRun {len i : Nat} (hi : i < len) (r : Nat × ByteArray) :
    Holds (cutRun len r) i ↔ Holds r i := by
  have h := runEnd_cutRun len r
  simp only [Holds, cutRun_fst]
  omega

theorem byteOf_cutRun {len i : Nat} (hi : i < len) {r : Nat × ByteArray} (hr : r.1 ≤ i) :
    byteOf (cutRun len r).2 (i - (cutRun len r).1) = byteOf r.2 (i - r.1) := by
  unfold cutRun
  split
  · rfl
  · dsimp only
    rw [byteOf_extract_zero, if_pos (by omega)]

/-- Cutting a file to `len` bytes keeps the bytes below `len`; growing it reads as zeros. -/
theorem byteAt_setSize (f : FileData) (len i : Nat) :
    (f.setSize len).byteAt i = if i < len then f.byteAt i else 0 := by
  unfold byteAt
  rw [setSize_runs]
  by_cases hi : i < len
  · rw [if_pos hi]
    -- runs past the cut do not hold `i`, and the others hold it as before
    generalize (0 : UInt8) = b
    induction f.runs generalizing b with
    | nil => rfl
    | cons r rs ih =>
      by_cases hr : r.1 < len
      · rw [List.filter_cons_of_pos (by simpa using hr), List.map_cons, runsByte_cons,
          runsByte_cons, ih]
        by_cases hh : Holds r i
        · rw [if_pos ((holds_cutRun hi r).2 hh), if_pos hh, byteOf_cutRun hi hh.1]
        · rw [if_neg (mt (holds_cutRun hi r).1 hh), if_neg hh]
      · rw [List.filter_cons_of_neg (by simpa using hr), runsByte_cons, ih,
          if_neg (fun hh => hr (Nat.lt_of_le_of_lt hh.1 hi))]
  · rw [if_neg hi]
    refine runsByte_of_forall_not fun r hr hh => ?_
    obtain ⟨s, hs, rfl⟩ := List.mem_map.1 hr
    have hs1 : s.1 < len := by simpa using (List.mem_filter.1 hs).2
    have h := runEnd_cutRun len s
    have := hh.2
    omega

/-- Cutting or growing a file keeps its runs ordered. -/
theorem Ordered.setSize {f : FileData} (hf : f.Ordered) (len : Nat) : (f.setSize len).Ordered := by
  unfold Ordered Apart
  rw [setSize_runs, List.pairwise_map]
  refine (hf.filter _).imp fun {r s} hrs => ?_
  have h := runEnd_cutRun len r
  rw [cutRun_fst]
  omega

/-! ## Bytes as lists -/

theorem toList_loop (b : ByteArray) (i : Nat) (r : List UInt8) :
    ByteArray.toList.loop b i r = r.reverse ++ b.data.toList.drop i := by
  induction i, r using ByteArray.toList.loop.induct b with
  | case1 i r hlt ih =>
    rw [ByteArray.toList.loop, if_pos hlt, ih]
    have hi : i < b.data.toList.length := by simpa using hlt
    have hget : b.get! i = b.data.toList[i] := by
      simp only [ByteArray.get!, Array.getElem_toList]
      exact getElem!_pos b.data i (by simpa using hlt)
    rw [List.drop_eq_getElem_cons hi, hget]
    simp
  | case2 i r hge =>
    rw [ByteArray.toList.loop, if_neg hge]
    have : b.data.toList.length ≤ i := by simpa using hge
    simp [List.drop_eq_nil_of_le this]

theorem toList_eq_data (b : ByteArray) : b.toList = b.data.toList := by
  rw [ByteArray.toList, toList_loop]
  simp

/-- A byte array read as a list is the list holding its bytes. -/
theorem toList_eq_of_byteOf {b : ByteArray} {l : List UInt8} (hs : b.size = l.length)
    (h : ∀ i, i < l.length → byteOf b i = l[i]?.getD 0) : b.toList = l := by
  rw [toList_eq_data]
  refine List.ext_getElem (by simpa using hs) fun i h₁ h₂ => ?_
  have hi := h i h₂
  simp only [byteOf, List.getElem?_eq_getElem h₂, Option.getD_some] at hi
  rw [Array.getElem_toList, ← hi, Array.getElem?_eq_getElem (by simpa using h₁), Option.getD_some]

end FileData

/-! ## Files of a disk -/

namespace Disk

/-- Every file of the disk keeps its runs ordered. -/
def Ordered (d : Disk) : Prop := ∀ f, (d.file f).Ordered

theorem file_modifyFile (d : Disk) (f : Nat) (g : FileData → FileData) (f' : Nat) :
    (d.modifyFile f g).file f' =
      if f' = f ∧ f < d.files.size then g (d.file f) else d.file f' := by
  simp only [file, modifyFile, Array.getD_eq_getD_getElem?, Array.getElem?_modify]
  by_cases h : f = f'
  · subst h
    by_cases hf : f < d.files.size
    · rw [if_pos rfl, if_pos ⟨rfl, hf⟩, Array.getElem?_eq_getElem hf]
      rfl
    · rw [if_pos rfl, if_neg (fun h => hf h.2), Array.getElem?_eq_none (by omega)]
      rfl
  · rw [if_neg h, if_neg (fun h' => h h'.1.symm)]

@[simp] theorem size_files_modifyFile (d : Disk) (f : Nat) (g : FileData → FileData) :
    (d.modifyFile f g).files.size = d.files.size := Array.size_modify

/-- Changing a file in an ordered way keeps the disk ordered. -/
theorem Ordered.modifyFile {d : Disk} (hd : d.Ordered) {f : Nat} {g : FileData → FileData}
    (hg : ∀ x, x.Ordered → (g x).Ordered) : (d.modifyFile f g).Ordered := fun f' => by
  rw [file_modifyFile]
  split
  · exact hg _ (hd f)
  · exact hd f'

theorem Ordered.write {d : Disk} (hd : d.Ordered) (f off : Nat) (bs : ByteArray) :
    (d.write f off bs).Ordered :=
  hd.modifyFile fun _ hx => hx.write off bs

theorem Ordered.setSize {d : Disk} (hd : d.Ordered) (f len : Nat) : (d.setSize f len).Ordered :=
  hd.modifyFile fun _ hx => hx.setSize len

/-- A file read in full or in part gives the bytes at the offsets read. -/
theorem readExact_eq {d : Disk} {f off len : Nat} (h : off + len ≤ d.size f) :
    d.readExact f off len = .ok ((d.file f).slice off len) := by
  simp only [readExact]
  exact if_pos h

/-- A write to a file leaves every byte of the disk outside the written range. -/
theorem byteAt_write_outside {d : Disk} (hd : d.Ordered) {g off : Nat} {bs : ByteArray} {f i : Nat}
    (hi : f = g → i < off ∨ off + bs.size ≤ i) :
    ((d.write g off bs).file f).byteAt i = (d.file f).byteAt i := by
  unfold write
  rw [file_modifyFile]
  split
  · rename_i hfg
    obtain ⟨rfl, -⟩ := hfg
    rw [FileData.byteAt_write (hd f), if_neg (by have := hi rfl; omega)]
  · rfl

theorem size_le_size_write (d : Disk) (g off : Nat) (bs : ByteArray) (f : Nat) :
    d.size f ≤ (d.write g off bs).size f := by
  unfold write size
  rw [file_modifyFile]
  split
  · rename_i hfg
    obtain ⟨rfl, -⟩ := hfg
    rw [FileData.size_write]
    split <;> omega
  · exact Nat.le_refl _

/-- Cutting or growing a file leaves the bytes of the disk below the new length. -/
theorem byteAt_setSize_below {d : Disk} {g len f i : Nat} (hi : f = g → i < len) :
    ((d.setSize g len).file f).byteAt i = (d.file f).byteAt i := by
  unfold setSize
  rw [file_modifyFile]
  split
  · rename_i hfg
    obtain ⟨rfl, -⟩ := hfg
    rw [FileData.byteAt_setSize, if_pos (hi rfl)]
  · rfl

theorem size_setSize (d : Disk) (g len f : Nat) :
    (d.setSize g len).size f = if f = g ∧ g < d.files.size then len else d.size f := by
  unfold setSize size
  rw [file_modifyFile]
  split <;> rfl

@[simp] theorem size_files_write (d : Disk) (g off : Nat) (bs : ByteArray) :
    (d.write g off bs).files.size = d.files.size := size_files_modifyFile _ _ _

@[simp] theorem size_files_setSize (d : Disk) (g len : Nat) :
    (d.setSize g len).files.size = d.files.size := size_files_modifyFile _ _ _

@[simp] theorem names_write (d : Disk) (g off : Nat) (bs : ByteArray) :
    (d.write g off bs).names = d.names := rfl

@[simp] theorem names_setSize (d : Disk) (g len : Nat) : (d.setSize g len).names = d.names := rfl

/-- Creating a file adds an empty one after the others, under a name that was free. -/
theorem create_eq {d d' : Disk} {dir name : String} {f : Nat} (h : d.create dir name = .ok (d', f)) :
    d.find? dir name = none ∧ f = d.files.size ∧
      d' = { files := d.files.push {}, names := d.names ++ [(dir, name, d.files.size)] } := by
  unfold create at h
  split at h
  · cases h
  · rename_i hfree
    cases h
    exact ⟨by simpa using hfree, rfl, rfl⟩

/-- A new file reads as empty, as every file number past the last did before. -/
theorem file_push (d : Disk) (names : List (String × String × Nat)) (f : Nat) :
    ({ files := d.files.push {}, names } : Disk).file f = d.file f := by
  simp only [file, Array.getD_eq_getD_getElem?, Array.getElem?_push]
  split
  · rename_i hf
    rw [Array.getElem?_eq_none (by omega)]
    rfl
  · rfl

theorem Ordered.push {d : Disk} (hd : d.Ordered) (names : List (String × String × Nat)) :
    ({ files := d.files.push {}, names } : Disk).Ordered := fun f => by
  rw [file_push]
  exact hd f

theorem file_write_self {d : Disk} {f : Nat} (hf : f < d.files.size) (off : Nat) (bs : ByteArray) :
    (d.write f off bs).file f = (d.file f).write off bs := by
  unfold write
  rw [file_modifyFile, if_pos ⟨rfl, hf⟩]

theorem file_setSize_self {d : Disk} {f : Nat} (hf : f < d.files.size) (len : Nat) :
    (d.setSize f len).file f = (d.file f).setSize len := by
  unfold setSize
  rw [file_modifyFile, if_pos ⟨rfl, hf⟩]

/-- A name added after the others finds nothing under another name. -/
theorem find?_append_other {files : Array FileData} {names : List (String × String × Nat)}
    {dir dir' name name' : String} {f : Nat} (hold : (Disk.mk files names).find? dir name = none)
    (hne : name' ≠ name) :
    (Disk.mk files (names ++ [(dir', name', f)])).find? dir name = none := by
  unfold find? at hold ⊢
  rw [List.find?_append]
  simp only [Option.map_eq_none_iff] at hold ⊢
  rw [hold, Option.none_or, List.find?_singleton]
  simp [hne]

end Disk

end EventStore
