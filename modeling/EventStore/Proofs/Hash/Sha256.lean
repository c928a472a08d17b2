import EventStore.Hash.Sha256
import Mathlib.Data.List.Basic

/-!
# SHA-256 fed in pieces

A `Sha256` value that has taken in the bytes `msg` holds what the digest of `msg` needs and
nothing else (`Sha256.Absorbed`): the chaining words after the whole blocks of `msg`, the bytes of
its last, unfinished block, and its length. Feeding more bytes keeps that (`Absorbed.update`), and
two values that took in the same bytes are equal (`Absorbed.eq`), so feeding bytes in pieces gives
the same value, and so the same digest, as feeding them at once (`update_update`). Every digest is
32 bytes long (`Absorbed.size_finish`).

What makes the pieces fit is that compressing a block reads the 64 bytes at its offset and nothing
else (`compress_congr`): one feed reads a block from its buffer of pending bytes, another from the
middle of the bytes fed.
-/

namespace EventStore

namespace Sha256

/-! ### Bytes, zero past the end -/

section Bytes

theorem getElem?_data (bs : ByteArray) (i : Nat) : bs[i]? = bs.data[i]? := by
  by_cases h : i < bs.size
  · rw [getElem?_pos bs i h, Array.getElem?_eq_getElem (by simpa using h),
      ByteArray.getElem_eq_getElem_data]
  · rw [getElem?_neg bs i h, Array.getElem?_eq_none (by simpa using Nat.le_of_not_lt h)]

theorem getD_append (a b : ByteArray) (i : Nat) :
    (a ++ b)[i]?.getD 0 = if i < a.size then a[i]?.getD 0 else b[i - a.size]?.getD 0 := by
  rw [getElem?_data, ByteArray.data_append, Array.getElem?_append, getElem?_data, getElem?_data]
  by_cases h : i < a.size
  · rw [if_pos h, if_pos (show i < a.data.size from h)]
  · rw [if_neg h, if_neg (show ¬i < a.data.size from h)]
    rfl

theorem getD_extract (a : ByteArray) (s e j : Nat) :
    (a.extract s e)[j]?.getD 0 = if s + j < e then a[s + j]?.getD 0 else 0 := by
  rw [getElem?_data, ByteArray.data_extract, Array.getElem?_extract, getElem?_data]
  by_cases hj : s + j < e
  · rw [if_pos hj]
    by_cases hs : s + j < a.data.size
    · rw [if_pos (by omega)]
    · rw [if_neg (by omega), Array.getElem?_eq_none (by omega)]
  · rw [if_neg hj, if_neg (by omega)]
    rfl

theorem ext_getD {a b : ByteArray} (hs : a.size = b.size)
    (h : ∀ i < a.size, a[i]?.getD 0 = b[i]?.getD 0) : a = b := by
  refine ByteArray.ext_getElem hs fun i hi hi' => ?_
  have := h i hi
  rwa [getElem?_pos a i hi, getElem?_pos b i hi', Option.getD_some, Option.getD_some] at this

/-- `len` bytes of `X` from `off` are those of `Y` from `off'`, reading zero past the ends. -/
def SameBytes (X : ByteArray) (off : Nat) (Y : ByteArray) (off' len : Nat) : Prop :=
  ∀ j < len, X[off + j]?.getD 0 = Y[off' + j]?.getD 0

theorem SameBytes.shift {X Y : ByteArray} {off off' len : Nat} (k : Nat)
    (h : SameBytes X off Y off' (k + len)) : SameBytes X (off + k) Y (off' + k) len := by
  intro j hj
  have := h (k + j) (by omega)
  rwa [← Nat.add_assoc, ← Nat.add_assoc] at this

theorem SameBytes.mono {X Y : ByteArray} {off off' len : Nat} {len' : Nat} (hle : len' ≤ len)
    (h : SameBytes X off Y off' len) : SameBytes X off Y off' len' :=
  fun j hj => h j (by omega)

end Bytes

/-! ### A block is read from its 64 bytes -/

theorem wordAt_congr {bs bs' : ByteArray} {off off' : Nat} (h : SameBytes bs off bs' off' 4) :
    wordAt bs off = wordAt bs' off' := by
  unfold wordAt
  dsimp only
  rw [h 0 (by decide), h 1 (by decide), h 2 (by decide), h 3 (by decide)]

theorem schedule_congr {bs bs' : ByteArray} {off off' : Nat} (h : SameBytes bs off bs' off' 64) :
    schedule bs off = schedule bs' off' := by
  simp only [schedule, Std.Legacy.Range.forIn_eq_forIn_range', List.forIn_pure_yield_eq_foldl,
    Id.run]
  rw [List.foldl_ext (fun (w : Array UInt32) (i : Nat) => w.push (wordAt bs (off + 4 * i)))
    (fun (w : Array UInt32) (i : Nat) => w.push (wordAt bs' (off' + 4 * i))) _ fun w i hi => ?_]
  -- the sixteen input words lie within the block
  have hi : i < 16 := by simpa [List.mem_range'] using hi
  exact congrArg w.push (wordAt_congr ((h.mono (show 4 * i + 4 ≤ 64 by omega)).shift (4 * i)))

theorem compress_congr {bs bs' : ByteArray} {off off' : Nat} (h : SameBytes bs off bs' off' 64)
    (words : Array UInt32) : compress words bs off = compress words bs' off' := by
  unfold compress
  rw [schedule_congr h]

@[simp] theorem size_compress (words : Array UInt32) (bs : ByteArray) (off : Nat) :
    (compress words bs off).size = 8 := rfl

theorem compressBlocks_add (words : Array UInt32) (bs : ByteArray) (off k l : Nat) :
    compressBlocks words bs off (k + l) =
      compressBlocks (compressBlocks words bs off k) bs (off + 64 * k) l := by
  induction k generalizing words off with
  | zero =>
    rw [Nat.zero_add, Nat.mul_zero, Nat.add_zero]
    rfl
  | succ k ih =>
    rw [Nat.succ_add, compressBlocks, compressBlocks, ih]
    congr 1
    omega

theorem compressBlocks_succ (words : Array UInt32) (bs : ByteArray) (off k : Nat) :
    compressBlocks words bs off (k + 1) =
      compress (compressBlocks words bs off k) bs (off + 64 * k) := by
  rw [compressBlocks_add]
  rfl

theorem compressBlocks_congr {bs bs' : ByteArray} {off off' k : Nat}
    (h : SameBytes bs off bs' off' (64 * k)) (words : Array UInt32) :
    compressBlocks words bs off k = compressBlocks words bs' off' k := by
  induction k generalizing words off off' with
  | zero => rfl
  | succ k ih =>
    have h' : SameBytes bs off bs' off' (64 + 64 * k) := by
      simpa [Nat.mul_succ, Nat.add_comm] using h
    rw [compressBlocks, compressBlocks, compress_congr (h'.mono (by omega)), ih (h'.shift 64)]

theorem size_compressBlocks {words : Array UInt32} (hw : words.size = 8) (bs : ByteArray)
    (off k : Nat) : (compressBlocks words bs off k).size = 8 := by
  cases k with
  | zero => exact hw
  | succ k => rw [compressBlocks_succ, size_compress]

/-! ### What a digest in progress holds -/

/-- `s` has taken in the bytes `msg`: its chaining words are those after the whole blocks of
`msg`, its pending bytes are the rest of `msg`, and its length is that of `msg`. -/
structure Absorbed (s : Sha256) (msg : ByteArray) : Prop where
  words : s.words = compressBlocks initialWords msg 0 (msg.size / 64)
  pending : s.pending = msg.extract (64 * (msg.size / 64)) msg.size
  length : s.length = msg.size

theorem absorbed_empty : Absorbed {} ByteArray.empty :=
  ⟨rfl, by simp, rfl⟩

theorem Absorbed.size_pending {s : Sha256} {msg : ByteArray} (hs : Absorbed s msg) :
    s.pending.size = msg.size % 64 := by
  rw [hs.pending, ByteArray.size_extract]
  omega

/-- Two digests in progress that took in the same bytes are the same. -/
theorem Absorbed.eq {s s' : Sha256} {msg : ByteArray} (hs : Absorbed s msg)
    (hs' : Absorbed s' msg) : s = s' := by
  obtain ⟨w, p, l⟩ := s
  obtain ⟨w', p', l'⟩ := s'
  obtain ⟨hw, hp, hl⟩ := hs
  obtain ⟨hw', hp', hl'⟩ := hs'
  simp only at hw hp hl hw' hp' hl'
  rw [hw, hp, hl, hw', hp', hl']

/-- The bytes of `msg ++ bs` before the end of `msg` are those of `msg`. -/
theorem sameBytes_append_left (msg bs : ByteArray) {n : Nat} (hn : n ≤ msg.size) :
    SameBytes msg 0 (msg ++ bs) 0 n := by
  intro j hj
  rw [getD_append, if_pos (by omega)]

/-- The pending bytes are the bytes of the message after its whole blocks. -/
theorem Absorbed.getD_pending {s : Sha256} {msg : ByteArray} (hs : Absorbed s msg)
    (bs : ByteArray) {j : Nat} (hj : j < s.pending.size) :
    s.pending[j]?.getD 0 = (msg ++ bs)[64 * (msg.size / 64) + j]?.getD 0 := by
  have hp := hs.size_pending
  rw [hs.pending, getD_extract, if_pos (by omega), getD_append, if_pos (by omega)]

/-- Bytes that complete no block join the pending ones. -/
theorem Absorbed.append_pending {s : Sha256} {msg bs : ByteArray} (hs : Absorbed s msg)
    (hfew : bs.size < 64 - s.pending.size) :
    Absorbed { s with pending := s.pending ++ bs, length := s.length + bs.size } (msg ++ bs) := by
  have hp := hs.size_pending
  have hsize : (msg ++ bs).size = msg.size + bs.size := ByteArray.size_append
  have hq : (msg ++ bs).size / 64 = msg.size / 64 := by omega
  refine ⟨?_, ?_, ?_⟩
  · show s.words = _
    rw [hs.words, hq]
    exact compressBlocks_congr (sameBytes_append_left msg bs (by omega)) _
  · show s.pending ++ bs = _
    rw [hq]
    refine ext_getD (by simp only [ByteArray.size_append, ByteArray.size_extract]; omega)
      fun i hi => ?_
    have hin : 64 * (msg.size / 64) + i < (msg ++ bs).size := by
      simp only [ByteArray.size_append] at hi ⊢
      omega
    rw [getD_append, getD_extract, if_pos hin]
    by_cases hi' : i < s.pending.size
    · rw [if_pos hi', hs.getD_pending bs hi']
    · rw [if_neg hi', getD_append, if_neg (by omega)]
      congr 2
      omega
  · show s.length + bs.size = _
    rw [hs.length, hsize]

/-- Feeding bytes to a digest in progress takes them in after those it holds. -/
theorem Absorbed.update {s : Sha256} {msg : ByteArray} (hs : Absorbed s msg) (bs : ByteArray) :
    Absorbed (s.update bs) (msg ++ bs) := by
  have hp := hs.size_pending
  have hsize : (msg ++ bs).size = msg.size + bs.size := ByteArray.size_append
  unfold Sha256.update
  dsimp only
  split
  · exact hs.append_pending ‹_›
  · rename_i hmany
    -- the pending bytes and the first of `bs` make the block after the whole blocks of `msg`;
    -- whole blocks of `bs` follow it
    have hq : (msg ++ bs).size / 64 =
        msg.size / 64 + 1 + (bs.size - (64 - s.pending.size)) / 64 := by omega
    have hstart : 64 * ((msg ++ bs).size / 64) =
        msg.size + ((64 - s.pending.size) + 64 * ((bs.size - (64 - s.pending.size)) / 64)) := by
      omega
    have hblock : SameBytes (s.pending ++ bs.extract 0 (64 - s.pending.size)) 0 (msg ++ bs)
        (64 * (msg.size / 64)) 64 := by
      intro j hj
      rw [getD_append]
      by_cases hj' : 0 + j < s.pending.size
      · rw [if_pos hj', hs.getD_pending _ hj', Nat.zero_add]
      · have hin : 0 + (0 + j - s.pending.size) < 64 - s.pending.size := by omega
        rw [if_neg hj', getD_extract, if_pos hin, getD_append, if_neg (by omega)]
        congr 2
        omega
    have hrest : SameBytes bs (64 - s.pending.size) (msg ++ bs) (64 * (msg.size / 64 + 1))
        (64 * ((bs.size - (64 - s.pending.size)) / 64)) := by
      intro j hj
      rw [getD_append, if_neg (by omega)]
      congr 2
      omega
    refine ⟨?_, ?_, ?_⟩
    · show compressBlocks (compress s.words (s.pending ++ bs.extract 0 (64 - s.pending.size)) 0) bs
          (64 - s.pending.size) ((bs.size - (64 - s.pending.size)) / 64) = _
      rw [hq, compressBlocks_add, compressBlocks_succ, Nat.zero_add, Nat.zero_add,
        ← compressBlocks_congr (sameBytes_append_left msg bs (by omega)), ← hs.words,
        compress_congr hblock, compressBlocks_congr hrest]
    · show bs.extract _ bs.size = _
      rw [hstart, hsize, ByteArray.extract_append_size_add]
    · show s.length + bs.size = _
      rw [hs.length, hsize]

/-- Feeding bytes in two pieces is feeding them at once. -/
theorem update_update {s : Sha256} {msg : ByteArray} (hs : Absorbed s msg) (a b : ByteArray) :
    (s.update a).update b = s.update (a ++ b) :=
  ((hs.update a).update b).eq (by
    rw [ByteArray.append_assoc]
    exact hs.update (a ++ b))

theorem Absorbed.size_words {s : Sha256} {msg : ByteArray} (hs : Absorbed s msg) :
    s.words.size = 8 := by
  rw [hs.words]
  exact size_compressBlocks rfl _ _ _

/-- A digest is 32 bytes. -/
theorem Absorbed.size_finish {s : Sha256} {msg : ByteArray} (hs : Absorbed s msg) :
    s.finish.size = 32 := by
  have h8 := (hs.update (padding s.length)).size_words
  unfold finish
  generalize s.update (padding s.length) = t at h8
  obtain ⟨w, p, l⟩ := t
  simp only at h8
  simp [ByteArray.size, List.length_flatMap, h8]

end Sha256

end EventStore
