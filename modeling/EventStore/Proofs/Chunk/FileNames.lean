import Mathlib.Data.List.Induction
import EventStore.Chunk.FileName

/-!
# Chunk file names read back below a million

A chunk file is named `chunk-NNNNNN.VVVVVV`, after its first chunk number and its version, each
written in decimal with zeros in front up to six digits. Reading a name back strips the prefix,
cuts the rest at its first dot, wants six bytes on each side and reads each side as a 32-bit
number, which may carry a leading `+`.

The two do not quite match. A number from a million on is written with seven digits or more, and
then its name does not read back at all (`parse?_ofParts`). And the reader takes a `+` in place of
a leading zero, so a number below a hundred thousand has a second spelling
(`parse?_eq_some_iff`): a name reads as `(n, v)` exactly when each of its two fields spells its
number (`Spells`). So the names that read as `(n, v)` are the name of `(n, v)` and the names with
a `+` in them (`eq_ofParts_or_plus_of_parse?`).
-/

namespace EventStore

namespace ChunkFileName

/-! ## Decimal digits -/

theorem isDigit_iff {c : Char} : c.isDigit = true ↔ 48 ≤ c.toNat ∧ c.toNat ≤ 57 := by
  unfold Char.isDigit
  simp only [Bool.and_eq_true, decide_eq_true_eq, ge_iff_le, UInt32.le_iff_toNat_le]
  rfl

/-- A decimal digit is one byte in UTF-8. -/
theorem utf8Size_of_isDigit {c : Char} (h : c.isDigit = true) : c.utf8Size = 1 := by
  rw [Char.utf8Size_eq_one_iff, UInt32.le_iff_toNat_le]
  exact Nat.le_trans (isDigit_iff.1 h).2 (by decide)

/-- A digit character is the digit of its value. -/
theorem digitChar_toNat_sub {c : Char} (h : c.isDigit = true) : Nat.digitChar (c.toNat - 48) = c := by
  have hc := isDigit_iff.1 h
  apply Char.toNat_inj.1
  rw [Nat.toNat_digitChar_of_lt_ten (by omega)]
  omega

/-- A string of one-byte characters has as many bytes as characters. -/
theorem utf8ByteSize_ofList {cs : List Char} (h : ∀ c ∈ cs, c.utf8Size = 1) :
    (String.ofList cs).utf8ByteSize = cs.length := by
  induction cs with
  | nil => rfl
  | cons c cs ih =>
    simp [String.utf8ByteSize_singleton, h c (by simp), ih fun d hd => h d (by simp [hd])]
    omega

/-- Digits and `+` are one byte each. -/
theorem utf8ByteSize_of_digits {cs : List Char} (h : ∀ c ∈ cs, c.isDigit = true ∨ c = '+') :
    (String.ofList cs).utf8ByteSize = cs.length :=
  utf8ByteSize_ofList fun c hc => (h c hc).elim utf8Size_of_isDigit fun hp => hp ▸ rfl

/-- The reader's fold over digits is their decimal value. -/
theorem foldl_eq_ofDigitChars (cs : List Char) (acc : Nat) :
    cs.foldl (fun acc c => acc * 10 + (c.toNat - 48)) acc = Nat.ofDigitChars 10 cs acc := by
  induction cs generalizing acc with
  | nil => rfl
  | cons c cs ih => rw [List.foldl_cons, ih, Nat.ofDigitChars_cons, Nat.mul_comm]; rfl

/-- A nonempty string of digits is the decimal form of its value, with as many zeros in front as
it has beyond the value's digits. -/
theorem replicate_toDigits_ofDigitChars {ds : List Char} (hd : ∀ c ∈ ds, c.isDigit = true)
    (hne : ds ≠ []) :
    List.replicate (ds.length - (Nat.toDigits 10 (Nat.ofDigitChars 10 ds 0)).length) '0' ++
      Nat.toDigits 10 (Nat.ofDigitChars 10 ds 0) = ds := by
  -- by the last digit: the value is ten times the value before it, plus the digit
  induction ds using List.reverseRecOn with
  | nil => exact absurd rfl hne
  | append_singleton ds c ih =>
    have hc := hd c (by simp)
    have hds : ∀ c ∈ ds, c.isDigit = true := fun d h => hd d (by simp [h])
    have hlt : c.toNat - 48 < 10 := by have := isDigit_iff.1 hc; omega
    rw [Nat.ofDigitChars_append, Nat.ofDigitChars_cons, Nat.ofDigitChars_nil]
    simp only [Char.reduceToNat]
    by_cases hm : Nat.ofDigitChars 10 ds 0 = 0
    · -- all earlier digits are zeros
      rw [hm, Nat.mul_zero, Nat.zero_add, Nat.toDigits_of_lt_base hlt, digitChar_toNat_sub hc]
      have hzeros : List.replicate ds.length '0' = ds := by
        by_cases hne' : ds = []
        · rw [hne']
          rfl
        · have := ih hds hne'
          rw [hm, Nat.toDigits_zero] at this
          rw [← this]
          simp [← List.replicate_succ']
      simp only [List.length_append, List.length_singleton, Nat.add_sub_cancel]
      rw [hzeros]
    · have hne' : ds ≠ [] := by rintro rfl; exact hm rfl
      rw [← Nat.toDigits_append_toDigits (by decide) (Nat.pos_of_ne_zero hm) hlt,
        Nat.toDigits_of_lt_base hlt, digitChar_toNat_sub hc]
      have := ih hds hne'
      simp only [List.length_append, List.length_singleton, Nat.add_sub_add_right]
      rw [← List.append_assoc, this]

/-! ## Six-digit fields -/

theorem toList_pad6 (n : Nat) :
    (pad6 n).toList = List.replicate (6 - (Nat.toDigits 10 n).length) '0' ++ Nat.toDigits 10 n := by
  simp [pad6]

theorem isDigit_of_mem_pad6 {n : Nat} {c : Char} (h : c ∈ (pad6 n).toList) : c.isDigit = true := by
  rw [toList_pad6, List.mem_append, List.mem_replicate] at h
  rcases h with ⟨-, rfl⟩ | h
  · rfl
  · exact Nat.isDigit_of_mem_toDigits (by decide) (by decide) h

/-- A padded number reads back as the number. -/
theorem ofDigitChars_pad6 (n : Nat) : Nat.ofDigitChars 10 (pad6 n).toList 0 = n := by
  simp [pad6, Nat.ofDigitChars_append]

/-- The field of a number has six characters exactly when the number is below a million. -/
theorem length_pad6_eq_six_iff {n : Nat} : (pad6 n).toList.length = 6 ↔ n < 1000000 := by
  rw [toList_pad6, List.length_append, List.length_replicate,
    ← (Nat.length_toDigits_le_iff (by decide) (by decide) : _ ↔ n < 10 ^ 6)]
  omega

/-- The field's bytes are its characters. -/
theorem utf8ByteSize_pad6 (n : Nat) : (String.ofList (pad6 n).toList).utf8ByteSize = (pad6 n).toList.length :=
  utf8ByteSize_ofList fun _ hc => utf8Size_of_isDigit (isDigit_of_mem_pad6 hc)

/-- Six digits are the field of their value. -/
theorem pad6_ofDigitChars {ds : List Char} (hd : ∀ c ∈ ds, c.isDigit = true) (hlen : ds.length = 6) :
    (pad6 (Nat.ofDigitChars 10 ds 0)).toList = ds := by
  rw [toList_pad6, ← hlen]
  exact replicate_toDigits_ofDigitChars hd (by rintro rfl; cases hlen)

/-! ## Reading a number -/

/-- What the number reader takes: an optional `+`, then decimal digits of a value below `2 ^ 32`. -/
theorem parseU32?_eq_some_iff {cs : List Char} {n : Nat} :
    parseU32? cs = some n ↔ ∃ ds, (cs = ds ∨ cs = '+' :: ds) ∧ ds ≠ [] ∧
      (∀ c ∈ ds, c.isDigit = true) ∧ Nat.ofDigitChars 10 ds 0 = n ∧ n < Nat.pow 2 32 := by
  -- what the reader does once a leading `+` is dropped
  have hdigits : ∀ ds : List Char,
      (if (ds.isEmpty || !ds.all Char.isDigit) = true then none
        else if ds.foldl (fun acc c => acc * 10 + (c.toNat - 48)) 0 < Nat.pow 2 32 then
          some (ds.foldl (fun acc c => acc * 10 + (c.toNat - 48)) 0) else none) = some n ↔
      ds ≠ [] ∧ (∀ c ∈ ds, c.isDigit = true) ∧ Nat.ofDigitChars 10 ds 0 = n ∧ n < Nat.pow 2 32 := by
    intro ds
    rw [foldl_eq_ofDigitChars]
    by_cases hds : ds = [] ∨ ∃ c ∈ ds, c.isDigit = false
    · rw [if_pos (by simpa using hds)]
      simp only [reduceCtorEq, false_iff]
      rintro ⟨hne, hall, -⟩
      rcases hds with rfl | ⟨c, hc, hnd⟩
      · exact hne rfl
      · rw [hall c hc] at hnd
        cases hnd
    · rw [if_neg (by simpa using hds)]
      simp only [not_or, not_exists, not_and, Bool.not_eq_false] at hds
      split <;> simp_all <;> omega
  unfold parseU32?
  split
  · rename_i rest
    dsimp only
    rw [hdigits]
    constructor
    · rintro ⟨hne, hall, hv, hlt⟩
      exact ⟨rest, .inr rfl, hne, hall, hv, hlt⟩
    · rintro ⟨ds, hcs | hcs, hne, hall, hv, hlt⟩
      · -- the `+` would have to be a digit
        have := hall '+' (by rw [← hcs]; simp)
        cases this
      · cases hcs
        exact ⟨hne, hall, hv, hlt⟩
  · rename_i _ hplus
    dsimp only
    rw [hdigits]
    constructor
    · rintro ⟨hne, hall, hv, hlt⟩
      exact ⟨cs, .inl rfl, hne, hall, hv, hlt⟩
    · rintro ⟨ds, rfl | hcs, hne, hall, hv, hlt⟩
      · exact ⟨hne, hall, hv, hlt⟩
      · exact absurd hcs (hplus ds)

/-! ## Reading a name -/

/-- A list cut at the first occurrence of a character. -/
theorem idxOf?_eq_some_iff_append {x : Char} {l : List Char} {i : Nat} :
    l.idxOf? x = some i ↔ ∃ a b, l = a ++ x :: b ∧ x ∉ a ∧ a.length = i := by
  induction l generalizing i with
  | nil => simp
  | cons y l ih =>
    rw [List.idxOf?_cons]
    by_cases hy : y = x
    · subst hy
      simp only [beq_self_eq_true, if_true, Option.some.injEq]
      constructor
      · rintro rfl
        exact ⟨[], l, rfl, by simp, rfl⟩
      · rintro ⟨a, b, hl, hx, rfl⟩
        cases a with
        | nil => rfl
        | cons z a =>
          cases hl
          simp at hx
    · rw [if_neg (by simpa using hy)]
      constructor
      · intro h
        obtain ⟨j, hj, rfl⟩ := Option.map_eq_some_iff.1 h
        obtain ⟨a, b, rfl, hx, rfl⟩ := ih.1 hj
        exact ⟨y :: a, b, rfl, by simp [hx, Ne.symm hy], rfl⟩
      · rintro ⟨a, b, hl, hx, rfl⟩
        cases a with
        | nil =>
          cases hl
          exact absurd rfl hy
        | cons z a =>
          cases hl
          simp only [List.mem_cons, not_or] at hx
          rw [ih.2 ⟨a, b, rfl, hx.2, rfl⟩]
          rfl

/-- How a name cut at its first dot after the prefix reads. -/
theorem parse?_of_toList {s : String} {a b : List Char} (h : s.toList = prefixText.toList ++ a ++ '.' :: b)
    (ha : '.' ∉ a) :
    parse? s = if (String.ofList a).utf8ByteSize = 6 ∧ (String.ofList b).utf8ByteSize = 6 then
      (parseU32? a).bind fun n => (parseU32? b).bind fun v => some (n, v) else none := by
  have hlen : prefixText.toList.length = 6 := by decide
  unfold parse?
  dsimp only
  rw [h, List.append_assoc, List.take_left' hlen, if_pos rfl, List.drop_left' hlen,
    idxOf?_eq_some_iff_append.2 ⟨a, b, rfl, ha, rfl⟩]
  dsimp only
  rw [List.take_left' rfl, List.drop_length_add_append]
  rfl

/-- A name that reads is the prefix, a field without a dot, a dot and a second field. -/
theorem toList_of_parse? {s : String} {p : Nat × Nat} (h : parse? s = some p) :
    ∃ a b, s.toList = prefixText.toList ++ a ++ '.' :: b ∧ '.' ∉ a := by
  unfold parse? at h
  dsimp only at h
  split at h
  · rename_i hpre
    split at h
    · rename_i i hi
      obtain ⟨a, b, hrest, ha, -⟩ := idxOf?_eq_some_iff_append.1 hi
      refine ⟨a, b, ?_, ha⟩
      rw [← hpre, List.append_assoc, ← hrest, List.take_append_drop]
    · cases h
  · cases h

/-- The two fields of a name read as a pair exactly when each reads. -/
theorem bind_pair_eq_some_iff {x y : Option Nat} {n v : Nat} :
    (x.bind fun n => y.bind fun v => some (n, v)) = some (n, v) ↔ x = some n ∧ y = some v := by
  cases x <;> cases y <;> simp

/-- The six characters `cs` spell the number `n` in a chunk file name: `n` is below a million and
`cs` is its field, or its field with `+` in place of a leading zero. -/
def Spells (cs : List Char) (n : Nat) : Prop :=
  n < 1000000 ∧ (cs = (pad6 n).toList ∨ ∃ r, (pad6 n).toList = '0' :: r ∧ cs = '+' :: r)

/-- A field a number spells is made of one-byte characters, digits and a `+`. -/
theorem Spells.ascii {cs : List Char} {n : Nat} (h : Spells cs n) :
    ∀ c ∈ cs, c.isDigit = true ∨ c = '+' := by
  rcases h with ⟨-, rfl | ⟨r, hr, rfl⟩⟩
  · exact fun c hc => .inl (isDigit_of_mem_pad6 hc)
  · intro c hc
    rcases List.mem_cons.1 hc with rfl | hc
    · exact .inr rfl
    · exact .inl (isDigit_of_mem_pad6 (by rw [hr]; exact List.mem_cons_of_mem _ hc))

/-- A field a number spells has six bytes and no dot. -/
theorem Spells.utf8ByteSize {cs : List Char} {n : Nat} (h : Spells cs n) :
    (String.ofList cs).utf8ByteSize = 6 ∧ '.' ∉ cs := by
  have hascii := h.ascii
  refine ⟨?_, fun hd => ?_⟩
  · rw [utf8ByteSize_of_digits hascii]
    obtain ⟨hlt, rfl | ⟨r, hr, rfl⟩⟩ := h
    · exact length_pad6_eq_six_iff.2 hlt
    · have := length_pad6_eq_six_iff.2 hlt
      rw [hr] at this
      simpa using this
  · rcases hascii '.' hd with h | h <;> cases h

/-- A field of six bytes reads as the number it spells. -/
theorem parseU32?_eq_some_iff_spells {cs : List Char} {n : Nat}
    (h6 : (String.ofList cs).utf8ByteSize = 6) : parseU32? cs = some n ↔ Spells cs n := by
  rw [parseU32?_eq_some_iff]
  constructor
  · rintro ⟨ds, hcs | hcs, hne, hall, rfl, -⟩ <;> rw [hcs] at h6 ⊢
    · -- six digits
      have hlen : ds.length = 6 := by
        rwa [utf8ByteSize_of_digits fun c hc => .inl (hall c hc)] at h6
      have hpad := pad6_ofDigitChars hall hlen
      exact ⟨length_pad6_eq_six_iff.1 (by rw [hpad, hlen]), .inl hpad.symm⟩
    · -- a `+` and five digits: with a zero in front of them they are the field
      have hall0 : ∀ c ∈ '0' :: ds, c.isDigit = true := by
        simp only [List.mem_cons, forall_eq_or_imp]
        exact ⟨rfl, hall⟩
      have hascii : ∀ c ∈ '+' :: ds, c.isDigit = true ∨ c = '+' := fun c hc =>
        (List.mem_cons.1 hc).elim .inr fun hc => .inl (hall c hc)
      have hlen : ('0' :: ds).length = 6 := by
        rw [utf8ByteSize_of_digits hascii] at h6
        simpa using h6
      have hpad := pad6_ofDigitChars hall0 hlen
      rw [Nat.ofDigitChars_cons] at hpad
      simp only [Char.reduceToNat, Nat.sub_self, Nat.mul_zero, Nat.add_zero] at hpad
      exact ⟨length_pad6_eq_six_iff.1 (by rw [hpad, hlen]), .inr ⟨ds, hpad, rfl⟩⟩
  · rintro ⟨hlt, rfl | ⟨r, hr, rfl⟩⟩
    · have hne : (pad6 n).toList ≠ [] :=
        List.ne_nil_of_length_pos (by rw [length_pad6_eq_six_iff.2 hlt]; decide)
      exact ⟨_, .inl rfl, hne, fun _ hc => isDigit_of_mem_pad6 hc, ofDigitChars_pad6 n,
        Nat.lt_of_lt_of_le hlt (by decide)⟩
    · have hlen := length_pad6_eq_six_iff.2 hlt
      rw [hr] at hlen
      refine ⟨r, .inr rfl, ?_, fun c hc => isDigit_of_mem_pad6 (by rw [hr]; exact List.mem_cons_of_mem _ hc),
        ?_, Nat.lt_of_lt_of_le hlt (by decide)⟩
      · rintro rfl
        cases hlen
      · -- the leading zero adds nothing to the value
        have := ofDigitChars_pad6 n
        rw [hr, Nat.ofDigitChars_cons] at this
        simpa using this

/-- A name reads as `(n, v)` exactly when it is the prefix, a field spelling `n`, a dot and a field
spelling `v`. -/
theorem parse?_eq_some_iff {s : String} {n v : Nat} :
    parse? s = some (n, v) ↔
      ∃ a b, s.toList = prefixText.toList ++ a ++ '.' :: b ∧ Spells a n ∧ Spells b v := by
  constructor
  · intro h
    obtain ⟨a, b, hs, ha⟩ := toList_of_parse? h
    rw [parse?_of_toList hs ha] at h
    split at h
    · rename_i h6
      obtain ⟨hn, hv⟩ := bind_pair_eq_some_iff.1 h
      exact ⟨a, b, hs, (parseU32?_eq_some_iff_spells h6.1).1 hn, (parseU32?_eq_some_iff_spells h6.2).1 hv⟩
    · cases h
  · rintro ⟨a, b, hs, ha, hb⟩
    obtain ⟨ha6, hdot⟩ := ha.utf8ByteSize
    obtain ⟨hb6, -⟩ := hb.utf8ByteSize
    rw [parse?_of_toList hs hdot, if_pos ⟨ha6, hb6⟩]
    exact bind_pair_eq_some_iff.2 ⟨(parseU32?_eq_some_iff_spells ha6).2 ha,
      (parseU32?_eq_some_iff_spells hb6).2 hb⟩

/-! ## Names of chunk files -/

theorem toList_ofParts (n v : Nat) :
    (ofParts n v).toList = prefixText.toList ++ (pad6 n).toList ++ '.' :: (pad6 v).toList := by
  simp [ofParts, String.toList_append]

/-- Distinct chunk numbers name distinct files. -/
theorem ofParts_inj {n m v : Nat} (h : ofParts n v = ofParts m v) : n = m := by
  have hl := congrArg String.toList h
  rw [toList_ofParts, toList_ofParts] at hl
  have hpad : (pad6 n).toList = (pad6 m).toList :=
    List.append_cancel_left (List.append_cancel_right hl)
  rw [← ofDigitChars_pad6 n, hpad, ofDigitChars_pad6]

/-- Below a million, a field reads back as its number. -/
theorem parseU32?_pad6 {n : Nat} (h : n < 1000000) : parseU32? (pad6 n).toList = some n :=
  (parseU32?_eq_some_iff_spells (by rw [utf8ByteSize_pad6, length_pad6_eq_six_iff.2 h])).2
    ⟨h, .inl rfl⟩

/-- The name of a chunk number and a version reads back as them when both are below a million, and
does not read at all otherwise. -/
theorem parse?_ofParts (n v : Nat) :
    parse? (ofParts n v) = if n < 1000000 ∧ v < 1000000 then some (n, v) else none := by
  have hdot : '.' ∉ (pad6 n).toList := fun h => by cases isDigit_of_mem_pad6 h
  rw [parse?_of_toList (toList_ofParts n v) hdot, utf8ByteSize_pad6, utf8ByteSize_pad6]
  simp only [length_pad6_eq_six_iff]
  split
  · rename_i h
    rw [parseU32?_pad6 h.1, parseU32?_pad6 h.2]
    rfl
  · rfl

example : parse? (ofParts 1000000 0) = none := by
  rw [parse?_ofParts]
  decide

/-- A name that reads as `(n, v)` is the name of `(n, v)`, or holds a `+`. -/
theorem eq_ofParts_or_plus_of_parse? {s : String} {n v : Nat} (h : parse? s = some (n, v)) :
    s = ofParts n v ∨ '+' ∈ s.toList := by
  obtain ⟨a, b, hs, ⟨-, ha | ⟨r, -, rfl⟩⟩, ⟨-, hb | ⟨r', -, rfl⟩⟩⟩ := parse?_eq_some_iff.1 h
  · left
    apply String.toList_inj.1
    rw [hs, ha, hb, toList_ofParts]
  all_goals
    right
    rw [hs]
    simp

example : parse? "chunk-+00001.000001" = some (1, 1) := by decide

/-- Chunk file names read back below a million. The name of a chunk number and a version reads as
them when both are below a million and does not read otherwise; a name reads as `(n, v)` exactly
when it is the prefix, a field spelling `n`, a dot and a field spelling `v`; so a name that reads
as `(n, v)` is their name or holds a `+`. -/
theorem chunk_file_names_read_back_below_a_million (n v : Nat) (s : String) :
    (parse? (ofParts n v) = if n < 1000000 ∧ v < 1000000 then some (n, v) else none) ∧
    (parse? s = some (n, v) ↔
      ∃ a b, s.toList = prefixText.toList ++ a ++ '.' :: b ∧ Spells a n ∧ Spells b v) ∧
    (parse? s = some (n, v) → s = ofParts n v ∨ '+' ∈ s.toList) :=
  ⟨parse?_ofParts n v, parse?_eq_some_iff, eq_ofParts_or_plus_of_parse?⟩

end ChunkFileName

end EventStore
