import EventStore.Log.Record
import EventStore.Word

/-!
# Framed records read back

A record is stored as a frame: the body's length in four bytes, the body, and the length again;
the body is a tag byte and the fields in fixed big-endian widths. Reading undoes writing. A number
written in a width that holds it reads back as itself (`Bytes.toNat_ofNat`, `Bytes.toInt_ofInt`),
each field decoder reads back what its encoder wrote and leaves the bytes after it, and so a
record whose fields fit their widths decodes from its body (`Record.decode_run_encode`). Its frame
announces the body's length and, when that length is one a frame may announce, reads back as the
record (`Record.readFramed_framed`).
-/

namespace EventStore

namespace Bytes

@[simp] theorem length_ofNat (w n : Nat) : (ofNat w n).length = w := by
  simp [ofNat]

theorem ofNat_succ (w n : Nat) :
    ofNat (w + 1) n = UInt8.ofNat (n / Nat.pow 256 w % 256) :: ofNat w n := by
  simp [ofNat, List.range_succ]

/-- Reading on from a number already read shifts it left by the bytes that follow. -/
theorem foldl_toNat (acc : Nat) (bs : Bytes) :
    bs.foldl (fun acc b => acc * 256 + b.toNat) acc = acc * Nat.pow 256 bs.length + toNat bs := by
  induction bs generalizing acc with
  | nil => simp [toNat]
  | cons b bs ih =>
    unfold toNat
    rw [List.foldl_cons, List.foldl_cons, ih, ih]
    simp only [Nat.pow_eq, List.length_cons, Nat.pow_succ, Nat.zero_mul, Nat.zero_add]
    rw [Nat.add_mul, Nat.mul_assoc, Nat.mul_comm 256, Nat.add_assoc]

theorem toNat_cons (b : UInt8) (bs : Bytes) :
    toNat (b :: bs) = b.toNat * Nat.pow 256 bs.length + toNat bs := by
  simp only [toNat, List.foldl_cons]
  rw [foldl_toNat, Nat.zero_mul, Nat.zero_add]
  rfl

/-- A width reads back the number it was written from, modulo what the width holds. -/
theorem toNat_ofNat (w n : Nat) : toNat (ofNat w n) = n % Nat.pow 256 w := by
  induction w with
  | zero => simp [ofNat, toNat, Nat.mod_one]
  | succ w ih =>
    rw [ofNat_succ, toNat_cons, ih, length_ofNat]
    have hb : (UInt8.ofNat (n / Nat.pow 256 w % 256)).toNat = n / Nat.pow 256 w % 256 :=
      UInt8.toNat_ofNat_of_lt (Nat.mod_lt _ (by decide))
    rw [hb, Nat.pow_eq, Nat.pow_eq, Nat.mod_pow_succ]
    rw [Nat.mul_comm, Nat.add_comm]

@[simp] theorem length_ofInt (w : Nat) (i : Int) : (ofInt w i).length = w := by
  simp [ofInt]

/-- A signed number that fits its width reads back as itself. -/
theorem toInt_ofInt (w : Nat) (i : Int) (hi : i.bmod (Nat.pow 256 w) = i) :
    toInt (ofInt w i) = i := by
  have hm : (0 : Int) < (Nat.pow 256 w : Nat) := by
    have : 0 < Nat.pow 256 w := Nat.pow_pos (by decide)
    omega
  have hlt := Int.emod_lt_of_pos i hm
  have hnn := Int.emod_nonneg i (Int.ne_of_gt hm)
  have hn : toNat (ofInt w i) = (i % (Nat.pow 256 w : Nat)).toNat := by
    rw [ofInt, toNat_ofNat]
    exact Nat.mod_eq_of_lt (by omega)
  rw [Int.bmod_def] at hi
  unfold toInt
  simp only [length_ofInt, hn]
  split at hi <;> split <;> omega

end Bytes

namespace Decoder

variable {α β : Type}

theorem splitRev_append (bs rest acc : Bytes) :
    splitRev bs.length (bs ++ rest) acc = some (bs.reverse ++ acc, rest) := by
  induction bs generalizing acc with
  | nil => rfl
  | cons b bs ih => simp [splitRev, ih]

/-- Taking as many bytes as were written gives them back and leaves the rest. -/
theorem take_run {n : Nat} {bs : Bytes} (h : bs.length = n) (rest : Bytes) :
    (take n).run (bs ++ rest) = .ok (bs, rest) := by
  subst h
  simp [run, take, StateT.run, splitRev_append]

theorem run_pure (a : α) (bs : Bytes) : (pure a : Decoder α).run bs = .ok (a, bs) := rfl

/-- A decoder that read `a` hands the bytes after it to what follows. -/
theorem run_bind {d : Decoder α} {f : α → Decoder β} {bs bs' : Bytes} {a : α}
    (h : d.run bs = .ok (a, bs')) : (d >>= f).run bs = (f a).run bs' := by
  simp only [run, StateT.run_bind]
  rw [show StateT.run d bs = _ from h]
  rfl

theorem unsigned_run {w n : Nat} (hn : n < Nat.pow 256 w) (rest : Bytes) :
    (unsigned w).run (Bytes.ofNat w n ++ rest) = .ok (n, rest) := by
  unfold unsigned
  rw [run_bind (take_run (Bytes.length_ofNat w n) rest), run_pure, Bytes.toNat_ofNat,
    Nat.mod_eq_of_lt hn]

theorem signed_run {w : Nat} {i : Int} (hi : i.bmod (Nat.pow 256 w) = i) (rest : Bytes) :
    (signed w).run (Bytes.ofInt w i ++ rest) = .ok (i, rest) := by
  unfold signed
  rw [run_bind (take_run (Bytes.length_ofInt w i) rest), run_pure, Bytes.toInt_ofInt w i hi]

theorem u8_run (b : UInt8) (rest : Bytes) : u8.run (b :: rest) = .ok (b.toNat, rest) := by
  unfold u8 unsigned
  rw [show b :: rest = [b] ++ rest from rfl, run_bind (take_run (show [b].length = 1 from rfl) rest), run_pure]
  simp [Bytes.toNat]

theorem i64_run {i : Int} (hi : Word.signed 64 i = i) (rest : Bytes) :
    i64.run (Bytes.ofInt 8 i ++ rest) = .ok (i, rest) :=
  @signed_run 8 _ hi rest

theorem u64_run {n : Nat} (hn : n < Nat.pow 2 64) (rest : Bytes) :
    u64.run (Bytes.ofNat 8 n ++ rest) = .ok (n, rest) :=
  @unsigned_run 8 _ hn rest

theorem uuid_run {u : Uuid} (hu : u.value < Nat.pow 2 128) (rest : Bytes) :
    uuid.run (Bytes.ofUuid u ++ rest) = .ok (u, rest) := by
  unfold uuid
  rw [Bytes.ofUuid, run_bind (@unsigned_run 16 _ hu rest), run_pure]

/-- A byte string read back after its 32-bit length. -/
theorem sized_run {bs : Bytes} (h : bs.length < Nat.pow 2 32) (rest : Bytes) :
    sized.run (Bytes.sized bs ++ rest) = .ok (bs, rest) := by
  unfold sized u32
  rw [Bytes.sized, List.append_assoc, run_bind (@unsigned_run 4 _ h _), take_run rfl]

end Decoder

theorem SystemKind.decode_run (k : SystemKind) (rest : Bytes) :
    SystemKind.decode.run (UInt8.ofNat k.toNat :: rest) = .ok (k, rest) := by
  unfold SystemKind.decode
  rw [Decoder.run_bind (Decoder.u8_run _ rest)]
  cases k <;> rfl

theorem Serialization.decode_run (k : Serialization) (rest : Bytes) :
    Serialization.decode.run (UInt8.ofNat k.toNat :: rest) = .ok (k, rest) := by
  unfold Serialization.decode
  rw [Decoder.run_bind (Decoder.u8_run _ rest)]
  cases k <;> rfl

namespace Record

/-- The record's fields fit the widths its body gives them: the position and the timestamp are
signed 64-bit words, the correlation identifier 128 bits, the reserved field an unsigned 64-bit
word, and the data's length a 32-bit number. -/
def Fits : Record → Prop
  | data r => Word.signed 64 r.logPosition = r.logPosition ∧
      Word.signed 64 r.timestamp = r.timestamp ∧ r.correlationId.value < Nat.pow 2 128 ∧
      r.data.length < Nat.pow 2 32
  | system r => Word.signed 64 r.logPosition = r.logPosition ∧
      Word.signed 64 r.timestamp = r.timestamp ∧ r.reserved < Nat.pow 2 64 ∧
      r.data.length < Nat.pow 2 32

/-- A record whose fields fit reads back from its body, leaving what follows the body. -/
theorem decode_run_encode {r : Record} (hr : r.Fits) (rest : Bytes) :
    decode.run (r.encode ++ rest) = .ok (r, rest) := by
  cases r with
  | data r =>
    obtain ⟨hp, ht, hc, hd⟩ := hr
    simp only [encode, List.cons_append, List.append_assoc]
    unfold decode
    rw [Decoder.run_bind (Decoder.u8_run _ _)]
    -- the tag says a data record; its fields follow in order
    simp only [show (1 : UInt8).toNat = 1 from rfl, if_pos]
    rw [Decoder.run_bind (Decoder.i64_run hp _), Decoder.run_bind (Decoder.i64_run ht _),
      Decoder.run_bind (Decoder.uuid_run hc _), Decoder.run_bind (Decoder.sized_run hd _),
      Decoder.run_pure]
  | system r =>
    obtain ⟨hp, ht, hres, hd⟩ := hr
    simp only [encode, List.cons_append, List.append_assoc]
    unfold decode
    rw [Decoder.run_bind (Decoder.u8_run _ _)]
    -- the tag says a system record; its fields follow in order
    simp only [show (2 : UInt8).toNat = 2 from rfl, show (2 : Nat) ≠ 1 from by decide, if_false,
      if_pos]
    rw [Decoder.run_bind (Decoder.i64_run hp _), Decoder.run_bind (Decoder.i64_run ht _),
      Decoder.run_bind (SystemKind.decode_run _ _), Decoder.run_bind (Serialization.decode_run _ _),
      List.nil_append, Decoder.run_bind (Decoder.u64_run hres _),
      Decoder.run_bind (Decoder.sized_run hd _), Decoder.run_pure]

theorem length_encode_pos (r : Record) : 0 < r.encode.length := by
  cases r <;> simp [encode]

theorem length_framed (r : Record) : r.framed.length = r.encode.length + frameOverhead := by
  simp only [framed, List.length_append, Bytes.length_ofNat, frameOverhead]
  omega

/-- The first four bytes of a frame announce its body's length, a length a frame may announce
when the body is no longer than the largest record. -/
theorem frameBodyLen_framed {r : Record} (hmax : r.encode.length ≤ maxRecordSize) :
    frameBodyLen (r.framed.take 4) = .ok r.encode.length := by
  have hfits : r.encode.length < Nat.pow 256 4 := by
    have : maxRecordSize < Nat.pow 256 4 := by decide
    omega
  have hpos := length_encode_pos r
  have hpfx : r.framed.take 4 = Bytes.ofNat 4 r.encode.length := by
    simp only [framed, List.append_assoc]
    exact List.take_left' (Bytes.length_ofNat 4 _)
  unfold frameBodyLen
  rw [hpfx, Bytes.toNat_ofNat, Nat.mod_eq_of_lt hfits, if_neg (by omega)]

/-- A frame reads back as its record, when the record's fields fit and its body is no longer than
the largest record. -/
theorem readFramed_framed {r : Record} (hr : r.Fits) (hmax : r.encode.length ≤ maxRecordSize) :
    readFramed r.framed = .ok r := by
  have hlen := length_framed r
  have hpfx : r.framed.take 4 = Bytes.ofNat 4 r.encode.length := by
    simp only [framed, List.append_assoc]
    exact List.take_left' (Bytes.length_ofNat 4 _)
  -- the length after the body repeats the one before it
  have hsfx : r.framed.drop (r.encode.length + frameOverhead - 4) = r.framed.take 4 := by
    rw [hpfx]
    simp only [framed, frameOverhead]
    rw [show r.encode.length + 8 - 4 = (Bytes.ofNat 4 r.encode.length ++ r.encode).length by
      simp only [List.length_append, Bytes.length_ofNat]; omega]
    exact List.drop_left
  have hbody : (r.framed.drop 4).take r.encode.length = r.encode := by
    simp only [framed, List.append_assoc]
    rw [List.drop_left' (Bytes.length_ofNat 4 _)]
    exact List.take_left' rfl
  have hdec : decode.run r.encode = .ok (r, []) := by
    simpa using decode_run_encode hr []
  unfold readFramed
  rw [hlen, if_neg (by simp only [frameOverhead]; omega)]
  simp only [bind, Except.bind, frameBodyLen_framed hmax, hsfx, ne_eq, not_true_eq_false,
    or_self, if_false, hbody, hdec, pure, Except.pure]

end Record

end EventStore
