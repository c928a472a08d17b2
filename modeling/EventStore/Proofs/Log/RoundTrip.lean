import EventStore.Proofs.Wire.Fields

/-!
# Framed records round trip

A record is stored as a frame: its body's length in four bytes, the body, and the length again.
Writing a record after a buffer leaves room for the length, writes the body, fills the length in
and repeats it; this appends exactly the record's frame (`Record.writeFramed_eq`). Reading a frame
checks that it is long enough, that its length is one a frame may announce, that the frame is
exactly that long and that the length after the body repeats the one before it, so every frame it
takes has that shape (`Record.readFramed_shape`). A record whose fields are words of their widths
(`Record.Words`) and whose body is no longer than the largest record reads back from its frame.

The record that begins an epoch carries the epoch's binary form and stands at the epoch's
position, so it reads back and gives back the epoch (`Epoch.toRecord_reads_back`).

Main statement: `Record.framed_records_round_trip`, the four facts together.
-/

namespace EventStore

namespace Record

/-- The record's numbers are words of the widths its body gives them: the position and the
timestamp are signed 64-bit words, the correlation identifier 128 bits, the reserved field an
unsigned 64-bit word. -/
def Words : Record → Prop
  | data r => Word.signed 64 r.logPosition = r.logPosition ∧
      Word.signed 64 r.timestamp = r.timestamp ∧ r.correlationId.Fits
  | system r => Word.signed 64 r.logPosition = r.logPosition ∧
      Word.signed 64 r.timestamp = r.timestamp ∧ r.reserved < Nat.pow 2 64

/-- A body no longer than the largest record holds less than `2 ^ 32` bytes of data, so a record
whose numbers are words fits every width of its body. -/
theorem fits_of_words {r : Record} (hr : r.Words) (hmax : r.encode.length ≤ maxRecordSize) :
    r.Fits := by
  have hsmall : maxRecordSize < Nat.pow 2 32 := by decide
  cases r with
  | data r =>
    obtain ⟨h₁, h₂, h₃⟩ := hr
    refine ⟨h₁, h₂, h₃, ?_⟩
    simp only [encode, Bytes.sized, List.length_cons, List.length_append] at hmax
    omega
  | system r =>
    obtain ⟨h₁, h₂, h₃⟩ := hr
    refine ⟨h₁, h₂, h₃, ?_⟩
    simp only [encode, Bytes.sized, List.length_cons, List.length_append] at hmax
    omega

/-- Writing a record after a buffer appends exactly its frame and gives the frame's length. -/
theorem writeFramed_eq (r : Record) (buf : Bytes) :
    r.writeFramed buf = (buf ++ r.framed, r.framed.length) := by
  have hlen : (buf ++ List.replicate 4 0 ++ r.encode).length - buf.length - 4 = r.encode.length := by
    simp only [List.length_append, List.length_replicate]
    omega
  -- the placeholder for the length lies right after the buffer, the body right after it
  have htake : (buf ++ List.replicate 4 0 ++ r.encode).take buf.length = buf := by
    rw [List.append_assoc, List.take_left' rfl]
  have hdrop : (buf ++ List.replicate 4 0 ++ r.encode).drop (buf.length + 4) = r.encode := by
    rw [List.append_assoc, ← List.drop_drop, List.drop_left' rfl,
      List.drop_left' (List.length_replicate ..)]
  simp only [writeFramed, hlen, htake, hdrop]
  simp only [framed, List.append_assoc, List.length_append, Nat.add_sub_cancel_left]

/-- Every frame the reader takes ends with the length it starts with, and that length is its
body's: a valid record length, eight bytes short of the frame. -/
theorem readFramed_shape {frame : Bytes} {r : Record} (h : readFramed frame = .ok r) :
    frame.drop (frame.length - 4) = frame.take 4 ∧ 0 < Bytes.toNat (frame.take 4) ∧
      Bytes.toNat (frame.take 4) ≤ maxRecordSize ∧
      Bytes.toNat (frame.take 4) + frameOverhead = frame.length := by
  unfold readFramed at h
  dsimp only at h
  split at h
  · cases h
  rcases hb : frameBodyLen (frame.take 4) with e | n
  · rw [hb] at h
    cases h
  · rw [hb] at h
    -- the announced length is valid, and the frame passed the length and suffix checks
    have hn : Bytes.toNat (frame.take 4) = n ∧ 0 < n ∧ n ≤ maxRecordSize := by
      simp only [frameBodyLen] at hb
      split at hb
      · cases hb
      · cases hb
        omega
    obtain ⟨hn, hpos, hle⟩ := hn
    simp only [bind, Except.bind] at h
    split at h
    · cases h
    · rename_i hchecks
      simp only [ne_eq, not_or, Classical.not_not] at hchecks
      obtain ⟨hl, hs⟩ := hchecks
      exact ⟨hs, hn ▸ hpos, hn ▸ hle, by rw [hn, hl]⟩

end Record

namespace Epoch

theorem toRecord_words {e : Epoch} (he : e.Fits) : e.toRecord.Words :=
  ⟨he.1, he.2.2.2.2.1, show (0 : Nat) < Nat.pow 2 64 by decide⟩

theorem length_encode_toRecord (e : Epoch) : e.toRecord.encode.length = 91 := by
  simp [toRecord, Record.encode, Bytes.sized]

/-- The record of an epoch gives back the epoch its data holds. -/
theorem epoch?_toRecord {e : Epoch} (he : e.Fits) : e.toRecord.epoch? = some e := by
  have hd := reads_encode he []
  rw [List.append_nil] at hd
  simp only [toRecord, Record.epoch?, if_pos, hd]

/-- The record that begins an epoch reads back from its frame, gives back the epoch and stands at
the epoch's position. -/
theorem toRecord_reads_back {e : Epoch} (he : e.Fits) :
    Record.readFramed e.toRecord.framed = .ok e.toRecord ∧ e.toRecord.epoch? = some e ∧
      e.toRecord.logPosition = e.epochPosition := by
  have hmax : e.toRecord.encode.length ≤ maxRecordSize := by
    rw [length_encode_toRecord]
    decide
  exact ⟨Record.readFramed_framed (Record.fits_of_words (toRecord_words he) hmax) hmax,
    epoch?_toRecord he, rfl⟩

end Epoch

namespace Record

/-- Framing round trip. Writing a record after a buffer appends exactly its frame and gives the
frame's length; a record whose numbers are words and whose body is no longer than the largest
record reads back from its frame; the record of an epoch reads back, gives back the epoch and
stands at the epoch's position; and every frame the reader takes ends with the length it starts
with, which is a valid record length and its body's. -/
theorem framed_records_round_trip {r : Record} (hr : r.Words)
    (hmax : r.encode.length ≤ maxRecordSize) (buf : Bytes) {e : Epoch} (he : e.Fits)
    {frame : Bytes} {r' : Record} (hframe : readFramed frame = .ok r') :
    r.writeFramed buf = (buf ++ r.framed, r.framed.length) ∧ readFramed r.framed = .ok r ∧
      (readFramed e.toRecord.framed = .ok e.toRecord ∧ e.toRecord.epoch? = some e ∧
        e.toRecord.logPosition = e.epochPosition) ∧
      (frame.drop (frame.length - 4) = frame.take 4 ∧ 0 < Bytes.toNat (frame.take 4) ∧
        Bytes.toNat (frame.take 4) ≤ maxRecordSize ∧
        Bytes.toNat (frame.take 4) + frameOverhead = frame.length) :=
  ⟨writeFramed_eq r buf, readFramed_framed (fits_of_words hr hmax) hmax,
    Epoch.toRecord_reads_back he, readFramed_shape hframe⟩

/-- Three bytes of data written after one byte of buffer, an epoch at 1000 after one at 500, and
the three bytes' frame read back. -/
theorem three_bytes_and_epoch_round_trip :
    (data ⟨0, 0, ⟨0⟩, [1, 2, 3]⟩).Words ∧
      (data ⟨0, 0, ⟨0⟩, [1, 2, 3]⟩).encode.length ≤ maxRecordSize ∧
      (⟨1000, 3, ⟨9⟩, 500, 1, ⟨2⟩⟩ : Epoch).Fits ∧
      readFramed (data ⟨0, 0, ⟨0⟩, [1, 2, 3]⟩).framed = .ok (data ⟨0, 0, ⟨0⟩, [1, 2, 3]⟩) ∧
      ((data ⟨0, 0, ⟨0⟩, [1, 2, 3]⟩).writeFramed [7] =
          ([7] ++ (data ⟨0, 0, ⟨0⟩, [1, 2, 3]⟩).framed,
            (data ⟨0, 0, ⟨0⟩, [1, 2, 3]⟩).framed.length) ∧
        readFramed (data ⟨0, 0, ⟨0⟩, [1, 2, 3]⟩).framed = .ok (data ⟨0, 0, ⟨0⟩, [1, 2, 3]⟩) ∧
        (readFramed (⟨1000, 3, ⟨9⟩, 500, 1, ⟨2⟩⟩ : Epoch).toRecord.framed =
            .ok (⟨1000, 3, ⟨9⟩, 500, 1, ⟨2⟩⟩ : Epoch).toRecord ∧
          (⟨1000, 3, ⟨9⟩, 500, 1, ⟨2⟩⟩ : Epoch).toRecord.epoch? =
            some (⟨1000, 3, ⟨9⟩, 500, 1, ⟨2⟩⟩ : Epoch) ∧
          (⟨1000, 3, ⟨9⟩, 500, 1, ⟨2⟩⟩ : Epoch).toRecord.logPosition = 1000) ∧
        ((data ⟨0, 0, ⟨0⟩, [1, 2, 3]⟩).framed.drop
              ((data ⟨0, 0, ⟨0⟩, [1, 2, 3]⟩).framed.length - 4) =
            (data ⟨0, 0, ⟨0⟩, [1, 2, 3]⟩).framed.take 4 ∧
          0 < Bytes.toNat ((data ⟨0, 0, ⟨0⟩, [1, 2, 3]⟩).framed.take 4) ∧
          Bytes.toNat ((data ⟨0, 0, ⟨0⟩, [1, 2, 3]⟩).framed.take 4) ≤ maxRecordSize ∧
          Bytes.toNat ((data ⟨0, 0, ⟨0⟩, [1, 2, 3]⟩).framed.take 4) + frameOverhead =
            (data ⟨0, 0, ⟨0⟩, [1, 2, 3]⟩).framed.length)) := by
  have hr : (data ⟨0, 0, ⟨0⟩, [1, 2, 3]⟩).Words := by
    unfold Words
    decide
  have hmax : (data ⟨0, 0, ⟨0⟩, [1, 2, 3]⟩).encode.length ≤ maxRecordSize := by decide
  have he : (⟨1000, 3, ⟨9⟩, 500, 1, ⟨2⟩⟩ : Epoch).Fits := by
    unfold Epoch.Fits
    decide
  have hframe : readFramed (data ⟨0, 0, ⟨0⟩, [1, 2, 3]⟩).framed =
      .ok (data ⟨0, 0, ⟨0⟩, [1, 2, 3]⟩) := readFramed_framed (fits_of_words hr hmax) hmax
  exact ⟨hr, hmax, he, hframe, framed_records_round_trip hr hmax [7] he hframe⟩

end Record

end EventStore
