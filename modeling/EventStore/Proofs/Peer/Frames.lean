import EventStore.Proofs.Wire.Fields
import EventStore.Peer.Stream

/-!
# Streams of peer frames read back

A peer connection carries messages as frames: the body's length in four bytes, then the body, a
tag byte and the message's fields. A message whose fields fit their widths (`PeerMessage.Fits`)
reads back from its body (`PeerMessage.reads_encode`), and a frame whose body is within the frame
limit reads back as its message, consuming exactly the frame (`PeerMessage.readFrame_toFrame`).

Main statement: `PeerMessage.frames_read_back`. Reading messages off the frames of a list of
messages, laid one after another, gives the messages in order, as many as the reader asks for;
a reader that asks for more sees the stream end cleanly after the last frame.

The counts of the lists a message holds (gossip members, epochs, forwarded events) and the
lengths of its byte strings are 32-bit numbers: they need no assumption of their own, since a
body within the frame limit is far shorter than `2 ^ 32` bytes.
-/

namespace EventStore

open Decoder

/-- Both identifiers fit their sixteen bytes. -/
def SubscriptionRef.Fits (r : SubscriptionRef) : Prop := r.masterId.Fits ∧ r.subscriptionId.Fits

namespace PeerMessage

/-- Every field of the message fits the width its binary form gives it: identifiers and addresses
as in `Uuid.Fits` and `SocketAddr.Fits`, views and priorities in 32 bits, positions in 64 bits,
chunk numbers in 32 bits and sizes, offsets and heartbeat numbers in unsigned 64 bits. -/
def Fits : PeerMessage → Prop
  | viewChange m =>
    m.serverId.Fits ∧ m.serverInternal.Fits ∧ Word.signed 32 m.attemptedView = m.attemptedView
  | viewChangeProof m =>
    m.serverId.Fits ∧ m.serverInternal.Fits ∧ Word.signed 32 m.installedView = m.installedView
  | prepare m => m.serverId.Fits ∧ m.serverInternal.Fits ∧ Word.signed 32 m.view = m.view
  | prepareOk m =>
    Word.signed 32 m.view = m.view ∧ m.serverId.Fits ∧ m.serverInternal.Fits ∧ m.candidacy.Fits
  | proposal m =>
    m.serverId.Fits ∧ m.serverInternal.Fits ∧ m.masterId.Fits ∧ m.masterInternal.Fits ∧
      Word.signed 32 m.view = m.view ∧ m.candidacy.Fits
  | accept m =>
    m.serverId.Fits ∧ m.serverInternal.Fits ∧ m.masterId.Fits ∧ m.masterInternal.Fits ∧
      Word.signed 32 m.view = m.view
  | gossip sender members => sender.Fits ∧ ∀ x ∈ members, x.Fits
  | subscribeReplica m =>
    Word.signed 64 m.logPosition = m.logPosition ∧ m.chunkId.Fits ∧ (∀ e ∈ m.lastEpochs, e.Fits) ∧
      m.replicaId.Fits ∧ m.replicaInternal.Fits ∧ m.masterId.Fits ∧ m.subscriptionId.Fits
  | replicaSubscribed m =>
    m.masterId.Fits ∧ m.subscriptionId.Fits ∧
      Word.signed 64 m.subscriptionPosition = m.subscriptionPosition
  | replicaSubscriptionRetry r => r.Fits
  | createChunk m =>
    m.masterId.Fits ∧ m.subscriptionId.Fits ∧ m.chunkHeader.Fits ∧ m.fileSize < Nat.pow 2 64
  | rawChunkBulk m =>
    m.masterId.Fits ∧ m.subscriptionId.Fits ∧ m.chunkStartNumber < Nat.pow 2 32 ∧
      m.chunkEndNumber < Nat.pow 2 32 ∧ m.rawPosition < Nat.pow 2 64
  | dataChunkBulk m =>
    m.masterId.Fits ∧ m.subscriptionId.Fits ∧ m.chunkStartNumber < Nat.pow 2 32 ∧
      m.chunkEndNumber < Nat.pow 2 32 ∧
      Word.signed 64 m.subscriptionPosition = m.subscriptionPosition
  | ackLogPosition m =>
    m.subscriptionId.Fits ∧ Word.signed 64 m.replicationLogPosition = m.replicationLogPosition
  | writeAck m => m.subscriptionId.Fits ∧ Word.signed 64 m.logPosition = m.logPosition
  | slaveAssignment r => r.Fits
  | cloneAssignment r => r.Fits
  | forwardWrite m => m.internalCorrId.Fits
  | forwardWriteCompleted m =>
    m.internalCorrId.Fits ∧ Word.signed 64 m.firstPosition = m.firstPosition ∧
      Word.signed 64 m.lastPosition = m.lastPosition
  | heartbeatRequest n => n < Nat.pow 2 64
  | heartbeatResponse n => n < Nat.pow 2 64

theorem reads_decodeRef {r : SubscriptionRef} (hr : r.Fits) :
    Reads decodeRef (Bytes.ofUuid r.masterId ++ Bytes.ofUuid r.subscriptionId) r :=
  (reads_uuid hr.1).bind (reads_uuid hr.2).bind_pure

/-- Items laid one after another, none of them empty, take at least one byte each. -/
theorem length_le_length_flatten {α : Type} {f : α → Bytes} {l : List α}
    (h : ∀ a ∈ l, 0 < (f a).length) : l.length ≤ (l.map f).flatten.length := by
  induction l with
  | nil => simp
  | cons a as ih =>
    have ha := h a (by simp)
    have hs := ih fun x hx => h x (by simp [hx])
    simp only [List.length_cons, List.map_cons, List.flatten_cons, List.length_append]
    omega

/-- Every byte string of a list is shorter than the list laid out with their lengths. -/
theorem length_lt_of_mem_sized {bss : List Bytes} {bs : Bytes} (h : bs ∈ bss) :
    bs.length < (bss.map Bytes.sized).flatten.length := by
  induction bss with
  | nil => simp at h
  | cons b bss ih =>
    simp only [List.map_cons, List.flatten_cons, List.length_append, Bytes.sized,
      Bytes.length_ofNat]
    rcases List.mem_cons.mp h with rfl | h
    · omega
    · have := ih h
      omega

/-- The fields of a message read back under its tag when they fit their widths and take fewer than
`2 ^ 32` bytes. -/
theorem reads_encodeFields {m : PeerMessage} (hm : m.Fits)
    (hlen : m.encodeFields.length < Nat.pow 2 32) : Reads (decodeFields m.tag) m.encodeFields m := by
  cases m with
  | viewChange m =>
    obtain ⟨h₁, h₂, h₃⟩ := hm
    simp only [tag, decodeFields, encodeFields, List.append_assoc]
    exact (reads_uuid h₁).bind <| (SocketAddr.reads_encode h₂).bind (reads_i32 h₃).bind_pure
  | viewChangeProof m =>
    obtain ⟨h₁, h₂, h₃⟩ := hm
    simp only [tag, decodeFields, encodeFields, List.append_assoc]
    exact (reads_uuid h₁).bind <| (SocketAddr.reads_encode h₂).bind (reads_i32 h₃).bind_pure
  | prepare m =>
    obtain ⟨h₁, h₂, h₃⟩ := hm
    simp only [tag, decodeFields, encodeFields, List.append_assoc]
    exact (reads_uuid h₁).bind <| (SocketAddr.reads_encode h₂).bind (reads_i32 h₃).bind_pure
  | prepareOk m =>
    obtain ⟨h₁, h₂, h₃, h₄⟩ := hm
    simp only [tag, decodeFields, encodeFields, List.append_assoc]
    exact (reads_i32 h₁).bind <| (reads_uuid h₂).bind <| (SocketAddr.reads_encode h₃).bind
      (Candidacy.reads_encode h₄).bind_pure
  | proposal m =>
    obtain ⟨h₁, h₂, h₃, h₄, h₅, h₆⟩ := hm
    simp only [tag, decodeFields, encodeFields, List.append_assoc]
    exact (reads_uuid h₁).bind <| (SocketAddr.reads_encode h₂).bind <| (reads_uuid h₃).bind <|
      (SocketAddr.reads_encode h₄).bind <| (reads_i32 h₅).bind (Candidacy.reads_encode h₆).bind_pure
  | accept m =>
    obtain ⟨h₁, h₂, h₃, h₄, h₅⟩ := hm
    simp only [tag, decodeFields, encodeFields, List.append_assoc]
    exact (reads_uuid h₁).bind <| (SocketAddr.reads_encode h₂).bind <| (reads_uuid h₃).bind <|
      (SocketAddr.reads_encode h₄).bind (reads_i32 h₅).bind_pure
  | gossip sender members =>
    obtain ⟨h₁, h₂⟩ := hm
    -- the member count is below the body's length
    have hcount : members.length < Nat.pow 2 32 := by
      have := length_le_length_flatten (l := members) fun x _ => x.length_encode_pos
      simp only [encodeFields, List.length_append] at hlen
      omega
    simp only [tag, decodeFields, encodeFields, List.append_assoc]
    exact (SocketAddr.reads_encode h₁).bind
      (reads_counted (fun x hx => Member.reads_encode (h₂ x hx)) hcount).bind_pure
  | subscribeReplica m =>
    obtain ⟨h₁, h₂, h₃, h₄, h₅, h₆, h₇⟩ := hm
    have hcount : m.lastEpochs.length < Nat.pow 2 32 := by
      have := length_le_length_flatten (l := m.lastEpochs) (f := Epoch.encode) fun x _ => by simp
      simp only [encodeFields, List.length_append] at hlen
      omega
    simp only [tag, decodeFields, encodeFields]
    refine Reads.of_eq ((reads_i64 h₁).bind <| (reads_uuid h₂).bind <|
      (reads_counted (fun x hx => Epoch.reads_encode (h₃ x hx)) hcount).bind <|
      (reads_uuid h₄).bind <| (SocketAddr.reads_encode h₅).bind <| (reads_uuid h₆).bind
      (reads_uuid h₇).bind_pure) ?_
    simp only [List.append_assoc]
  | replicaSubscribed m =>
    obtain ⟨h₁, h₂, h₃⟩ := hm
    simp only [tag, decodeFields, encodeFields, List.append_assoc]
    exact (reads_uuid h₁).bind <| (reads_uuid h₂).bind (reads_i64 h₃).bind_pure
  | replicaSubscriptionRetry r =>
    simp only [tag, decodeFields, encodeFields]
    exact (reads_decodeRef hm).map
  | createChunk m =>
    obtain ⟨h₁, h₂, h₃, h₄⟩ := hm
    simp only [tag, decodeFields, encodeFields, List.append_assoc]
    exact (reads_uuid h₁).bind <| (reads_uuid h₂).bind <| (ChunkHeader.reads_encode h₃).bind <|
      (reads_u64 h₄).bind (reads_flag _).bind_pure
  | rawChunkBulk m =>
    obtain ⟨h₁, h₂, h₃, h₄, h₅⟩ := hm
    have hraw : m.rawBytes.length < Nat.pow 2 32 := by
      simp only [encodeFields, Bytes.sized, List.length_append] at hlen
      omega
    simp only [tag, decodeFields, encodeFields, List.append_assoc]
    exact (reads_uuid h₁).bind <| (reads_uuid h₂).bind <| (reads_u32 h₃).bind <|
      (reads_u32 h₄).bind <| (reads_u64 h₅).bind <| (reads_sized hraw).bind
      (reads_flag _).bind_pure
  | dataChunkBulk m =>
    obtain ⟨h₁, h₂, h₃, h₄, h₅⟩ := hm
    have hdata : m.dataBytes.length < Nat.pow 2 32 := by
      simp only [encodeFields, Bytes.sized, List.length_append] at hlen
      omega
    simp only [tag, decodeFields, encodeFields, List.append_assoc]
    exact (reads_uuid h₁).bind <| (reads_uuid h₂).bind <| (reads_u32 h₃).bind <|
      (reads_u32 h₄).bind <| (reads_i64 h₅).bind <| (reads_sized hdata).bind
      (reads_flag _).bind_pure
  | ackLogPosition m =>
    obtain ⟨h₁, h₂⟩ := hm
    simp only [tag, decodeFields, encodeFields]
    exact (reads_uuid h₁).bind (reads_i64 h₂).bind_pure
  | writeAck m =>
    obtain ⟨h₁, h₂⟩ := hm
    simp only [tag, decodeFields, encodeFields]
    exact (reads_uuid h₁).bind (reads_i64 h₂).bind_pure
  | slaveAssignment r =>
    simp only [tag, decodeFields, encodeFields]
    exact (reads_decodeRef hm).map
  | cloneAssignment r =>
    simp only [tag, decodeFields, encodeFields]
    exact (reads_decodeRef hm).map
  | forwardWrite m =>
    -- the event count and every event's length are below the body's length
    have hlens : ∀ e ∈ m.events, e.length < Nat.pow 2 32 := fun e he => by
      have := length_lt_of_mem_sized he
      simp only [encodeFields, List.length_append] at hlen
      omega
    have hcount : m.events.length < Nat.pow 2 32 := by
      have := length_le_length_flatten (l := m.events) (f := Bytes.sized) fun x _ => by
        simp only [Bytes.sized, List.length_append, Bytes.length_ofNat]
        omega
      simp only [encodeFields, List.length_append] at hlen
      omega
    simp only [tag, decodeFields, encodeFields, List.append_assoc]
    exact (reads_uuid hm).bind
      (reads_counted (fun e he => reads_sized (hlens e he)) hcount).bind_pure
  | forwardWriteCompleted m =>
    obtain ⟨h₁, h₂, h₃⟩ := hm
    simp only [tag, decodeFields, encodeFields, List.append_assoc]
    exact (reads_uuid h₁).bind <| (WriteResult.reads_toNat _).bind <| (reads_i64 h₂).bind
      (reads_i64 h₃).bind_pure
  | heartbeatRequest n =>
    simp only [tag, decodeFields, encodeFields]
    exact (reads_u64 hm).map
  | heartbeatResponse n =>
    simp only [tag, decodeFields, encodeFields]
    exact (reads_u64 hm).map

/-- A message whose fields fit reads back from its body when the body is within the frame limit. -/
theorem reads_encode {m : PeerMessage} (hm : m.Fits) (hmax : m.encode.length ≤ maxFrameSize) :
    Reads decode m.encode m := by
  have htag : (UInt8.ofNat m.tag).toNat = m.tag := by cases m <;> rfl
  have hlen : m.encodeFields.length < Nat.pow 2 32 := by
    have : maxFrameSize < Nat.pow 2 32 := by decide
    simp only [encode, List.length_cons] at hmax
    omega
  unfold decode encode
  refine Reads.cons ?_
  rw [htag]
  exact reads_encodeFields hm hlen

theorem ofBody_encode {m : PeerMessage} (hm : m.Fits) (hmax : m.encode.length ≤ maxFrameSize) :
    ofBody m.encode = .ok m := by
  have h := reads_encode hm hmax []
  rw [List.append_nil] at h
  rw [ofBody, h]
  rfl

theorem length_encode_pos (m : PeerMessage) : 0 < m.encode.length := by
  simp [encode]

/-- The prefix of a frame announces its body's length, a valid one when the body is within the
limit. -/
theorem frameLen_toFrame {m : PeerMessage} (hmax : m.encode.length ≤ maxFrameSize) :
    frameLen (m.toFrame.take 4) = some m.encode.length := by
  have hfits : m.encode.length < Nat.pow 256 4 := by
    have : maxFrameSize < Nat.pow 256 4 := by decide
    omega
  have hpos := length_encode_pos m
  unfold frameLen toFrame
  rw [List.take_left' (Bytes.length_ofNat 4 _), Bytes.toNat_ofNat, Nat.mod_eq_of_lt hfits,
    if_neg (by omega)]

theorem length_toFrame (m : PeerMessage) : m.toFrame.length = 4 + m.encode.length := by
  simp [toFrame]

/-- A frame read off the front of a stream gives its message and consumes exactly the frame. -/
theorem readFrame_toFrame {m : PeerMessage} (hm : m.Fits) (hmax : m.encode.length ≤ maxFrameSize)
    (rest : Bytes) : readFrame (m.toFrame ++ rest) = (.ok m, m.toFrame.length) := by
  have hpfx : (m.toFrame ++ rest).take 4 = m.toFrame.take 4 := by
    rw [List.take_append_of_le_length (by simp [length_toFrame])]
  have hbody : ((m.toFrame ++ rest).drop 4).take m.encode.length = m.encode := by
    simp only [toFrame, List.append_assoc]
    rw [List.drop_left' (Bytes.length_ofNat 4 _), List.take_left' rfl]
  unfold readFrame
  rw [hpfx, if_neg (by simp [length_toFrame]), frameLen_toFrame hmax]
  simp only
  rw [hbody, if_neg (Nat.lt_irrefl _), ofBody_encode hm hmax, length_toFrame]

/-- An empty stream ends at once. -/
theorem readFrame_nil : readFrame [] = (.error .ended, 0) := rfl

/-- Reading on from the frames of `ms` after `acc` and `used` bytes takes `n` more of the
messages, or all of them and then the end of the stream. -/
theorem readStream_go_frames {ms : List PeerMessage}
    (hms : ∀ m ∈ ms, m.Fits ∧ m.encode.length ≤ maxFrameSize) (n : Nat) (acc : List PeerMessage)
    (used : Nat) :
    readStream.go n (ms.flatMap toFrame) acc used =
      ⟨acc.reverse ++ ms.take n, if ms.length < n then some .ended else none,
        used + ((ms.take n).flatMap toFrame).length⟩ := by
  induction ms generalizing n acc used with
  | nil =>
    cases n with
    | zero => simp [readStream.go]
    | succ n => simp [readStream.go, readFrame_nil]
  | cons m ms ih =>
    cases n with
    | zero => simp [readStream.go]
    | succ n =>
      obtain ⟨hm, hmax⟩ := hms m (by simp)
      -- the first frame gives `m`; the rest of the stream is the frames of `ms`
      have hrest : (m.toFrame ++ ms.flatMap toFrame).drop m.toFrame.length = ms.flatMap toFrame :=
        List.drop_left
      rw [List.flatMap_cons, readStream.go, readFrame_toFrame hm hmax]
      simp only
      rw [hrest, ih (fun x hx => hms x (by simp [hx]))]
      simp only [List.reverse_cons, List.append_assoc, List.singleton_append, List.take_succ_cons,
        List.length_cons, Nat.add_lt_add_iff_right, List.flatMap_cons, List.length_append,
        Nat.add_assoc]

/-- Messages whose fields fit, each with a body within the frame limit, read back in order from
their frames laid one after another: a reader asking for `limit` messages gets the first `limit`
of them and consumes exactly their frames, and one asking for more gets them all and sees the
stream end after the last frame. Each frame announces its body's length, and each body holds its
message. -/
theorem frames_read_back {ms : List PeerMessage}
    (hms : ∀ m ∈ ms, m.Fits ∧ m.encode.length ≤ maxFrameSize) (limit : Nat) :
    readStream limit (ms.flatMap toFrame) =
        ⟨ms.take limit, if ms.length < limit then some .ended else none,
          ((ms.take limit).flatMap toFrame).length⟩ ∧
      ∀ m ∈ ms, frameLen (m.toFrame.take 4) = some m.encode.length ∧ ofBody m.encode = .ok m := by
  refine ⟨?_, fun m hm => ?_⟩
  · rw [readStream, readStream_go_frames hms]
    simp
  · obtain ⟨hfits, hmax⟩ := hms m hm
    exact ⟨frameLen_toFrame hmax, ofBody_encode hfits hmax⟩

/-- A heartbeat and a vote from an IPv6 address, read off their two frames by a reader that asks
for three messages. -/
theorem heartbeat_and_vote_read_back :
    (∀ m ∈ [heartbeatRequest 7, viewChange ⟨⟨1⟩, ⟨.v6 1 0, 1112⟩, -3⟩],
        m.Fits ∧ m.encode.length ≤ maxFrameSize) ∧
      (readStream 3 ([heartbeatRequest 7, viewChange ⟨⟨1⟩, ⟨.v6 1 0, 1112⟩, -3⟩].flatMap toFrame) =
          ⟨[heartbeatRequest 7, viewChange ⟨⟨1⟩, ⟨.v6 1 0, 1112⟩, -3⟩].take 3,
            if [heartbeatRequest 7, viewChange ⟨⟨1⟩, ⟨.v6 1 0, 1112⟩, -3⟩].length < 3 then
              some .ended else none,
            (([heartbeatRequest 7, viewChange ⟨⟨1⟩, ⟨.v6 1 0, 1112⟩, -3⟩].take 3).flatMap
              toFrame).length⟩ ∧
        ∀ m ∈ [heartbeatRequest 7, viewChange ⟨⟨1⟩, ⟨.v6 1 0, 1112⟩, -3⟩],
          frameLen (m.toFrame.take 4) = some m.encode.length ∧ ofBody m.encode = .ok m) := by
  have hms : ∀ m ∈ [heartbeatRequest 7, viewChange ⟨⟨1⟩, ⟨.v6 1 0, 1112⟩, -3⟩],
      m.Fits ∧ m.encode.length ≤ maxFrameSize := by
    intro m hm
    simp only [List.mem_cons, List.not_mem_nil, or_false] at hm
    rcases hm with rfl | rfl
    · exact ⟨show 7 < Nat.pow 2 64 by decide, by decide⟩
    · exact ⟨⟨by decide, by decide, by decide⟩, by decide⟩
  exact ⟨hms, frames_read_back hms 3⟩

end PeerMessage

end EventStore
