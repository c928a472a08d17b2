import EventStore.Proofs.Log.Frame
import EventStore.Peer.Message

/-!
# Fields read back

Every binary layout of the library is a sequence of fields, and every reader reads them in the
order they were written. `Decoder.Reads d bs a` says that `d`, run on `bs` followed by anything,
gives `a` and leaves what followed. It composes along a `do` block (`Reads.bind`), so a layout
reads back once each of its fields does.

A value reads back when its fields fit the widths the layout gives them (`Fits`): identifiers in
128 bits, signed numbers in their two's complement width, unsigned numbers below their bound,
IPv6 addresses with no scope (the layout does not carry one), and chunk headers of a version other
than zero, which the reader asserts. Counts and lengths are 32-bit numbers, so a list or a byte
string reads back when it has fewer than `2 ^ 32` items.

Main statements: `SocketAddr.reads_encode`, `Member.reads_encode`, `Epoch.reads_encode`,
`Candidacy.reads_encode`, `ChunkHeader.reads_encode`, `ChunkFooter.reads_encode`, and
`Decoder.reads_counted` for the lists of them; a position map, which has no count, reads back
entry by entry to its end (`PosMapEntry.decodeAll_flatMap`).
-/

namespace EventStore

namespace Decoder

variable {α β : Type}

/-- `d` reads `a` from `bs`, whatever follows, and leaves what follows. -/
def Reads (d : Decoder α) (bs : Bytes) (a : α) : Prop :=
  ∀ rest, d.run (bs ++ rest) = .ok (a, rest)

namespace Reads

variable {d : Decoder α} {bs bs' : Bytes} {a : α}

theorem pure (a : α) : Reads (Pure.pure a : Decoder α) [] a := fun _ => rfl

theorem of_eq (hd : Reads d bs a) (h : bs = bs') : Reads d bs' a := h ▸ hd

/-- A field that reads back, followed by the rest of a layout that reads back. -/
theorem bind {f : α → Decoder β} {b : β} (hd : Reads d bs a) (hf : Reads (f a) bs' b) :
    Reads (d >>= f) (bs ++ bs') b := by
  intro rest
  rw [List.append_assoc, run_bind (hd (bs' ++ rest))]
  exact hf rest

theorem map {f : α → β} (hd : Reads d bs a) : Reads (f <$> d) bs (f a) := by
  intro rest
  rw [map_eq_pure_bind, run_bind (hd rest)]
  rfl

/-- The last field of a layout, after which the value is built. -/
theorem bind_pure {f : α → β} (hd : Reads d bs a) : Reads (d >>= fun x => Pure.pure (f x)) bs (f a) := by
  intro rest
  rw [run_bind (hd rest)]
  rfl

theorem cons {b : UInt8} {f : Nat → Decoder β} {c : β} (hf : Reads (f b.toNat) bs c) :
    Reads (u8 >>= f) (b :: bs) c := by
  intro rest
  rw [List.cons_append, run_bind (u8_run b _)]
  exact hf rest

theorem singleton {b : UInt8} {f : Nat → Decoder β} {c : β} (hf : Reads (f b.toNat) bs c) :
    Reads (u8 >>= f) ([b] ++ bs) c :=
  cons hf

end Reads

theorem reads_unsigned {w n : Nat} (hn : n < Nat.pow 256 w) :
    Reads (unsigned w) (Bytes.ofNat w n) n :=
  unsigned_run hn

theorem reads_signed {w : Nat} {i : Int} (hi : i.bmod (Nat.pow 256 w) = i) :
    Reads (signed w) (Bytes.ofInt w i) i :=
  signed_run hi

theorem reads_i32 {i : Int} (hi : Word.signed 32 i = i) : Reads i32 (Bytes.ofInt 4 i) i :=
  @reads_signed 4 i hi

theorem reads_i64 {i : Int} (hi : Word.signed 64 i = i) : Reads i64 (Bytes.ofInt 8 i) i :=
  @reads_signed 8 i hi

theorem reads_u16 {n : Nat} (hn : n < Nat.pow 2 16) : Reads u16 (Bytes.ofNat 2 n) n :=
  @reads_unsigned 2 n hn

theorem reads_u32 {n : Nat} (hn : n < Nat.pow 2 32) : Reads u32 (Bytes.ofNat 4 n) n :=
  @reads_unsigned 4 n hn

theorem reads_u64 {n : Nat} (hn : n < Nat.pow 2 64) : Reads u64 (Bytes.ofNat 8 n) n :=
  @reads_unsigned 8 n hn

theorem reads_uuid {u : Uuid} (hu : u.value < Nat.pow 2 128) : Reads uuid (Bytes.ofUuid u) u :=
  uuid_run hu

theorem reads_sized {bs : Bytes} (h : bs.length < Nat.pow 2 32) : Reads sized (Bytes.sized bs) bs :=
  sized_run h

theorem reads_flag (b : Bool) : Reads flag [if b then 1 else 0] b := by
  intro rest
  unfold flag
  rw [List.singleton_append, run_bind (u8_run _ _)]
  cases b <;> rfl

theorem reads_magic (m : Bytes) : Reads (magic m) m () := by
  intro rest
  unfold magic
  rw [run_bind (take_run rfl rest), if_pos rfl]
  rfl

theorem reads_take {bs : Bytes} {n : Nat} (h : bs.length = n) : Reads (take n) bs bs :=
  take_run h

/-- Padding is skipped whatever bytes it holds. -/
theorem reads_skip {pad : Bytes} {n : Nat} (h : pad.length = n) : Reads (skip n) pad () := by
  intro rest
  subst h
  simp [run, skip, StateT.run]

/-- Values written one after another, each of which reads back, read back as the list. -/
theorem reads_many {enc : α → Bytes} {as : List α} (h : ∀ a ∈ as, Reads d (enc a) a) :
    Reads (many d as.length) (as.map enc).flatten as := by
  induction as with
  | nil => exact Reads.pure []
  | cons a as ih =>
    simp only [List.length_cons, List.map_cons, List.flatten_cons, many]
    exact (h a (by simp)).bind ((ih fun x hx => h x (by simp [hx])).bind_pure)

/-- A list after its 32-bit count reads back when it has fewer than `2 ^ 32` items. -/
theorem reads_counted {enc : α → Bytes} {as : List α} (h : ∀ a ∈ as, Reads d (enc a) a)
    (hlen : as.length < Nat.pow 2 32) :
    Reads (counted d) (Bytes.ofNat 4 as.length ++ (as.map enc).flatten) as := by
  unfold counted
  exact (reads_u32 hlen).bind (reads_many h)

end Decoder

open Decoder

/-- An identifier fits its sixteen bytes. -/
def Uuid.Fits (u : Uuid) : Prop := u.value < Nat.pow 2 128

instance : DecidablePred Uuid.Fits := fun u => inferInstanceAs (Decidable (u.value < _))

namespace SocketAddr

/-- The host fits its four or sixteen bytes and the port its two; an IPv6 address has no scope,
which the binary form does not carry. -/
def Fits : SocketAddr → Prop
  | ⟨.v4 bits, port⟩ => bits < Nat.pow 2 32 ∧ port < Nat.pow 2 16
  | ⟨.v6 bits scope, port⟩ => bits < Nat.pow 2 128 ∧ scope = 0 ∧ port < Nat.pow 2 16

instance : DecidablePred Fits
  | ⟨.v4 bits, port⟩ => inferInstanceAs (Decidable (bits < Nat.pow 2 32 ∧ port < Nat.pow 2 16))
  | ⟨.v6 bits scope, port⟩ =>
    inferInstanceAs (Decidable (bits < Nat.pow 2 128 ∧ scope = 0 ∧ port < Nat.pow 2 16))

theorem reads_encode {a : SocketAddr} (ha : a.Fits) : Reads decode a.encode a := by
  obtain ⟨host, port⟩ := a
  cases host with
  | v4 bits =>
    obtain ⟨hb, hp⟩ := ha
    unfold decode
    refine Reads.cons ?_
    -- the kind byte says IPv4: four host bytes and the port follow
    simp only [show (4 : UInt8).toNat = 4 from rfl, if_pos]
    exact (@reads_unsigned 4 _ hb).bind (reads_u16 hp).bind_pure
  | v6 bits scope =>
    obtain ⟨hb, rfl, hp⟩ := ha
    unfold decode
    refine Reads.cons ?_
    simp only [show (6 : UInt8).toNat = 6 from rfl, show (6 : Nat) ≠ 4 from by decide, if_false,
      if_pos]
    exact (@reads_unsigned 16 _ hb).bind (reads_u16 hp).bind_pure

theorem reads_encodeOpt {a : Option SocketAddr} (ha : ∀ x ∈ a, x.Fits) :
    Reads decodeOpt (encodeOpt a) a := by
  cases a with
  | none => exact Reads.cons (Reads.pure _)
  | some x =>
    unfold encodeOpt decodeOpt
    refine Reads.cons ?_
    simp only [show (1 : UInt8).toNat = 1 from rfl, show (1 : Nat) ≠ 0 from by decide, if_false]
    exact Reads.map (reads_encode (ha x rfl))

theorem length_encode_pos (a : SocketAddr) : 0 < a.encode.length := by
  obtain ⟨host, port⟩ := a
  cases host <;> simp [encode]

end SocketAddr

theorem NodeState.ofNat?_toNat (s : NodeState) : NodeState.ofNat? s.toNat = some s := by
  cases s <;> rfl

theorem NodeState.reads_toNat (s : NodeState) : Reads NodeState.decode [UInt8.ofNat s.toNat] s := by
  unfold NodeState.decode
  refine Reads.cons ?_
  have hs : (UInt8.ofNat s.toNat).toNat = s.toNat := by cases s <;> rfl
  rw [hs, NodeState.ofNat?_toNat]
  exact Reads.pure s

theorem WriteResult.ofNat?_toNat (r : WriteResult) : WriteResult.ofNat? r.toNat = some r := by
  cases r <;> rfl

theorem WriteResult.reads_toNat (r : WriteResult) :
    Reads WriteResult.decode [UInt8.ofNat r.toNat] r := by
  unfold WriteResult.decode
  refine Reads.cons ?_
  have hr : (UInt8.ofNat r.toNat).toNat = r.toNat := by cases r <;> rfl
  rw [hr, WriteResult.ofNat?_toNat]
  exact Reads.pure r

namespace Candidacy

/-- The numbers fit their 32- and 64-bit widths and the epoch identifier its sixteen bytes. -/
def Fits (c : Candidacy) : Prop :=
  Word.signed 32 c.epochNumber = c.epochNumber ∧ Word.signed 64 c.epochPosition = c.epochPosition ∧
    c.epochId.Fits ∧ Word.signed 64 c.lastCommitPosition = c.lastCommitPosition ∧
    Word.signed 64 c.writerCheckpoint = c.writerCheckpoint ∧
    Word.signed 64 c.chaserCheckpoint = c.chaserCheckpoint ∧
    Word.signed 32 c.nodePriority = c.nodePriority

theorem reads_encode {c : Candidacy} (hc : c.Fits) : Reads decode c.encode c := by
  obtain ⟨h₁, h₂, h₃, h₄, h₅, h₆, h₇⟩ := hc
  unfold encode decode
  simp only [List.append_assoc]
  exact (reads_i32 h₁).bind <| (reads_i64 h₂).bind <| (reads_uuid h₃).bind <|
    (reads_i64 h₄).bind <| (reads_i64 h₅).bind <| (reads_i64 h₆).bind <| (reads_i32 h₇).bind_pure

end Candidacy

namespace Member

/-- Every field fits the width the binary form gives it. -/
def Fits (m : Member) : Prop :=
  m.instanceId.Fits ∧ Word.signed 64 m.timeStamp = m.timeStamp ∧ m.internalTcp.Fits ∧
    (∀ a ∈ m.internalSecureTcp, a.Fits) ∧ m.externalTcp.Fits ∧
    (∀ a ∈ m.externalSecureTcp, a.Fits) ∧ m.externalHttp.Fits ∧
    Word.signed 64 m.lastCommitPosition = m.lastCommitPosition ∧
    Word.signed 64 m.writerCheckpoint = m.writerCheckpoint ∧
    Word.signed 64 m.chaserCheckpoint = m.chaserCheckpoint ∧
    Word.signed 64 m.epochPosition = m.epochPosition ∧
    Word.signed 32 m.epochNumber = m.epochNumber ∧ m.epochId.Fits ∧
    Word.signed 32 m.nodePriority = m.nodePriority

theorem reads_encode {m : Member} (hm : m.Fits) : Reads decode m.encode m := by
  obtain ⟨h₁, h₂, h₃, h₄, h₅, h₆, h₇, h₈, h₉, h₁₀, h₁₁, h₁₂, h₁₃, h₁₄⟩ := hm
  unfold encode decode
  simp only [List.append_assoc]
  exact (reads_uuid h₁).bind <| (reads_i64 h₂).bind <| (NodeState.reads_toNat _).bind <|
    (reads_flag _).bind <| (SocketAddr.reads_encode h₃).bind <|
    (SocketAddr.reads_encodeOpt h₄).bind <| (SocketAddr.reads_encode h₅).bind <|
    (SocketAddr.reads_encodeOpt h₆).bind <| (SocketAddr.reads_encode h₇).bind <|
    (reads_i64 h₈).bind <| (reads_i64 h₉).bind <| (reads_i64 h₁₀).bind <|
    (reads_i64 h₁₁).bind <| (reads_i32 h₁₂).bind <| (reads_uuid h₁₃).bind <|
    (reads_i32 h₁₄).bind_pure

theorem length_encode_pos (m : Member) : 0 < m.encode.length := by
  simp only [encode, List.length_append, Bytes.length_ofInt]
  omega

end Member

namespace Epoch

/-- The positions and the time stamp fit 64 bits, the number 32 bits and the identifiers their
sixteen bytes. -/
def Fits (e : Epoch) : Prop :=
  Word.signed 64 e.epochPosition = e.epochPosition ∧ Word.signed 32 e.epochNumber = e.epochNumber ∧
    e.epochId.Fits ∧ Word.signed 64 e.prevEpochPosition = e.prevEpochPosition ∧
    Word.signed 64 e.timeStamp = e.timeStamp ∧ e.leaderInstanceId.Fits

theorem reads_encode {e : Epoch} (he : e.Fits) : Reads decode e.encode e := by
  obtain ⟨h₁, h₂, h₃, h₄, h₅, h₆⟩ := he
  unfold encode decode
  simp only [List.append_assoc]
  exact (reads_i64 h₁).bind <| (reads_i32 h₂).bind <| (reads_uuid h₃).bind <|
    (reads_i64 h₄).bind <| (reads_i64 h₅).bind <| (reads_uuid h₆).bind_pure

@[simp] theorem length_encode (e : Epoch) : e.encode.length = 60 := by
  simp [encode, Bytes.ofUuid]

end Epoch

namespace ChunkHeader

/-- The version is a byte other than zero, as the reader asserts; the size and the chunk numbers
fit 32 bits, the identifier its sixteen bytes and the creation time 64 bits. -/
def Fits (h : ChunkHeader) : Prop :=
  0 < h.version ∧ h.version < Nat.pow 2 8 ∧ h.chunkSize < Nat.pow 2 32 ∧
    h.chunkStartNumber < Nat.pow 2 32 ∧ h.chunkEndNumber < Nat.pow 2 32 ∧ h.chunkId.Fits ∧
    Word.signed 64 h.creationTime = h.creationTime

theorem reads_encode {h : ChunkHeader} (hh : h.Fits) : Reads decode h.encode h := by
  obtain ⟨h₀, h₁, h₂, h₃, h₄, h₅, h₆⟩ := hh
  have hv : (UInt8.ofNat h.version).toNat = h.version := UInt8.toNat_ofNat_of_lt h₁
  unfold encode decode
  simp only [List.append_assoc]
  refine (reads_magic _).bind (Reads.singleton ?_)
  -- the version read is not zero, so the assertion passes
  rw [hv, if_neg (Nat.pos_iff_ne_zero.mp h₀)]
  exact (reads_u32 h₂).bind <| (reads_u32 h₃).bind <| (reads_u32 h₄).bind <|
    (reads_flag _).bind <| (reads_uuid h₅).bind <| (reads_i64 h₆).bind <|
    (reads_skip (List.length_replicate ..)).bind_pure

end ChunkHeader

namespace ChunkFooter

/-- The flags fit a byte, the sizes 32 bits and the logical size 64 bits, and the hash is 32
bytes long. -/
def Fits (f : ChunkFooter) : Prop :=
  f.flags < Nat.pow 2 8 ∧ f.physicalDataSize < Nat.pow 2 32 ∧
    Word.signed 64 f.logicalDataSize = f.logicalDataSize ∧ f.mapSize < Nat.pow 2 32 ∧
    f.hash.length = 32

theorem reads_encode {f : ChunkFooter} (hf : f.Fits) : Reads decode f.encode f := by
  obtain ⟨h₁, h₂, h₃, h₄, h₅⟩ := hf
  have hflags : (UInt8.ofNat f.flags).toNat = f.flags := UInt8.toNat_ofNat_of_lt h₁
  unfold encode decode
  simp only [List.append_assoc]
  refine (reads_magic _).bind (Reads.singleton ?_)
  rw [hflags]
  exact (reads_u32 h₂).bind <| (reads_i64 h₃).bind <| (reads_u32 h₄).bind <|
    (reads_take h₅).bind <| (reads_skip (List.length_replicate ..)).bind_pure

end ChunkFooter

namespace PosMapEntry

/-- The position fits 64 bits and the offset 32 bits. -/
def Fits (e : PosMapEntry) : Prop := e.logPos < Nat.pow 2 64 ∧ e.actualPos < Nat.pow 2 32

theorem reads_encode {e : PosMapEntry} (he : e.Fits) : Reads decode e.encode e :=
  (reads_u64 he.1).bind (reads_u32 he.2).bind_pure

@[simp] theorem length_encode (e : PosMapEntry) : e.encode.length = posMapEntrySize := by
  simp [encode, posMapEntrySize]

/-- Entries written one after another read back after those already read, given fuel for the
bytes left. -/
theorem decodeAll_go {es : List PosMapEntry} (hes : ∀ e ∈ es, e.Fits) {fuel : Nat}
    (hfuel : (es.flatMap encode).length ≤ fuel) (acc : List PosMapEntry) :
    decodeAll.go fuel (es.flatMap encode) acc = .ok (acc.reverse ++ es) := by
  induction es generalizing fuel acc with
  | nil =>
    cases fuel <;> simp [decodeAll.go]
  | cons e es ih =>
    -- each entry takes twelve bytes, so the fuel lasts
    obtain ⟨fuel, rfl⟩ : ∃ k, fuel = k + 1 :=
      Nat.exists_eq_add_one.mpr (by simp [posMapEntrySize] at hfuel; omega)
    have hne : (e.encode ++ es.flatMap encode).isEmpty = false := by
      cases hl : e.encode ++ es.flatMap encode with
      | nil => simpa [posMapEntrySize] using congrArg List.length hl
      | cons _ _ => rfl
    rw [List.flatMap_cons, decodeAll.go, if_neg (by simp [hne]),
      reads_encode (hes e (List.mem_cons_self ..)) (es.flatMap encode)]
    dsimp only
    rw [ih (fun x hx => hes x (List.mem_cons_of_mem _ hx)) (by simp [posMapEntrySize] at hfuel ⊢; omega)]
    simp

/-- A position map reads back from its entries' bytes. -/
theorem decodeAll_flatMap {es : List PosMapEntry} (hes : ∀ e ∈ es, e.Fits) :
    decodeAll (es.flatMap encode) = .ok es := by
  unfold decodeAll
  rw [decodeAll_go hes (Nat.le_refl _)]
  rfl

end PosMapEntry

end EventStore
