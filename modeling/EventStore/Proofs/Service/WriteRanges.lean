import EventStore.Proofs.Store.WriterPosition
import EventStore.Proofs.Log.RoundTrip
import EventStore.Proofs.Service.Hoare

/-!
# The ranges client writes report

A client write handled on the master appends a data record for each of its events, then publishes
a pending write with a range of log positions, and the flushed position. The range starts where the
writer stood before the write, which is not always where the write's first record is: a record that
does not fit what is left of a chunk goes to the start of the next chunk, and the rest of the old
chunk stays unused. A read from the range's start still finds exactly the write's records, since a
read at the end of a completed chunk's data goes on at the next chunk, and the range ends where the
last record ends. Writes handled one after another report ranges that follow each other.

The run of a write is taken apart with one inversion lemma per service primitive. What the records
written do to the log is carried as `Appended`, through the loop over the events
(`runs_writeLoop`), through a write (`runs_writeEvents`) and through writes one after another
(`runs_writeAll`). Where each write's records land (`Lands`) then reads back (`Lands.readsBack`).
-/

namespace EventStore

namespace Runs

variable {σ ε δ α : Type} {m : ExceptT (Fault ε) (StateM σ) α} {s s' : σ} {v : α}

/-- Reporting failures as failures of a wider kind changes nothing in a run that returns. -/
theorem wrap_inv {f : ε → δ} (h : Runs (ExceptT.wrap f m) s v s') : Runs m s v s' := by
  unfold Runs at h ⊢
  simp only [ExceptT.wrap, ExceptT.run_adapt, StateT.run_map] at h
  rcases hm : (ExceptT.run m).run s with ⟨_ | w, t⟩ <;> rw [hm] at h <;> cases h
  rfl

end Runs

namespace Actor

variable {σ ε α : Type} {a a' : Actor σ} {v : α}

/-- A store action run by a service returned, and moved the store only. -/
theorem runs_onStore_inv {m : StoreM ε α} (h : Runs (onStore m : ActorM σ ε α) a v a') :
    Runs m a.store v a'.store ∧ a'.self = a.self ∧ a'.outbox = a.outbox := by
  unfold Runs at h ⊢
  rw [onStore_run] at h
  rcases hm : (ExceptT.run m).run a.store with ⟨r, st⟩
  rw [hm] at h
  cases h
  exact ⟨rfl, rfl, rfl⟩

theorem runs_onDb_inv {m : StoreM DbError α} (h : Runs (onDb m : ActorM σ ServiceError α) a v a') :
    Runs m a.store v a'.store ∧ a'.self = a.self ∧ a'.outbox = a.outbox := by
  obtain ⟨hm, hself, hout⟩ := runs_onStore_inv h
  exact ⟨hm.wrap_inv, hself, hout⟩

theorem runs_me_inv {s : σ} (h : Runs (me : ActorM σ ε σ) a s a') : s = a.self ∧ a' = a := by
  unfold me at h
  obtain ⟨_, _, hg, hp⟩ := h.bind_inv
  obtain ⟨rfl, rfl⟩ := Runs.get_inv hg
  exact Runs.pure_inv hp

theorem runs_publish_inv {m : Message} {u : Unit} (h : Runs (publish m : ActorM σ ε Unit) a u a') :
    a' = { a with outbox := a.outbox.push m } :=
  Runs.modify_inv h

/-- A service whose store, own state and outbox are those of another is that service. -/
theorem eq_of_parts (hs : a'.store = a.store) (hself : a'.self = a.self)
    (hout : a'.outbox = a.outbox) : a' = a := by
  obtain ⟨st, self, out⟩ := a
  obtain ⟨st', self', out'⟩ := a'
  dsimp only at hs hself hout
  rw [hs, hself, hout]

/-- A store action that leaves the store as it is leaves the service as it is. -/
theorem runs_onStore_same {m : StoreM ε α} (h : Runs (onStore m : ActorM σ ε α) a v a')
    (hm : Runs m a.store v a'.store → a'.store = a.store) : Runs m a.store v a.store ∧ a' = a := by
  obtain ⟨h₁, hself, hout⟩ := runs_onStore_inv h
  have hst := hm h₁
  rw [hst] at h₁
  exact ⟨h₁, eq_of_parts hst hself hout⟩

end Actor

namespace Record

/-- A data record's frame is its data and `DataRecord.framedOverhead` bytes more. -/
theorem length_framed_data (d : DataRecord) :
    (data d).framed.length = d.data.length + DataRecord.framedOverhead := by
  rw [length_framed]
  simp [encode, Bytes.sized, Bytes.ofUuid, DataRecord.framedOverhead, frameOverhead]
  omega

/-- Where the last of the records `rs` ends, or `p` when there is none. -/
def lastEnd (p : Int) (rs : List Record) : Int :=
  (rs.map fun r => r.logPosition + (r.framed.length : Int)).getLastD p

@[simp] theorem lastEnd_nil (p : Int) : lastEnd p [] = p := rfl

theorem lastEnd_cons (p : Int) (r : Record) (rs : List Record) :
    lastEnd p (r :: rs) = lastEnd (r.logPosition + (r.framed.length : Int)) rs := by
  simp only [lastEnd, List.map_cons, List.getLastD_cons]

end Record

/-- A log with no chunk, on a disk with no chunk file in its directory, with the writer at its
start and the writer checkpoint written there, is laid out as the empty plan. -/
theorem Layout.fresh {s : Store} (hcs : 0 < s.db.config.chunkSize)
    (hlt : s.db.config.chunkSize < Nat.pow 2 31) (hch : s.db.chunks = [])
    (hord : s.world.disk.Ordered)
    (hnames : ∀ m, s.world.disk.find? s.db.config.dir (ChunkFileName.ofParts m 0) = none)
    (hpo : s.db.poisoned = false) (hpos : s.writer.position = 0)
    (hcp : s.db.config.checkpoints.writer.last = 0) (hcur : s.writer.current = none) :
    Layout s [] where
  laid :=
    { chunkSize_pos := hcs
      chunkSize_lt := hlt
      length := by rw [hch]; rfl
      numbers := Nat.zero_le _
      holds := fun _ _ h => absurd h (Nat.not_lt_zero _)
      full := fun _ h => by
        rw [hch] at h
        exact absurd h (Nat.not_lt_zero _)
      handles := by rw [hch]; exact List.nodup_nil
      fresh := fun c hc => by
        rw [hch] at hc
        cases hc
      files := by rw [hch]; exact List.nodup_nil
      ordered := hord
      names := fun m _ => hnames m }
  sound := hpo
  position := .inl (by rw [hpos]; simp [planEnd])
  written := by rw [hcp, hpos]
  current := fun h hh => by
    rw [hcur] at hh
    cases hh

namespace StorageWriter

open Record

variable {a a' : Actor StorageWriter} {plan : List (List Record)} {c : Uuid} {events : List Bytes}

/-- The data record a client write builds for one of its events, at the position it lands at. -/
def eventRecord (c : Uuid) (e : Bytes) (p : Int) : Record := .data ⟨p, wallClock, c, e⟩

/-- The records a client write builds for its events, landed at the positions `starts`. -/
def eventRecords (c : Uuid) (events : List Bytes) (starts : List Int) : List Record :=
  List.zipWith (eventRecord c) events starts

@[simp] theorem eventRecords_nil (c : Uuid) (starts : List Int) :
    eventRecords c [] starts = [] := rfl

@[simp] theorem eventRecords_cons (c : Uuid) (e : Bytes) (events : List Bytes) (p : Int)
    (starts : List Int) :
    eventRecords c (e :: events) (p :: starts) = eventRecord c e p :: eventRecords c events starts :=
  rfl

/-- A client write's record, for an identifier of 128 bits and an event whose record is no longer
than the largest record, stands at the position it is built for and reads back. -/
theorem builds_eventRecord {e : Bytes} (hc : c.Fits)
    (he : e.length + DataRecord.framedOverhead ≤ maxRecordSize + frameOverhead) :
    Builds (eventRecord c e) := by
  intro p h0 h1
  have hmax : (eventRecord c e p).encode.length ≤ maxRecordSize := by
    have hlen := length_framed_data ⟨p, wallClock, c, e⟩
    rw [length_framed] at hlen
    exact Nat.le_of_add_le_add_right (Nat.le_trans (Nat.le_of_eq hlen) he)
  have hclock : Word.signed 64 wallClock = wallClock := Word.pos_of_lt (by decide) (by decide)
  exact ⟨rfl, Record.fits_of_words ⟨Word.pos_of_lt h0 h1, hclock, hc⟩ hmax, hmax⟩

/-- The events of a client write, written one after another from where the writer stands: each
record is appended, the loop carries the position after the last one, and only the store moves. -/
theorem runs_writeLoop {last last' : Int} (hl : Layout a.store plan)
    (hb : ∀ e ∈ events, Builds (eventRecord c e)) (hlast : last = a.store.writer.position)
    (h : Runs (forIn events last fun e _ => do
        let (_, finish) ← Actor.onDb (Store.writeRecord (eventRecord c e))
        pure (ForInStep.yield finish)) a last' a') :
    ∃ plan' starts, starts.length = events.length ∧
      Appended a.store plan a'.store plan' (eventRecords c events starts) ∧
      lastEnd last (eventRecords c events starts) = last' ∧ last' = a'.store.writer.position ∧
      a'.self = a.self ∧ a'.outbox = a.outbox := by
  -- one event at a time, each written on the layout the one before left
  induction events generalizing a plan last with
  | nil =>
    rw [List.forIn_nil] at h
    obtain ⟨rfl, rfl⟩ := Runs.pure_inv h
    exact ⟨plan, [], rfl, Appended.refl hl, rfl, hlast, rfl, rfl⟩
  | cons e es ih =>
    rw [List.forIn_cons] at h
    obtain ⟨step, a₁, hstep, hrest⟩ := h.bind_inv
    obtain ⟨⟨st, en⟩, a₀, hw, hy⟩ := hstep.bind_inv
    obtain ⟨rfl, rfl⟩ := Runs.pure_inv hy
    obtain ⟨hw', hself₀, hout₀⟩ := Actor.runs_onDb_inv hw
    obtain ⟨plan₁, happ₁, hpos, hen, hwr⟩ :=
      Appended.writeRecord hl (hb e (List.mem_cons_self ..)) hw'
    obtain ⟨plan', starts, hlen, happ, hend, hlast', hself, hout⟩ :=
      ih happ₁.layout (fun e' he' => hb e' (List.mem_cons_of_mem _ he')) hwr.symm hrest
    refine ⟨plan', st :: starts, by simp [hlen], happ₁.trans happ, ?_, hlast',
      hself.trans hself₀, hout.trans hout₀⟩
    rw [eventRecords_cons, lastEnd_cons, hpos, ← hen]
    exact hend

/-- A client write on the master whose events fit a chunk appends the write's records, landed at
some positions, and publishes a pending write with the range from where the writer stood to where
it stands after them, which is where the last of them ends, then the position flushed, which is the
range's end. -/
theorem runs_writeEvents {env : Envelope} {u : Unit} (hl : Layout a.store plan)
    (hm : a.self.state = .master)
    (hfit : ∀ e ∈ events, e.length + DataRecord.framedOverhead ≤ a.store.db.config.chunkSize)
    (hb : ∀ e ∈ events, Builds (eventRecord c e)) (h : Runs (writeEvents c events env) a u a') :
    ∃ plan' starts, starts.length = events.length ∧
      Appended a.store plan a'.store plan' (eventRecords c events starts) ∧
      lastEnd a.store.writer.position (eventRecords c events starts) = a'.store.writer.position ∧
      a'.outbox = (a.outbox.push (.storage (.writePending c env a.store.writer.position
        a'.store.writer.position))).push (.storage (.flushed a'.store.writer.position)) ∧
      a'.self = a.self := by
  unfold writeEvents at h
  -- the state is master, and no event is too large for a chunk
  obtain ⟨me, a₀, hme, h₀⟩ := h.bind_inv
  obtain ⟨rfl, ha₀⟩ := Actor.runs_me_inv hme
  subst a₀
  rw [if_neg fun hne => hne hm] at h₀
  obtain ⟨cfg, a₁, hcfg, h₁⟩ := h₀.bind_inv
  obtain ⟨hcfg', ha₁⟩ := Actor.runs_onStore_same hcfg fun hr => (Store.runs_config_inv hr).2
  subst a₁
  obtain ⟨rfl, -⟩ := Store.runs_config_inv hcfg'
  have hsmall : ¬(events.any fun e =>
      decide (a.store.db.config.chunkSize < e.length + DataRecord.framedOverhead)) = true := by
    simp only [List.any_eq_true, decide_eq_true_eq, not_exists, not_and, Nat.not_lt]
    exact hfit
  rw [if_neg hsmall] at h₁
  -- the writer position, then the loop over the events
  obtain ⟨w, a₂, hw, h₂⟩ := h₁.bind_inv
  obtain ⟨hw', ha₂⟩ := Actor.runs_onStore_same hw fun hr => (Store.runs_theWriter_inv hr).2
  subst a₂
  obtain ⟨rfl, -⟩ := Store.runs_theWriter_inv hw'
  obtain ⟨last, a₃, hloop, h₃⟩ := h₂.bind_inv
  obtain ⟨plan', starts, hlen, happ, hend, hlast, hself₃, hout₃⟩ := runs_writeLoop hl hb rfl hloop
  -- the flush, then the two messages
  obtain ⟨_, a₄, hfl, h₄⟩ := h₃.bind_inv
  obtain ⟨hfl', hself₄, hout₄⟩ := Actor.runs_onStore_inv hfl
  obtain ⟨happ₄, hwr₄⟩ := Appended.flushWriter happ.layout hfl'
  obtain ⟨_, a₅, hp₅, h₅⟩ := h₄.bind_inv
  have ha₅ := Actor.runs_publish_inv hp₅
  subst a₅
  obtain ⟨w', a₆, hw₆, h₆⟩ := h₅.bind_inv
  obtain ⟨hw₆', ha₆⟩ := Actor.runs_onStore_same hw₆ fun hr => (Store.runs_theWriter_inv hr).2
  subst a₆
  obtain ⟨rfl, -⟩ := Store.runs_theWriter_inv hw₆'
  have ha' := Actor.runs_publish_inv h₆
  subst a'
  have hpos : a₄.store.writer.position = last := by rw [hwr₄, hlast]
  refine ⟨plan', starts, hlen, by simpa using happ.trans happ₄, ?_, ?_, hself₄.trans hself₃⟩
  · rw [hend]
    exact hpos.symm
  · simp only [hpos, hout₄, hout₃]

/-! ## Writes one after another -/

/-- The messages client writes publish when they report, one after another, the ranges from
`first` through the positions `ps`: for each write a pending write with its range, then the
position flushed, which is the range's end. -/
def writeReports : List (Uuid × List Bytes × Envelope) → Int → List Int → List Message
  | w :: ws, first, last :: ps =>
    .storage (.writePending w.1 w.2.2 first last) :: .storage (.flushed last) ::
      writeReports ws last ps
  | _, _, _ => []

/-- Each of the client writes `ws`, which reported one after another the ranges from `first`
through the positions `ps`, one range per write, meets `P` with its range. -/
def EachRange (P : Uuid × List Bytes × Envelope → Int → Int → Prop) :
    List (Uuid × List Bytes × Envelope) → Int → List Int → Prop
  | [], _, [] => True
  | w :: ws, first, last :: ps => P w first last ∧ EachRange P ws last ps
  | _, _, _ => False

theorem EachRange.mono {P Q : Uuid × List Bytes × Envelope → Int → Int → Prop}
    (hPQ : ∀ w first last, P w first last → Q w first last)
    {ws : List (Uuid × List Bytes × Envelope)} {first : Int} {ps : List Int}
    (h : EachRange P ws first ps) : EachRange Q ws first ps := by
  induction ws generalizing first ps with
  | nil =>
    cases ps with
    | nil => trivial
    | cons _ _ => exact (h : False).elim
  | cons w ws ih =>
    cases ps with
    | nil => exact (h : False).elim
    | cons last ps => exact ⟨hPQ _ _ _ h.1, ih h.2⟩

/-- Where a client write that reported the range from `first` to `last` left its records in the
log of `plan`: a read can start at `first`, the records after it are the write's, landed at some
positions before `last`, the last of them ending there, and then records at or past `last`. -/
def Lands (cs : Nat) (plan : List (List Record)) (w : Uuid × List Bytes × Envelope)
    (first last : Int) : Prop :=
  ∃ starts later, starts.length = w.2.1.length ∧
    After cs plan first (eventRecords w.1 w.2.1 starts ++ later) ∧
    (∀ r ∈ eventRecords w.1 w.2.1 starts, r.logPosition < last) ∧
    (∀ r ∈ later, last ≤ r.logPosition) ∧ lastEnd first (eventRecords w.1 w.2.1 starts) = last

/-- What a read finds of a client write that reported the range from `first` to `last`: from
`first` and below `last`, exactly the write's events, in order, as data records with the write's
correlation identifier, the last of them ending at `last`. -/
def ReadsBack (s : Store) (w : Uuid × List Bytes × Envelope) (first last : Int) : Prop :=
  ∃ starts : List Int, starts.length = w.2.1.length ∧
    Scans s last first ((eventRecords w.1 w.2.1 starts).map Record.entry) ∧
    lastEnd first (eventRecords w.1 w.2.1 starts) = last

theorem Lands.readsBack {s : Store} {w : Uuid × List Bytes × Envelope} {first last : Int}
    (hl : Layout s plan) (hn : s.db.chunks.length < Nat.pow 2 32)
    (h : Lands s.db.config.chunkSize plan w first last) : ReadsBack s w first last := by
  obtain ⟨starts, later, hlen, hafter, hmine, hlater, hend⟩ := h
  exact ⟨starts, hlen, hafter.scans_below hl hn hmine hlater, hend⟩

/-- Client writes handled one after another on the master, their events fitting a chunk, append
their records and publish, for each write, its range and the flushed position. The ranges follow
each other from where the writer stood and never go back, and each write's records land in its
range. -/
theorem runs_writeAll {ws : List (Uuid × List Bytes × Envelope)} {u : Unit}
    (hl : Layout a.store plan) (hm : a.self.state = .master)
    (hfit : ∀ w ∈ ws, ∀ e ∈ w.2.1,
      e.length + DataRecord.framedOverhead ≤ a.store.db.config.chunkSize)
    (hb : ∀ w ∈ ws, ∀ e ∈ w.2.1, Builds (eventRecord w.1 e))
    (h : Runs (ws.forM fun w => writeEvents w.1 w.2.1 w.2.2) a u a') :
    ∃ plan' ps added, Appended a.store plan a'.store plan' added ∧
      a'.outbox.toList = a.outbox.toList ++ writeReports ws a.store.writer.position ps ∧
      a'.self = a.self ∧ List.Pairwise (· ≤ ·) (a.store.writer.position :: ps) ∧
      EachRange (Lands a.store.db.config.chunkSize plan') ws a.store.writer.position ps := by
  -- one write at a time; the later writes' records come after the earlier writes' ranges
  induction ws generalizing a plan with
  | nil =>
    rw [List.forM_eq_forM, List.forM_nil] at h
    obtain ⟨-, rfl⟩ := Runs.pure_inv h
    exact ⟨plan, [], [], Appended.refl hl, by simp [writeReports], rfl, List.pairwise_singleton _ _,
      trivial⟩
  | cons w ws ih =>
    rw [List.forM_eq_forM, List.forM_cons, ← List.forM_eq_forM] at h
    obtain ⟨_, a₁, h₁, h₂⟩ := h.bind_inv
    have hw : w ∈ w :: ws := List.mem_cons_self ..
    obtain ⟨plan₁, starts, hlen, happ₁, hend, hout₁, hself₁⟩ :=
      runs_writeEvents hl hm (hfit w hw) (hb w hw) h₁
    obtain ⟨plan', ps, added, happ, hout, hself, hchain, heach⟩ :=
      ih happ₁.layout (by rw [hself₁]; exact hm)
        (fun w' hw' => by rw [happ₁.chunkSize]; exact hfit w' (List.mem_cons_of_mem _ hw'))
        (fun w' hw' => hb w' (List.mem_cons_of_mem _ hw')) h₂
    -- a read from the first range's start finds the first write's records, then the later ones
    have hafter₁ := happ₁.after (After.of_layout hl) (Int.le_refl _)
    rw [← happ₁.chunkSize] at hafter₁
    have hafter := happ.after hafter₁ happ₁.advances
    rw [happ₁.chunkSize, List.nil_append] at hafter
    -- the later positions are at or past the first write's end, which is past its start
    have hsorted : List.Pairwise (· ≤ ·) (a.store.writer.position :: a₁.store.writer.position :: ps) := by
      refine List.pairwise_cons.2 ⟨fun x hx => ?_, hchain⟩
      rcases List.mem_cons.1 hx with rfl | hx
      · exact happ₁.advances
      · exact Int.le_trans happ₁.advances (List.pairwise_cons.1 hchain |>.1 x hx)
    refine ⟨plan', a₁.store.writer.position :: ps, eventRecords w.1 w.2.1 starts ++ added,
      happ₁.trans happ, ?_, hself.trans hself₁, hsorted,
      ⟨starts, added, hlen, hafter, fun r hr => (happ₁.between r hr).2,
        fun r hr => (happ.between r hr).1, hend⟩, ?_⟩
    · simp [writeReports, hout, hout₁]
    · rw [← happ₁.chunkSize]
      exact heach

/-- Client writes handled one after another on the master, each event fitting a chunk and a
record, publish for each write a pending write with a range and then the flushed position, the
range's end. The ranges follow each other from where the writer stood and never go back, so they
are disjoint and in order, and each range reads back as exactly its write's events, in order, the
last ending at the range's end. A range starts where the writer stood, which is its first record's
position only when that record fit what was left of the chunk. -/
theorem client_writes_report_their_ranges {ws : List (Uuid × List Bytes × Envelope)} {u : Unit}
    (hl : Layout a.store plan) (hm : a.self.state = .master) (hc : ∀ w ∈ ws, w.1.Fits)
    (hfit : ∀ w ∈ ws, ∀ e ∈ w.2.1,
      e.length + DataRecord.framedOverhead ≤ a.store.db.config.chunkSize)
    (hmax : ∀ w ∈ ws, ∀ e ∈ w.2.1,
      e.length + DataRecord.framedOverhead ≤ maxRecordSize + frameOverhead)
    (h : Runs (ws.forM fun w => writeEvents w.1 w.2.1 w.2.2) a u a')
    (hn : a'.store.db.chunks.length < Nat.pow 2 32) :
    ∃ ps : List Int,
      a'.outbox.toList = a.outbox.toList ++ writeReports ws a.store.writer.position ps ∧
      List.Pairwise (· ≤ ·) (a.store.writer.position :: ps) ∧
      EachRange (ReadsBack a'.store) ws a.store.writer.position ps := by
  have hb : ∀ w ∈ ws, ∀ e ∈ w.2.1, Builds (eventRecord w.1 e) :=
    fun w hw e he => builds_eventRecord (hc w hw) (hmax w hw e he)
  obtain ⟨plan', ps, _, happ, hout, -, hchain, heach⟩ := runs_writeAll hl hm hfit hb h
  refine ⟨ps, hout, hchain, heach.mono fun w first last hw => ?_⟩
  rw [← happ.chunkSize] at hw
  exact hw.readsBack happ.layout hn

/-- A storage writer in master state on a fresh log with chunks of 256 bytes. -/
def freshMaster : Actor StorageWriter where
  store := smallEmptyLog
  self := { instanceId := ⟨1⟩, state := .master }

/-- Two client writes, of two events and of one. -/
def twoWrites : List (Uuid × List Bytes × Envelope) :=
  [(⟨7⟩, [[1, 2, 3], [4]], .client 1), (⟨8⟩, [[5, 6]], .client 2)]

/-- Two client writes on a fresh master report ranges that read back as their events. -/
theorem two_writes_report_their_ranges :
    let a' := ((ExceptT.run (twoWrites.forM fun w => writeEvents w.1 w.2.1 w.2.2)).run
      freshMaster).2
    Layout freshMaster.store [] ∧ freshMaster.self.state = .master ∧
      (∀ w ∈ twoWrites, w.1.Fits) ∧
      (∀ w ∈ twoWrites, ∀ e ∈ w.2.1,
        e.length + DataRecord.framedOverhead ≤ freshMaster.store.db.config.chunkSize) ∧
      (∀ w ∈ twoWrites, ∀ e ∈ w.2.1,
        e.length + DataRecord.framedOverhead ≤ maxRecordSize + frameOverhead) ∧
      Runs (twoWrites.forM fun w => writeEvents w.1 w.2.1 w.2.2) freshMaster () a' ∧
      a'.store.db.chunks.length < Nat.pow 2 32 ∧
      ∃ ps : List Int, a'.outbox.toList =
          freshMaster.outbox.toList ++ writeReports twoWrites freshMaster.store.writer.position ps ∧
        List.Pairwise (· ≤ ·) (freshMaster.store.writer.position :: ps) ∧
        EachRange (ReadsBack a'.store) twoWrites freshMaster.store.writer.position ps := by
  intro a'
  have hl : Layout freshMaster.store [] :=
    Layout.fresh (by decide) (by decide) rfl (fun _ => List.Pairwise.nil) (fun _ => rfl) rfl rfl
      rfl rfl
  have hc : ∀ w ∈ twoWrites, w.1.Fits := by decide
  have hfit : ∀ w ∈ twoWrites, ∀ e ∈ w.2.1,
      e.length + DataRecord.framedOverhead ≤ freshMaster.store.db.config.chunkSize := by decide
  have hmax : ∀ w ∈ twoWrites, ∀ e ∈ w.2.1,
      e.length + DataRecord.framedOverhead ≤ maxRecordSize + frameOverhead := by decide
  have hrun : Runs (twoWrites.forM fun w => writeEvents w.1 w.2.1 w.2.2) freshMaster () a' :=
    Runs.of_toOption (by decide +kernel)
  have hn : a'.store.db.chunks.length < Nat.pow 2 32 := by decide +kernel
  exact ⟨hl, rfl, hc, hfit, hmax, hrun, hn,
    client_writes_report_their_ranges hl rfl hc hfit hmax hrun hn⟩

end StorageWriter

end EventStore
