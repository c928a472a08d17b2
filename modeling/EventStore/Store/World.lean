import EventStore.Disk
import EventStore.Store.Error
import EventStore.Bus.Message

/-!
# The world around a node's storage

What a node's storage acts on besides its own memory: the disk, the source of fresh identifiers,
and the traffic it sends out, which is messages on peer connections, closing of connections and
responses to clients. Everything a run holds in common between its nodes lives here.

Storage operations are actions on a state that may fail or stop the program; the state changes
made before a failure stay, as they would on a real disk. A loop whose end is not guaranteed is a
walk of steps run with fuel: running out of it is how a loop that goes on forever shows.
-/

namespace EventStore

/-- Something a node sent to the outside. -/
inductive Traffic where
  /-- A peer message queued on connection `conn`. -/
  | send (conn : Nat) (message : PeerMessage)
  /-- Connection `conn` asked to close. -/
  | close (conn : Nat)
  /-- A response to client `client`. -/
  | reply (client : Nat) (response : ClientResponse)
  deriving Inhabited

/-- Disk, fresh identifiers and outgoing traffic. -/
structure World where
  disk : Disk := {}
  /-- How many identifiers were made. -/
  fresh : Nat := 0
  /-- What was sent out since it was last collected, oldest first. -/
  traffic : Array Traffic := #[]
  deriving Inhabited

/-- Actions on the world that may fail with `ε` or stop the program. -/
abbrev WorldM (ε : Type) := ExceptT (Fault ε) (StateM World)

/-- The offset above which made-up identifiers lie, far from any a request names. -/
def freshIdBase : Nat := Nat.pow 2 100

/-- Fails with a reported error. -/
def fail {σ ε α : Type} (e : ε) : ExceptT (Fault ε) (StateM σ) α := throw (.error e)

/-- Stops the program. -/
def stop {σ ε α : Type} : ExceptT (Fault ε) (StateM σ) α := throw .panic

/-- Reports the failures of an action as failures of a wider kind. -/
def ExceptT.wrap {σ ε δ α : Type} (f : ε → δ) (m : ExceptT (Fault ε) (StateM σ) α) :
    ExceptT (Fault δ) (StateM σ) α :=
  ExceptT.adapt (Fault.map f) m

/-- Runs an action on a part of the state. -/
def ExceptT.focus {σ τ ε α : Type} (view : σ → τ) (update : σ → τ → σ)
    (m : ExceptT ε (StateM τ) α) : ExceptT ε (StateM σ) α :=
  ExceptT.mk fun s =>
    let (r, t) := (ExceptT.run m).run (view s)
    (r, update s t)

namespace World

/-- A new identifier, distinct from every other made in the run. -/
def freshId {ε : Type} : WorldM ε Uuid :=
  modifyGet fun w => (⟨freshIdBase + w.fresh⟩, { w with fresh := w.fresh + 1 })

/-- A new number, distinct from every other made in the run. -/
def freshNat {ε : Type} : WorldM ε Nat :=
  modifyGet fun w => (w.fresh, { w with fresh := w.fresh + 1 })

/-- Changes the disk. -/
def onDisk {ε : Type} (f : Disk → Disk) : WorldM ε Unit :=
  modify fun w => { w with disk := f w.disk }

/-- A disk operation that may fail. -/
def diskTry {ε α : Type} (wrapIo : IoError → ε) (f : Disk → Except IoError (Disk × α)) :
    WorldM ε α := do
  let w ← get
  match f w.disk with
  | .ok (d, a) =>
    set { w with disk := d }
    pure a
  | .error e => fail (wrapIo e)

/-- The disk as it is now. -/
def currentDisk {ε : Type} : WorldM ε Disk := do
  pure (← get).disk

/-- Sends traffic out. -/
def emit {ε : Type} (t : Traffic) : WorldM ε Unit :=
  modify fun w => { w with traffic := w.traffic.push t }

/-- How many messages were queued on a connection since traffic was last collected. -/
def backlog {ε : Type} (conn : Nat) : WorldM ε Nat := do
  pure ((← get).traffic.toList.filter fun
    | .send c _ => c == conn
    | _ => false).length

/-- Repeats a step from `x` until it gives a result, for at most `fuel` steps: the result, or
`none` when the steps ran out first. A step either goes on from a new place (`inl`) or ends the
walk (`inr`). -/
def walk {ε σ α : Type} (step : σ → WorldM ε (σ ⊕ α)) : Nat → σ → WorldM ε (Option α)
  | 0, _ => pure none
  | fuel + 1, x => do
    match ← step x with
    | .inl y => walk step fuel y
    | .inr a => pure (some a)

end World

/-- Sends a client response where its envelope says: to a client, or back over the connection a
forwarded write came in on (a refusal is not sent back: the forwarding node times out). -/
def Envelope.reply {ε : Type} (e : Envelope) (r : ClientResponse) : WorldM ε Unit :=
  match e, r with
  | .client k, r => World.emit (.reply k r)
  | .peer conn corr, .writeCompleted res first last =>
    World.emit (.send conn (.forwardWriteCompleted ⟨corr, res, first, last⟩))
  | .peer _ _, .notHandled _ => pure ()

end EventStore
