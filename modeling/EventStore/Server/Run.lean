import EventStore.Server.Basic

/-!
# Running a server

A server runs on a virtual clock. At an instant it works until nothing is left: the controller
takes a requested shutdown first and then its main queue message by message, handing what it
decides on to the services, which answer on the main queue; with the queue empty the chaser
chases, master replication pumps and gossip runs a round that was asked for. Then the server
waits for its next timer, gossip round or commit deadline.

The network carries nothing: every connection attempt fails, so peer messages are lost and a
replica never reaches its master.

A service that fails ends every loop of the server at once, as does the controller once it has
shut down.
-/

namespace EventStore

/-- A server with the world it shares with other servers and the time. -/
structure ServerRun where
  srv : Server
  world : World
  now : Nat
  deriving Inhabited

/-- Actions of a running server. -/
abbrev ServerM := StateM ServerRun

namespace Server

/-- The server. -/
def me : ServerM Server := do pure (← get).srv

/-- Changes the server. -/
def modifyMe (f : Server → Server) : ServerM Unit :=
  modify fun r => { r with srv := f r.srv }

/-- Appends messages to the main queue. -/
def enqueue (ms : List Message) : ServerM Unit :=
  modifyMe fun s => { s with queue := s.queue ++ ms }

/-- Ends every loop of the server. -/
def halt : ServerM Unit := modifyMe fun s => { s with halted := true }

/-- Runs an action of a storage service against the server's store; the service's messages go to
the main queue, its loop ends when it answers false, and a failure halts the server. -/
def runService {σ : Type} (get' : Server → σ) (set' : Server → σ → Server) (name : Service)
    (m : ActorM σ ServiceError Bool) : ServerM Unit := do
  let r ← get
  let (res, a) := (ExceptT.run m).run { store := { r.srv.store with world := r.world }, self := get' r.srv }
  set { r with world := a.store.world,
               srv := { set' r.srv a.self with store := { a.store with world := {} } } }
  enqueue a.outbox.toList
  match res with
  | .ok true => pure ()
  | .ok false => modifyMe fun s => { s with finished := s.finished ++ [name] }
  | .error _ => halt

/-- Runs the chaser: a message, if any, then a pass while the database is open. -/
def runChaser (msg : Option Message) : ServerM Unit :=
  runService (·.chaser) (fun s c => { s with chaser := c }) .storageChaser do
    let cont ← match msg with
      | some m => StorageChaser.handle m
      | none => pure true
    if cont && !(← get).store.db.isClosed then StorageChaser.chase
    pure cont

/-- Runs master replication: a message, if any, then a pump. -/
def runMaster (msg : Option Message) : ServerM Unit := do
  let now := (← get).now
  runService (·.master) (fun s m => { s with master := m }) .masterReplication do
    let cont ← match msg with
      | some m => MasterReplication.handle now m
      | none => pure true
    if cont then MasterReplication.pump now
    pure cont

/-- Runs a gossip round. -/
def gossipRound : ServerM Unit := do
  let r ← get
  let g := { r.srv.gossip with progress := r.srv.store.progress }
  let (out, g) := g.tick r.now wallClock
  modifyMe fun s => { s with gossip := g, nextRound := r.now + s.params.gossipInterval }
  enqueue out

/-- Hands a bus message to one service. -/
def deliver (msg : Message) (svc : Service) : ServerM Unit := do
  let s ← me
  if s.halted || s.finished.contains svc then return
  match svc with
  | .elections =>
    let (e, out) := Elections.handle s.electionConfig s.store.progress s.elections msg
    modifyMe fun s => { s with elections := e }
    enqueue out
  | .gossip =>
    let now := (← get).now
    modifyMe fun s => { s with gossip := s.gossip.handle msg now }
  | .storageWriter =>
    runService (·.writer) (fun s w => { s with writer := w }) .storageWriter (StorageWriter.handle msg)
  | .storageChaser => runChaser (some msg)
  | .replica =>
    runService (·.replica) (fun s x => { s with replica := x }) .replica do
      Replica.handle msg
      pure true
  | .masterReplication => runMaster (some msg)
  | .timer =>
    if let .schedule delay m := msg then
      let now := (← get).now
      modifyMe fun s =>
        { s with timers := Timer.insert ⟨now + delay, s.timerSeq, m⟩ s.timers,
                 timerSeq := s.timerSeq + 1 }
  | .peer => pure ()

/-- Hands a bus message to every service it is for, in bus order. -/
def route (msg : Message) : ServerM Unit := do
  for t in msg.targets do deliver msg t

/-- Closes the database, once; a failure to close is ignored. -/
def closeStore : ServerM Unit := do
  let r ← get
  let (_, store, world) := onStore r.srv.store r.world (Store.close (ε := DbError))
  set { r with world, srv := { r.srv with store } }

/-- The controller handles one message and hands on what it published; a controller that shut
down has closed the database and ends the server. -/
def control (msg : Message) : ServerM Unit := do
  let r ← get
  let ((), cr) := (Controller.handle msg).run { ctl := r.srv.controller, world := r.world }
  set { r with world := cr.world, srv := { r.srv with controller := cr.ctl } }
  if cr.ctl.dbClosed then closeStore
  if cr.ctl.nodeShuttingDown then halt
  else for m in cr.out do route m

/-- One turn of the controller: a requested shutdown it has not seen yet, else the oldest
message of the main queue; false with nothing to do. -/
def controllerTurn : ServerM Bool := do
  let s ← me
  if s.halted then return false
  if s.shutdownRequested && !s.shutdownSeen then
    modifyMe fun s => { s with shutdownSeen := true }
    control (.system .requestShutdown)
    return true
  match s.queue with
  | [] => return false
  | m :: rest =>
    modifyMe fun s => { s with queue := rest }
    control m
    return true

/-- What the services do while the main queue is empty: the chaser chases, master replication
pumps, and gossip runs a round that was asked for. -/
def idle : ServerM Unit := do
  if (← me).halted then return
  if !(← me).finished.contains .storageChaser then runChaser none
  if !(← me).finished.contains .masterReplication then runMaster none
  if (← me).gossip.roundRequested && !(← me).halted then gossipRound

/-- Works at the current instant until nothing is left; `fuel` bounds the number of turns. -/
def settle : Nat → ServerM Unit
  | 0 => pure ()
  | fuel + 1 => do
    if ← controllerTurn then settle fuel
    else
      idle
      let s ← me
      if !s.halted && !s.queue.isEmpty then settle fuel

/-- How many turns an instant may take. -/
def turnsPerInstant : Nat := 100000

/-- When the server next has something to do on its own: a timer, a gossip round or the
deadline of a pending write. -/
def nextEvent (s : Server) : Option Nat :=
  if s.halted then none
  else
    let deadline := if s.finished.contains .masterReplication then none
      else s.master.commits.pending.head?.map (·.deadline)
    let times := (s.timers.head?.map (·.due)).toList ++ [s.nextRound] ++ deadline.toList
    times.min?

/-- Moves the clock to `t` and does what is due by then: timers fire in order, gossip runs a
round if one is due, and the server settles. -/
def fireAt (t : Nat) : ServerM Unit := do
  modify fun r => { r with now := max r.now t }
  let now := (← get).now
  let s ← me
  if s.halted then return
  let due := s.timers.takeWhile (·.due ≤ now)
  modifyMe fun s => { s with timers := s.timers.drop due.length }
  enqueue (due.map (·.message))
  if (← me).nextRound ≤ now then gossipRound
  settle turnsPerInstant

/-- Lets time pass until `target`, handling every event on the way; `fuel` bounds the number of
events. -/
def advance (target : Nat) : Nat → ServerM Unit
  | 0 => modify fun r => { r with now := max r.now target }
  | fuel + 1 => do
    match nextEvent (← me) with
    | some t =>
      if t ≤ target then
        fireAt t
        advance target fuel
      else modify fun r => { r with now := max r.now target }
    | none => modify fun r => { r with now := max r.now target }

/-- How many events a wait may take. -/
def eventsPerWait : Nat := 100000

/-- Starts a server in directory `dir`, bound to `bound`, at `now`: it gossips at once, finds
`SystemInit` on its main queue and settles. -/
def start (dir : String) (p : ServerParams) (bound : SocketAddr) (w : World) (now : Nat) :
    Except StartFailure ServerRun × World :=
  match openStore dir p w with
  | (.error e, w) => (.error e, w)
  | (.ok store, w) =>
    let run : ServerM Unit := do
      gossipRound
      enqueue [.system .systemInit]
      settle turnsPerInstant
    let ((), r) := run.run { srv := ofStore p (infoOf p bound) store now, world := w, now }
    (.ok r, r.world)

/-- Submits a client write as client `client`. -/
def submitWrite (client : Nat) (events : List Bytes) (requireMaster : Bool) : ServerM Unit := do
  let r ← get
  let (res, world) := (ExceptT.run (World.freshId (ε := Empty))).run r.world
  set { r with world }
  let corr := match res with
    | .ok id => id
    | .error _ => Uuid.nil
  enqueue [.client (.writeEvents corr requireMaster events (.client client))]
  settle turnsPerInstant

/-- Asks the server to stop; it shuts down at the controller's next turn. -/
def requestStop : ServerM Unit := do
  modifyMe fun s => { s with shutdownRequested := true }
  settle turnsPerInstant

/-- Reads the data of every data record from `position` on, up to `stop`. -/
def dataFrom (stop : Int) : Nat → Int → StoreM DbError (List Bytes)
  | 0, _ => pure []
  | fuel + 1, position => do
    if stop ≤ position then return []
    match ← Store.readForward position with
    | none => pure []
    | some (r, next) =>
      let rest ← dataFrom stop fuel next
      match r with
      | .data d => pure (d.data :: rest)
      | .system _ => pure rest

/-- The data of every data record the chaser has passed, in log order. -/
def readEvents : ServerM (Option (List Bytes)) := do
  let r ← get
  let stop := r.srv.store.db.config.checkpoints.chaser.read
  let (res, store, world) := onStore r.srv.store r.world (do
    let fuel ← Store.recordBound
    dataFrom stop (fuel + 1) 0)
  set { r with world, srv := { r.srv with store } }
  match res with
  | .ok es => pure (some es)
  | .error _ => pure none

end Server

end EventStore
