import EventStore.Store.BulkRead

/-!
# Storage services

A storage service of a node works on the node's store with a state of its own, and publishes
messages on the node's bus. An action of a service sees the three together; failures of the store
are reported as the service's failures (`ServiceError`).
-/

namespace EventStore

/-- A service at work: the node's store, the service's own state and what it published. -/
structure Actor (σ : Type) where
  store : Store
  self : σ
  /-- Messages published, oldest first. -/
  outbox : Array Message := #[]
  deriving Inhabited

/-- Actions of a service with state `σ`, failing with `ε` or stopping the program. -/
abbrev ActorM (σ ε : Type) := ExceptT (Fault ε) (StateM (Actor σ))

namespace Actor

/-- Runs a store action. -/
def onStore {σ ε α : Type} (m : StoreM ε α) : ActorM σ ε α :=
  ExceptT.focus (·.store) (fun a s => { a with store := s }) m

/-- Runs a store action whose failures are database failures. -/
def onDb {σ α : Type} (m : StoreM DbError α) : ActorM σ ServiceError α :=
  onStore (ExceptT.wrap ServiceError.db m)

/-- Runs a store action whose failures are epoch history failures. -/
def onEpochs {σ α : Type} (m : StoreM EpochError α) : ActorM σ ServiceError α :=
  onStore (ExceptT.wrap ServiceError.epoch m)

/-- Runs a world action. -/
def onWorld {σ ε α : Type} (m : WorldM ε α) : ActorM σ ε α := onStore (Store.onWorld m)

/-- The service's own state. -/
def me {σ ε : Type} : ActorM σ ε σ := do
  pure (← get).self

/-- Changes the service's own state. -/
def modifyMe {σ ε : Type} (f : σ → σ) : ActorM σ ε Unit :=
  modify fun a => { a with self := f a.self }

/-- Publishes a message on the node's bus. -/
def publish {σ ε : Type} (m : Message) : ActorM σ ε Unit :=
  modify fun a => { a with outbox := a.outbox.push m }

end Actor

end EventStore
