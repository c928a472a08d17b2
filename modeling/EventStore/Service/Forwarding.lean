import EventStore.Store.World

/-!
# Forwarding client writes to the master

A replica that receives a client write forwards it to the master under a new internal correlation
identifier, and parks the client's envelope here until the master answers or the wait times out.
Whichever comes first replies to the client; the other finds nothing parked and does nothing, so
every parked client gets exactly one reply.
-/

namespace EventStore

/-- Clients waiting for writes forwarded to the master, by internal correlation identifier. -/
structure ForwardingProxy where
  pending : List (Uuid × Envelope) := []
  deriving Inhabited

namespace ForwardingProxy

/-- How many clients wait. -/
def len (p : ForwardingProxy) : Nat := p.pending.length

/-- Whether no client waits. -/
def isEmpty (p : ForwardingProxy) : Bool := p.pending.isEmpty

/-- The envelope parked under an identifier, with the proxy without it. -/
def take? (p : ForwardingProxy) (id : Uuid) : Option (Envelope × ForwardingProxy) :=
  (p.pending.lookup id).map fun e => (e, { pending := p.pending.filter (·.1 != id) })

/-- Parks an envelope under a new identifier, which it gives back. -/
def register {ε : Type} (p : ForwardingProxy) (e : Envelope) : WorldM ε (Uuid × ForwardingProxy) := do
  let id ← World.freshId
  pure (id, { pending := p.pending ++ [(id, e)] })

/-- Replies with the master's outcome; false when the client already had its reply. -/
def complete {ε : Type} (p : ForwardingProxy) (c : ForwardWriteCompleted) :
    WorldM ε (Bool × ForwardingProxy) :=
  match p.take? c.internalCorrId with
  | some (e, p') => do
    e.reply (.writeCompleted c.result c.firstPosition c.lastPosition)
    pure (true, p')
  | none => pure (false, p)

/-- Replies that the forwarded write timed out; false when the client already had its reply. -/
def timeout {ε : Type} (p : ForwardingProxy) (id : Uuid) : WorldM ε (Bool × ForwardingProxy) :=
  match p.take? id with
  | some (e, p') => do
    e.reply (.writeCompleted .forwardTimeout (-1) (-1))
    pure (true, p')
  | none => pure (false, p)

end ForwardingProxy

end EventStore
