import EventStore.Codec.Decoder

/-!
# Node states

A node moves through these states as elections and replication go on. Each state has a byte
value, used on the wire. Catching up, cloning and being a slave are the replica states; shutting
down and shut down are the states of a node on its way out.
-/

namespace EventStore

/-- The state of a node in the cluster. -/
inductive NodeState where
  | initializing
  | unknown
  | preReplica
  | catchingUp
  | clone
  | slave
  | preMaster
  | master
  | manager
  | shuttingDown
  | shutdown
  deriving DecidableEq, Repr, Inhabited

namespace NodeState

/-- Every state, in the order of their byte values. -/
def all : List NodeState :=
  [initializing, unknown, preReplica, catchingUp, clone, slave, preMaster, master, manager,
    shuttingDown, shutdown]

/-- The byte value of a state. -/
def toNat : NodeState → Nat
  | initializing => 0
  | unknown => 1
  | preReplica => 2
  | catchingUp => 3
  | clone => 4
  | slave => 5
  | preMaster => 6
  | master => 7
  | manager => 8
  | shuttingDown => 9
  | shutdown => 10

/-- The state with a byte value, if any. -/
def ofNat? (n : Nat) : Option NodeState := all.find? (·.toNat == n)

/-- The name of a state. -/
def name : NodeState → String
  | initializing => "Initializing"
  | unknown => "Unknown"
  | preReplica => "PreReplica"
  | catchingUp => "CatchingUp"
  | clone => "Clone"
  | slave => "Slave"
  | preMaster => "PreMaster"
  | master => "Master"
  | manager => "Manager"
  | shuttingDown => "ShuttingDown"
  | shutdown => "Shutdown"

/-- The state with a name, if any. -/
def ofName? (s : String) : Option NodeState := all.find? (·.name == s)

/-- Whether the node copies the master's log. -/
def isReplica : NodeState → Bool
  | catchingUp | clone | slave => true
  | _ => false

/-- Whether the node is on its way out. -/
def isShuttingDown : NodeState → Bool
  | shuttingDown | shutdown => true
  | _ => false

/-- Reads a state byte; an unknown value is outside the enumeration. -/
def decode : Decoder NodeState := do
  let b ← Decoder.u8
  match ofNat? b with
  | some s => pure s
  | none => Decoder.fail .badEnumValue

end NodeState

/-- The outcome of a client write. -/
inductive WriteResult where
  | success
  | commitTimeout
  | forwardTimeout
  | invalidTransaction
  deriving DecidableEq, Repr, Inhabited

namespace WriteResult

/-- Every outcome, in the order of their byte values. -/
def all : List WriteResult := [success, commitTimeout, forwardTimeout, invalidTransaction]

/-- The byte value of an outcome. -/
def toNat : WriteResult → Nat
  | success => 0
  | commitTimeout => 2
  | forwardTimeout => 3
  | invalidTransaction => 6

/-- The outcome with a byte value, if any. -/
def ofNat? (n : Nat) : Option WriteResult := all.find? (·.toNat == n)

/-- The name of an outcome. -/
def name : WriteResult → String
  | success => "Success"
  | commitTimeout => "CommitTimeout"
  | forwardTimeout => "ForwardTimeout"
  | invalidTransaction => "InvalidTransaction"

/-- The outcome with a name, if any. -/
def ofName? (s : String) : Option WriteResult := all.find? (·.name == s)

/-- Reads an outcome byte; an unknown value is outside the enumeration. -/
def decode : Decoder WriteResult := do
  let b ← Decoder.u8
  match ofNat? b with
  | some r => pure r
  | none => Decoder.fail .badEnumValue

end WriteResult

end EventStore
