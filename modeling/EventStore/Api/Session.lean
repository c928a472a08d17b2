import EventStore.Doc.Bus
import EventStore.Cluster.Node

/-!
# Sessions

A session request carries a list of steps, at most 5000, run in order against one state. Each step
is read with the labels printed so far, run, and its answer printed at once, so that a later step
can name an identifier by the label an earlier answer gave it. A step that cannot be read answers
`{"error": "bad_input"}` (or `{"error": "panic"}` when building it stops the program) and changes
nothing but the identifiers recorded as given.
-/

namespace EventStore

namespace Api

/-- The answer when the program would have stopped on a broken internal rule. -/
def panicked : Doc := .error "panic"

/-- The most steps a session takes. -/
def maxSteps : Nat := 5000

/-- Runs steps in order: each is read and run by `step` against the state, and its answer printed
with the labels so far. Gives the printed answers, the labels and the final state. -/
def runSteps {σ : Type} (step : σ → Doc → Read (σ × Doc)) :
    List Doc → Labels → σ → List Doc × Labels × σ
  | [], L, s => ([], L, s)
  | d :: rest, L, s =>
    let (answer, L', s') : Doc × Labels × σ :=
      match (step s d).run L with
      | (.ok (s', a), L1) =>
        let (printed, L') := (a.render.run L1)
        (printed, L', s')
      | (.error e, L1) => (e.toDoc, L1, s)
    let (answers, L'', s'') := runSteps step rest L' s'
    (answer :: answers, L'', s'')

/-- The steps of a session request. -/
def readSteps (d : Doc) : Read (List Doc) := do
  let steps ← d.req "steps" Doc.items
  if steps.length ≤ maxSteps then pure steps else Read.reject

/-- Reads a node's identity; identifier and internal address are required. -/
def readNodeInfo (d : Doc) : Read NodeInfo := do
  pure ⟨← d.req "instance_id" Doc.toUuid, ← d.req "internal_tcp" Doc.toAddr,
    ← d.opt? "internal_secure_tcp" Doc.toAddr,
    ← d.reqD "external_tcp" Doc.toAddr (SocketAddr.loopback 0),
    ← d.opt? "external_secure_tcp" Doc.toAddr,
    ← d.reqD "external_http" Doc.toAddr (SocketAddr.loopback 0),
    ← d.reqD "node_priority" Doc.i32 0⟩

/-- Reads a progress. -/
def readProgress (d : Doc) : Read Progress := do
  pure ⟨← d.opt? "epoch" Epoch.read, ← d.reqD "writer" Doc.i64 0, ← d.reqD "chaser" Doc.i64 0,
    ← d.reqD "commit" Doc.i64 (-1)⟩

/-- A list of messages as printed in `out`, if there are any. -/
def outField (msgs : List Message) : Option Doc :=
  if msgs.isEmpty then none else some (.arr (msgs.map Message.toDoc))

end Api

end EventStore
