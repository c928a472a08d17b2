import EventStore.Api.Session
import EventStore.Cluster.Gossip

/-!
# Gossip sessions

`gossip` drives one node's gossip service on a virtual clock: messages handed to it, rounds and
looks at its view of the cluster. Each step answers with the view when asked for it and the
messages the step published.
-/

namespace EventStore

namespace Api

/-- One step of a gossip session. -/
def gossipStep (g : GossipService) (d : Doc) : Read (GossipService × Doc) := do
  let now ← d.reqD "now_ms" Doc.u64 0
  match ← d.req "op" Doc.toStr with
  | "msg" => do
    let msg ← d.req "msg" Message.read
    pure (g.handle msg now, .obj [])
  | "tick" =>
    let (out, g') := g.tick now wallClock
    pure (g', .withOptional [] [("out", outField out)])
  | "cluster" =>
    pure (g, .obj [("cluster", .arr ((g.cluster now wallClock).map Member.toDoc))])
  | _ => Read.reject

/-- `gossip`: a node's gossip service, step by step. -/
def gossipSession (d : Doc) (L : Labels) : Except ReadFailure Doc := do
  let ((g, steps), L) ← (do
    let info ← d.req "node" readNodeInfo
    let progress ← d.reqD "progress" readProgress { commit := 0 }
    let seeds ← d.reqD "seeds" (Doc.toList Doc.toAddr) []
    let _ ← d.reqD "interval_ms" Doc.u64 1000
    let timeout ← d.reqD "timeout_ms" Doc.u64 2500
    let steps ← readSteps d
    pure (({ info, progress, seeds, timeoutMs := timeout } : GossipService), steps) : Read _).setup L
  let (answers, _, _) := runSteps gossipStep steps L g
  pure (.obj [("steps", .arr answers)])

end Api

end EventStore
