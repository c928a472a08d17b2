import EventStore.Api.Session
import EventStore.Election.Service

/-!
# Election sessions

`elections` drives one node's elections service message by message and shows, after each step,
its phase, installed view, master and what it published. `set_progress` changes the progress the
service reads.
-/

namespace EventStore

namespace Api

/-- The state of an elections session. -/
structure ElectionSession where
  cfg : ElectionConfig
  progress : Progress
  elections : Elections

/-- What a step shows of the service. -/
def ElectionSession.view (s : Elections) (out : List Message) : Doc :=
  .withOptional [("state", .str s.phase.name), ("installed_view", .int s.lastInstalledView),
    ("master", .ofUuid? s.master)] [("out", outField out)]

/-- One step: a bus message for the service, or a new progress. -/
def ElectionSession.step (es : ElectionSession) (d : Doc) : Read (ElectionSession × Doc) := do
  if d.has "set_progress" then
    let p ← d.req "set_progress" readProgress
    pure ({ es with progress := p }, ElectionSession.view es.elections [])
  else
    let m ← Message.read d
    let (s', out) := Elections.handle es.cfg es.progress es.elections m
    pure ({ es with elections := s' }, ElectionSession.view s' out)

/-- `elections`: one node's elections service, step by step. -/
def electionsSession (d : Doc) (L : Labels) : Except ReadFailure Doc := do
  let ((cfg, p, steps), L) ← (do
    let node ← d.req "node" readNodeInfo
    let p ← d.reqD "progress" readProgress { commit := 0 }
    let n ← d.req "cluster_size" Doc.u64
    let pt ← d.reqD "progress_timeout_ms" Doc.u64 1000
    let pi ← d.reqD "proof_interval_ms" Doc.u64 5000
    let steps ← readSteps d
    pure (({ node, clusterSize := n, progressTimeoutMs := pt, proofIntervalMs := pi } :
      ElectionConfig), p, steps) : Read _).setup L
  let es : ElectionSession := ⟨cfg, p, Elections.init cfg p wallClock⟩
  let (answers, _, _) := runSteps ElectionSession.step steps L es
  pure (.obj [("steps", .arr answers)])

end Api

end EventStore
