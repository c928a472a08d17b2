import EventStore.Api.Traffic
import EventStore.Service.Forwarding

/-!
# Forwarding proxy sessions

`forwarding` parks client envelopes, completes them and times them out, step by step. Each step
answers with its result, how many clients wait and whether none does, and the replies and peer
traffic it caused.
-/

namespace EventStore

namespace Api

/-- The state of a forwarding session: the proxy and the world its replies go to. -/
structure ForwardingBench where
  proxy : ForwardingProxy := {}
  world : World := {}
  deriving Inhabited

/-- One step of a forwarding session. -/
def forwardingStep (b : ForwardingBench) (d : Doc) : Read (ForwardingBench × Doc) := do
  let act : WorldM Unit (Doc × ForwardingProxy) ← match ← d.req "op" Doc.toStr with
    | "register" => do
      let e ← d.req "envelope" Envelope.read
      pure do
        let (id, p) ← b.proxy.register e
        pure (.ident id, p)
    | "complete" => do
      let c ← PeerMessage.readForwardWriteCompleted d
      pure do
        let (r, p) ← b.proxy.complete c
        pure (.bool r, p)
    | "timeout" => do
      let id ← d.req "internal_corr_id" Doc.toUuid
      pure do
        let (r, p) ← b.proxy.timeout id
        pure (.bool r, p)
    | _ => Read.reject
  let (r, w) := (ExceptT.run act).run b.world
  match r with
  | .ok (v, p) =>
    let answer := Doc.obj [("r", v), ("len", .nat p.len), ("is_empty", .bool p.isEmpty)]
    pure ({ proxy := p, world := { w with traffic := #[] } },
      withExtras answer (trafficFields w.traffic.toList))
  | .error _ => pure (b, panicked)

/-- `forwarding`: a forwarding proxy, step by step. -/
def forwardingSession (d : Doc) (L : Labels) : Except ReadFailure Doc := do
  let (steps, L) ← (readSteps d).setup L
  let (answers, _, _) := runSteps forwardingStep steps L {}
  pure (.obj [("steps", .arr answers)])

end Api

end EventStore
