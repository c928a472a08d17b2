import EventStore.Api.Session
import EventStore.Cli.Options

/-!
# Command-line answers

`cli` reads a command line, the program name left out, and answers with the node parameters it
gives or with the failure, named `cli.<kind>` with the first line of its text. Durations are
whole milliseconds; one too large for 64 bits is written as decimal text.
-/

namespace EventStore

namespace Api

/-- A duration in milliseconds as printed. -/
def millisDoc (ms : Nat) : Doc := if ms < Nat.pow 2 64 then .nat ms else .str (toString ms)

/-- Node parameters as printed. -/
def paramsDoc (p : NodeParams) : Doc :=
  .obj [("data_dir", .str p.dataDir), ("internal_bind", .ofAddr p.internalBind),
    ("internal_advertise", .ofAddr? p.internalAdvertise), ("external_tcp", .ofAddr? p.externalTcp),
    ("external_http", .ofAddr? p.externalHttp), ("cluster_size", .nat p.clusterSize),
    ("node_priority", .int p.nodePriority), ("gossip_seeds", .arr (p.gossipSeeds.map Doc.ofAddr)),
    ("chunk_size", .nat p.chunkSize), ("verify_hashes", .bool p.verifyHashes),
    ("gossip_interval_ms", millisDoc p.gossipIntervalMs),
    ("gossip_timeout_ms", millisDoc p.gossipTimeoutMs),
    ("prepare_timeout_ms", millisDoc p.prepareTimeoutMs),
    ("commit_timeout_ms", millisDoc p.commitTimeoutMs),
    ("forwarding_timeout_ms", millisDoc p.forwardingTimeoutMs), ("id", .bool false),
    ("epoch_cache_size", .nat p.epochCacheSize)]

/-- The answer to a command line. -/
def cliAnswer (d : Doc) : Read Doc := do
  let args ← d.req "args" (Doc.toList Doc.toStr)
  match Cli.parse args with
  | .ok p => pure (paramsDoc p)
  | .error e => pure (.errorWith ("cli." ++ e.kind.name) e.message)

end Api

end EventStore
