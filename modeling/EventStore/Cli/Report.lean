import EventStore.Cli.Options

/-!
# What the command line reports

A parsed command line is reported as one `name = value` line per node parameter, in the order the
parameters are declared; an address that was not given is written `-`. A failed parse is reported
with its text: help and version requests on standard output with exit code 0, every other failure
on standard error with exit code 2.
-/

namespace EventStore

/-- The node parameters as `name = value` lines. -/
def NodeParams.summary (p : NodeParams) : List String :=
  let addr? := fun (a : Option SocketAddr) => (a.map SocketAddr.toText).getD "-"
  let line := fun (name value : String) => name ++ " = " ++ value
  [line "data_dir" p.dataDir,
   line "internal_bind" p.internalBind.toText,
   line "internal_advertise" (addr? p.internalAdvertise),
   line "external_tcp" (addr? p.externalTcp),
   line "external_http" (addr? p.externalHttp),
   line "cluster_size" (toString p.clusterSize),
   line "node_priority" (toString p.nodePriority),
   line "gossip_seeds" (", ".intercalate (p.gossipSeeds.map SocketAddr.toText)),
   line "chunk_size" (toString p.chunkSize),
   line "verify_hashes" (toString p.verifyHashes),
   line "gossip_interval_ms" (toString p.gossipIntervalMs),
   line "gossip_timeout_ms" (toString p.gossipTimeoutMs),
   line "prepare_timeout_ms" (toString p.prepareTimeoutMs),
   line "commit_timeout_ms" (toString p.commitTimeoutMs),
   line "forwarding_timeout_ms" (toString p.forwardingTimeoutMs),
   line "epoch_cache_size" (toString p.epochCacheSize)]

/-- Whether a command-line outcome is a report the user asked for (help or version). -/
def CliError.isRequested (e : CliError) : Bool :=
  e.kind = .displayHelp || e.kind = .displayVersion

/-- The exit code of a command-line outcome: 0 for help and version, 2 for a failure. -/
def CliError.exitCode (e : CliError) : UInt32 := if e.isRequested then 0 else 2

end EventStore
