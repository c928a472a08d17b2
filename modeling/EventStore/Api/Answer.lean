import EventStore.Api.Codecs
import EventStore.Api.ElectionCluster
import EventStore.Api.Commit
import EventStore.Api.Storage
import EventStore.Api.Forwarding
import EventStore.Api.Gossip
import EventStore.Api.Controller
import EventStore.Api.Cli
import EventStore.Api.Replica
import EventStore.Api.Node

/-!
# Answering a request

A request is a document with an `"op"` field naming what to do. The answer is printed with the
identifiers that reading the request recorded as given, so that an identifier the request named
by value prints in its text form and every other one as a label.
-/

namespace EventStore

namespace Api

/-- Prints an answer document. -/
def print (L : Labels) (d : Doc) : Doc := (d.render.run L).1

/-- The handler of a session request, by op name: it prints its own answer step by step. -/
def session? : String → Option (Doc → Labels → Except ReadFailure Doc)
  | "elections" => some electionsSession
  | "elections_cluster" => some electionClusterSession
  | "commit" => some commitSession
  | "storage" => some storageSession
  | "forwarding" => some forwardingSession
  | "gossip" => some gossipSession
  | "controller" => some controllerSession
  | "replica" => some replicaSession
  | "node" => some nodeSession
  | _ => none

/-- The printed answer to a request. -/
def answer (request : Doc) : Doc :=
  let L : Labels := {}
  match request.get? "op" with
  | some (.str op) =>
    match (if op = "cli" then some cliAnswer else singleValue? op) with
    | some handler =>
      match (handler request).run L with
      | (.ok d, L') => print L' d
      | (.error e, _) => e.toDoc
    | none =>
      match session? op with
      | some run =>
        match run request L with
        | .ok d => d
        | .error e => e.toDoc
      | none => .badInput
  | _ => .badInput

end Api

end EventStore
