import EventStore.Api.Session
import EventStore.Store.World

/-!
# Printing outgoing traffic

What a step sent out is printed beside its answer: `replies`, the client responses in client
number order and then in order of arrival, and `conns`, one entry per peer connection in
connection order with the messages queued on it and whether it was closed. A field is left out
when there is nothing to show.
-/

namespace EventStore

namespace Api

/-- A client response as printed. -/
def replyDoc (client : Nat) (r : ClientResponse) : Doc :=
  .obj [("client", .nat client), ("response", r.toDoc)]

/-- The messages sent on a connection and whether it was closed, as printed. -/
def connDoc (traffic : List Traffic) (conn : Nat) : Doc :=
  .obj [("conn", .nat conn),
    ("sent", .arr (traffic.filterMap fun
      | .send c m => if c = conn then some (PeerMessage.toDocAs .summary "" m) else none
      | _ => none)),
    ("closed", .bool (traffic.any fun
      | .close c => c = conn
      | _ => false))]

/-- The `replies` and `conns` fields of outgoing traffic. -/
def trafficFields (traffic : List Traffic) : List (String × Option Doc) :=
  let replies := (traffic.filterMap fun
      | .reply client r => some (client, r)
      | _ => none).mergeSort fun a b => a.1 ≤ b.1
  let conns := (traffic.filterMap fun
      | .send c _ => some c
      | .close c => some c
      | _ => none).eraseDups.mergeSort (· ≤ ·)
  [("replies", if replies.isEmpty then none else some (.arr (replies.map fun (c, r) => replyDoc c r))),
    ("conns", if conns.isEmpty then none else some (.arr (conns.map (connDoc traffic))))]

/-- Adds optional fields to an answer object. -/
def withExtras (d : Doc) (extra : List (String × Option Doc)) : Doc :=
  match d with
  | .obj fields => .withOptional fields extra
  | other => other

end Api

end EventStore
