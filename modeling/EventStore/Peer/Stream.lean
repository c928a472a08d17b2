import EventStore.Peer.Message

/-!
# Reading a stream of frames

A connection carries frames one after another. Reading a frame takes its four-byte length prefix,
checks that the length is valid, takes that many bytes and reads them as a message. Reading stops
at the first failure: the stream ended inside a prefix or a body, the length was invalid, or the
body did not read as a message. A read that runs off the end of the stream consumes all of it.
A reader may also stop after a number of messages, with no failure.
-/

namespace EventStore

/-- Why reading a stream of frames stopped. -/
inductive StreamStop where
  /-- The stream ended inside a prefix or a body. -/
  | ended
  /-- A prefix announced a length of zero or over the limit. -/
  | invalidLength
  /-- A body did not read as a message. -/
  | parse (e : DecodeError)
  deriving DecidableEq, Repr, Inhabited

/-- The messages read off a stream, why reading stopped (nothing failed when it stopped at its
limit), and how many bytes were consumed. -/
structure StreamRead where
  msgs : List PeerMessage
  stop : Option StreamStop
  consumed : Nat
  deriving Repr, Inhabited

namespace PeerMessage

/-- One frame off the front of a stream: the message or the reason for stopping, and the bytes
consumed. -/
def readFrame (bs : Bytes) : Except StreamStop PeerMessage × Nat :=
  let pfx := bs.take 4
  if pfx.length < 4 then (.error .ended, bs.length)
  else
    match frameLen pfx with
    | none => (.error .invalidLength, 4)
    | some len =>
      let body := (bs.drop 4).take len
      if body.length < len then (.error .ended, bs.length)
      else
        match ofBody body with
        | .ok m => (.ok m, 4 + len)
        | .error e => (.error (.parse e), 4 + len)

/-- Reads frames until the first failure or until `limit` messages are read. -/
def readStream (limit : Nat) (bs : Bytes) : StreamRead :=
  go limit bs [] 0
where
  /-- Reads on from `bs` at most `n` more messages, after `acc` (reversed) and `used` bytes. -/
  go : Nat → Bytes → List PeerMessage → Nat → StreamRead
    | 0, _, acc, used => ⟨acc.reverse, none, used⟩
    | n + 1, bs, acc, used =>
      match readFrame bs with
      | (.ok m, k) => go n (bs.drop k) (m :: acc) (used + k)
      | (.error stop, k) => ⟨acc.reverse, some stop, used + k⟩

end PeerMessage

end EventStore
