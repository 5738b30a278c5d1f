/-
The stream of events.

A stream hands its client one message after another, each with the version and the listings of the store.
When the client asks for the next one, the stream notes the version of that moment and waits for one above
it:

* `EventStream.open` — the first message;
* `EventStream.resume` — the client asks for the next message;
* `EventStream.wake` — the store may have changed: the next message, if the wait is over;
* `EventStream.during` — the next message, after a request that is served while the stream waits.

Starting and ending the service lists the documents and saves them (`runLifetime`).
-/
import Ontogram.Service.Endpoint
import Ontogram.Store.Waiting
namespace Ontogram.Service

/-- Where a stream stands. -/
inductive StreamPhase where
  /-- The last message is handed out and the client has not asked for another. -/
  | handedOut
  | waiting (since : Nat)
deriving DecidableEq

/-- A stream and the version in its last message. -/
structure EventStream where
  announced : Nat
  phase : StreamPhase
deriving DecidableEq

namespace EventStream

def message (version : Nat) (listings : List (Key × Listing)) : Text :=
  "data: " ++ (Json.obj [("version", .int version), ("documents", listingsJson listings)]).text .spaced ++
    "\n\n"

/-- A message and the stream after it. -/
def announce (s : Store) : Store.Answer (Text × EventStream) :=
  match s.list with
  | (.ok listings, s) => (.ok (message s.version listings, ⟨s.version, .handedOut⟩), s)
  | (.error e, s) => (.error e, s)

protected def «open» (s : Store) : Store.Answer (Text × EventStream) := announce s

def resume (s : Store) (stream : EventStream) : EventStream :=
  match stream.phase with
  | .handedOut => { stream with phase := .waiting s.version }
  | .waiting _ => stream

/-- No message as long as the version that is waited for has not come. -/
def wake (s : Store) (stream : EventStream) : Store.Answer (Option Text × EventStream) :=
  match stream.phase with
  | .handedOut => (.ok (none, stream), s)
  | .waiting since =>
    match s.awaited since with
    | none => (.ok (none, stream), s)
    | some _ =>
      match announce s with
      | (.ok (message, stream), s) => (.ok (some message, stream), s)
      | (.error e, s) => (.error e, s)

def during (r : Request) (s : Store) (stream : EventStream) :
    Store.Answer (Option Text × EventStream) :=
  let waiting := stream.resume s
  wake (respond r s).2 waiting

end EventStream

/-- The store after the service has started and ended; it does not start with documents that cannot be
listed. -/
def runLifetime (s : Store) : Store.Answer Unit :=
  match s.list with
  | (.ok _, s) => s.save
  | (.error e, s) => (.error e, s)

end Ontogram.Service
