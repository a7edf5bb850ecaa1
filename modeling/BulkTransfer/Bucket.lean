import BulkTransfer.Files
import BulkTransfer.OrderedMap
import BulkTransfer.Thrown.Condition

/-!
# The bucket service

A bucket service answers commands.  What it will answer is laid out beforehand: a queue of replies
for each command on a bucket, and one reply for each object put or got.  A session is such a service
beside the local files, with the commands sent so far.
-/

namespace BulkTransfer

/-- A command to a bucket service.  An object is put with its content, or without any when the
content cannot be read. -/
inductive Command where
  | head (bucket : Text)
  | create (bucket : Text)
  | put (bucket key : Text) (body : Option Bytes)
  | get (bucket key : Text)
  | list (bucket : Text) (start token : Option Text)
deriving DecidableEq

/-- Whether a command can be sent to its end. -/
def Command.isReadable : Command → Bool
  | .put _ _ none => false
  | _ => true

/-- The content that comes with an answer: none that can be read, bytes, or a stream that fails. -/
inductive Body where
  | unreadable
  | bytes (content : Bytes)
  | broken (error : Thrown)

/-- One page of a listing; a page without contents has no keys, and a key may be missing. -/
structure Page where
  keys : List (Option Text)
  truncated : Bool
  nextToken : Option Text

def Page.names (p : Page) : List Text :=
  p.keys.filterMap fun key => key.filter fun name => !name.isEmpty

def Page.continuation (p : Page) : Option Text :=
  if p.truncated then p.nextToken.filter fun token => !token.isEmpty else none

/-- What a service sends back. -/
structure Answer where
  page : Page
  body : Body

/-- How a service replies to a command. -/
inductive Reply where
  | failed (error : Thrown)
  | answered (answer : Answer)

def Answer.plain : Answer := ⟨⟨[], false, none⟩, .unreadable⟩

/-- The replies that a service has ready.  When they are used up it throws a value or, without one,
answers plainly.  A service that drains contents reads the content of an object to its end before it
answers a put; a put whose content it cannot read then fails. -/
structure Remote where
  heads : List Reply
  creations : List Reply
  pages : List Reply
  puts : OrderedMap Text Reply
  gets : OrderedMap Text Reply
  exhausted : Option Thrown
  drains : Bool := true

namespace Remote

def last (r : Remote) : Reply :=
  match r.exhausted with
  | some error => .failed error
  | none => .answered .plain

/-- The first reply of a queue, and the queue without it. -/
def take (r : Remote) : List Reply → Reply × List Reply
  | [] => (r.last, [])
  | reply :: rest => (reply, rest)

/-- The reply to a command, and the service after it. -/
def reply (r : Remote) : Command → Reply × Remote
  | .head _ =>
    let (reply, heads) := r.take r.heads
    (reply, { r with heads })
  | .create _ =>
    let (reply, creations) := r.take r.creations
    (reply, { r with creations })
  | .list _ _ _ =>
    let (reply, pages) := r.take r.pages
    (reply, { r with pages })
  | .put _ key _ => ((r.puts.find? key).getD r.last, r)
  | .get _ key => ((r.gets.find? key).getD r.last, r)

end Remote

/-- A command that was sent, and whether the service took all of it. -/
structure Sent where
  command : Command
  accepted : Bool
deriving DecidableEq

/-- A bucket service beside the local files. -/
structure Session where
  files : Files
  remote : Remote
  sent : List Sent

def Reply.accepts : Reply → Bool
  | .failed _ => false
  | .answered _ => true

namespace Session

def send (s : Session) (command : Command) : Reply × Session :=
  let (reply, remote) := s.remote.reply command
  (reply, { s with remote, sent := s.sent ++ [⟨command, reply.accepts && command.isReadable⟩] })

end Session

end BulkTransfer
