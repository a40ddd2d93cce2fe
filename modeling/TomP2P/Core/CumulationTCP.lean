import TomP2P.Core.Decoder

/-!
# Messages from a Stream

A TCP connection delivers bytes in pieces, and a piece may end anywhere in a message. The
pieces are put behind each other, and with each one the decoder is called until it asks for
more bytes or none are left. Complete messages are handed on.

A message that has the id of the last complete one counts as complete when the decoder asks
for more bytes. Whether the decoder has an id, and which, is not asked: before a header is
read it is that of an empty message, and a header that is not complete leaves its id behind.

## Main definitions

* `TomP2PCumulationTCP`: The bytes that are not read, the decoder, and the last id.
* `TomP2PCumulationTCP.turn`: A pass through the loop.
* `TomP2PCumulationTCP.System`: The loop with the pieces that arrive.
-/

namespace TomP2P

open Wire

/-- What is handed on: a message, complete or not, or an exception. -/
inductive Fired
  | channelRead (message : Message)
  | exceptionCaught (e : JavaException)
  deriving DecidableEq

structure TomP2PCumulationTCP where
  decoder : Decoder
  cumulation : Bytes := []
  lastId : BitVec 32 := 0
  deriving DecidableEq

namespace TomP2PCumulationTCP

/-- What a pass through the loop comes to: whether there is another one, the state, and what
    was handed on. -/
structure Turn where
  again : Bool
  state : TomP2PCumulationTCP
  fired : List Fired
  deriving DecidableEq

/-- The message is complete. The next one has the id `messageId` until its header is read. -/
def finish (messageId lastId : BitVec 32) (decoded : Decoder.Decoded) : Turn :=
  let (message, decoder) := decoded.decoder.prepareFinish messageId
  ⟨!decoded.rest.isEmpty, ⟨decoder, decoded.rest, lastId⟩,
    (decoded.exception.map .exceptionCaught).toList ++ [.channelRead message]⟩

/-- A pass through the loop at time `now`. -/
def turn (f : SignatureFactory) (ch : Channel) (now : BitVec 64) (messageId : BitVec 32)
    (c : TomP2PCumulationTCP) : Turn :=
  let decoded := Decoder.decode f ch now c.decoder c.cumulation
  if decoded.finished then finish messageId decoded.decoder.message.messageId decoded
  else if c.lastId = decoded.decoder.message.messageId then finish messageId c.lastId decoded
  else ⟨false, ⟨decoded.decoder, decoded.rest, c.lastId⟩,
    if decoded.decoder.message.isStreaming then [.channelRead decoded.decoder.message] else []⟩

/-- The connection: whether the loop is running, and what was handed on so far. -/
structure System where
  connection : TomP2PCumulationTCP
  running : Bool := false
  fired : List Fired := []
  deriving DecidableEq

/-- What happens: a piece arrives, or the loop is passed through at some time, with the id a
    new message would get. -/
inductive Event
  | channelRead (buf : Bytes)
  | turn (now : BitVec 64) (messageId : BitVec 32)
  deriving DecidableEq

/-- Pieces arrive only after the loop has ended. -/
def System.step (f : SignatureFactory) (ch : Channel) (s : System) : Event → Option System
  | .channelRead buf =>
      if s.running then none
      else some { s with
        connection := { s.connection with cumulation := s.connection.cumulation ++ buf }
        running := true }
  | .turn now messageId =>
      if s.running then
        let t := s.connection.turn f ch now messageId
        some ⟨t.state, t.again, s.fired ++ t.fired⟩
      else none

/-- A new connection. -/
def System.start (messageId : BitVec 32) : System := { connection := { decoder := .new messageId } }

end TomP2PCumulationTCP

end TomP2P
