import TomP2P.Core.CumulationTCP

/-!
# Messages from Datagrams

A datagram has to bring a message as a whole. Each one is read by a decoder of its own, in one
call. A decoder that throws has finished, so that what it has read of the message is handed on
behind the exception. What follows a message in a datagram is dropped, and so is a message that is
not there to its end.

## Main definitions

* `TomP2PSinglePacketUDP.channelRead`: What is handed on of a datagram.
-/

namespace TomP2P

open Wire

/-- A datagram that arrives at time `now`. The ids are those that were drawn for the messages of the
    decoder, until a header is read and after it was handed on. -/
def TomP2PSinglePacketUDP.channelRead (f : SignatureFactory) (ch : Channel) (now : BitVec 64) (messageId messageId' : BitVec 32)
    (buf : Bytes) : List Fired :=
  let decoded := Decoder.decode f ch now (.new messageId) buf
  if decoded.finished then
    (decoded.exception.map .exceptionCaught).toList ++ [.channelRead (decoded.decoder.prepareFinish messageId').1]
  else []

end TomP2P
