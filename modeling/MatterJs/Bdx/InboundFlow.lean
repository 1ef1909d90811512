import Mathlib.Algebra.Order.Ring.Int
import Mathlib.Data.List.Infix

/-!
# Receiving a file

The receiving side of a bulk data transfer, in both roles: the parameters that come from the
opening messages, and what happens to the peer's blocks, while the session may be closed. The two
inbound flows differ only in the messages they send, which are left out. A receiver always starts at
offset 0.
-/
namespace MatterJs.Bdx

open List

inductive BdxStatusCode
  | lengthTooLarge
  | lengthTooShort
  | badMessageContent
  | badBlockCounter
  | transferMethodNotSupported
  | fileDesignatorUnknown

structure BdxError where
  message : String
  code : BdxStatusCode

variable (c : BdxSessionConfiguration)

inductive BdxMessageType
  | block
  | blockEof
  deriving DecidableEq

structure BdxBlock where
  kind : BdxMessageType
  blockCounter : Nat
  data : List UInt8

inductive TransferError
  | bdx (e : BdxError)
  /-- The storage stream does not take data any more. -/
  | typeError

/-- How the promise of `processTransfer` settles: it resolves in the first two cases. -/
inductive Outcome
  | finished
  | cancelled
  | rejected (e : TransferError)

structure InboundFlow where
  isClosed : Bool := false
  streamClosed : Bool := false
  /-- The counter that the next block must have. -/
  nextMessageCounter : Nat := 0
  bytesLeft : Option Int
  transferredBytes : Nat := 0
  /-- What the storage stream was handed. -/
  written : List UInt8 := []

namespace InboundFlow

/-- The flow once a block is counted and its data enqueued. -/
def take (f : InboundFlow) (b : BdxBlock) : InboundFlow :=
  { f with
    nextMessageCounter := (f.nextMessageCounter + 1) % 2 ^ 32
    bytesLeft := f.bytesLeft.map (· - (b.data.length : Int))
    transferredBytes := f.transferredBytes + b.data.length
    written := f.written ++ b.data }

def payload (l : List BdxBlock) : List UInt8 := l.flatMap (·.data)

end InboundFlow

open InboundFlow

end MatterJs.Bdx
