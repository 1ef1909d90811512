import MatterJs.Action.AttributeWriteResponse
import MatterJs.Foundation.StateExcept

/-!
# The handler of write requests

`handleWriteRequest` goes through the messages of an interaction. In each it collects the entries
into batches, which it passes on to be written, and answers those list additions with Busy whose
attribute is not the one of the entry before.
-/
namespace MatterJs.WriteInteraction

open MatterJs.Action StateExcept

inductive TimedInteraction
  | none
  | active
  | expired
  deriving DecidableEq

structure WriteRequest (δ : Type) where
  suppressResponse : Bool
  timedRequest : Bool
  moreChunkedMessages : Bool
  writeRequests : List (AttributeData δ)

variable (previous : Option AttributeLocation) (path : AttributePath)

/-- Whether the path names the attribute that was processed last. A path and an attribute that are
undefined in the same places agree as well. -/
def sameAttribute : Bool :=
  previous.map (·.endpointId) == path.endpointId && previous.map (·.clusterId) == path.clusterId &&
    previous.map (·.attributeId) == path.attributeId

/-- A list addition that does not follow a write of the same attribute. -/
def isBusy : Bool :=
  path.listIndex == .null && !sameAttribute previous path

def nextPrevious :
    Option AttributeLocation :=
  if isBusy previous path then previous else path.concrete.or previous

/-- The responses sent in an interaction, how it ended and what it left. -/
structure Reply (α : Type) where
  sent : List (List AttributeStatus)
  result : Except Failure Unit
  store : Store α

section Handler

variable {δ α : Type} [DecidableEq α] (behavior : Behavior δ α) (node : Node) (session : Session)

/-- The loop over the entries of a message, with the current batch and all responses so far. -/
def handleEntries (previous : Option AttributeLocation) (currentBatch : List (AttributeData δ))
    (allResponses : List AttributeStatus) :
    List (AttributeData δ) → WriteM α (Option AttributeLocation × List AttributeStatus)
  | [] => do
    let batchResults ← process behavior node session currentBatch
    pure (previous, allResponses ++ batchResults)
  | request :: writeRequests =>
    if isBusy previous request.path then do
      let batchResults ← process behavior node session currentBatch
      handleEntries previous [] (allResponses ++ batchResults ++ [⟨request.path, .busy, none⟩])
        writeRequests
    else
      handleEntries (nextPrevious previous request.path) (currentBatch ++ [request]) allResponses
        writeRequests

/-- The loop over the messages, of which the first is at hand. A message that ends in an error is
not answered. -/
def handleChunks (previous : Option AttributeLocation) (store : Store α)
    (request : WriteRequest δ) : List (WriteRequest δ) → Reply α
  | [] =>
    match outcome (handleEntries behavior node session previous [] [] request.writeRequests)
      store with
    | (.error failure, store) => ⟨[], .error failure, store⟩
    | (.ok (_, allResponses), store) =>
      if request.suppressResponse then ⟨[], .ok (), store⟩
      else if !request.moreChunkedMessages then ⟨[allResponses], .ok (), store⟩
      else ⟨[allResponses], .error .closed, store⟩
  | nextRequest :: requests =>
    match outcome (handleEntries behavior node session previous [] [] request.writeRequests)
      store with
    | (.error failure, store) => ⟨[], .error failure, store⟩
    | (.ok (previous, allResponses), store) =>
      if request.suppressResponse then ⟨[], .ok (), store⟩
      else if !request.moreChunkedMessages then ⟨[allResponses], .ok (), store⟩
      else if nextRequest.suppressResponse then
        ⟨[allResponses], .error (.response .invalidAction none), store⟩
      else
        let reply := handleChunks previous store nextRequest requests
        { reply with sent := allResponses :: reply.sent }

def timeout : Status := .other 0x94

def timedRequestMismatch : Status := .other 0xc9

variable (timedInteraction : TimedInteraction)

/-- The checks before the loop over the messages. -/
def checkWriteRequest (request : WriteRequest δ) :
    Option Status :=
  if request.moreChunkedMessages && request.suppressResponse then some .invalidAction
  else if timedInteraction = .active && request.moreChunkedMessages then some .invalidAction
  else if timedInteraction = .expired then some timeout
  else if request.timedRequest != (timedInteraction != .none) then some timedRequestMismatch
  else if timedInteraction = .active && session.group.isSome then some .invalidAction
  else if session.group.isSome && !request.suppressResponse then some .invalidAction
  else none

/-- The session of the context that the writes run in. -/
def writeSession : Session :=
  { session with timed := timedInteraction = .active }

/-- The first message and those that follow on the exchange. -/
def handleWriteRequest (state : AttributeState α)
    (request : WriteRequest δ) (requests : List (WriteRequest δ)) : Reply α :=
  match checkWriteRequest session timedInteraction request with
  | some status => ⟨[], .error (.response status none), ⟨state, []⟩⟩
  | none =>
    handleChunks behavior node (writeSession session timedInteraction) none ⟨state, []⟩ request
      requests

end Handler

end MatterJs.WriteInteraction
