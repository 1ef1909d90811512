import Mathlib.Data.List.Nodup
import Mathlib.Data.List.Basic

/-!
# Batched commands of a client

A client collects single commands for a short time, divides them into batches in which no path
occurs twice and executes the batches under a mutex. Each event of the model is a stretch of the
code between two awaits.
-/
namespace MatterJs.Client

/-- A batched command. The id numbers the calls of `invoke`. -/
structure Command (P : Type) where
  id : Nat
  commandRef : Nat
  path : P

/-- What the peer answers to a command: response data, of which a mandated payload may be missing,
or a status. -/
inductive Response (D : Type)
  | command (commandRef : Option Nat) (data : D) (complete : Bool)
  | status (commandRef : Option Nat) (status : Nat)

inductive Body (D : Type)
  | data (data : D)
  | status (status : Nat)

/-- An entry of the chunk that an invoke yields. -/
structure Entry (D : Type) where
  commandRef : Option Nat
  body : Body D

/-- How the promise of a command settles. -/
inductive Outcome (D : Type)
  | resolved (entry : Option (Entry D))
  | rejected

abbrev Batch (P : Type) := List (Command P)

/-- A task of the mutex: a batch, with those that its flush passes on after it. -/
structure Task (P : Type) where
  batch : Batch P
  later : List (Batch P)

/-- The batch that is executing, with the commands not answered yet and its messages. -/
structure Execution (P : Type) where
  commands : Batch P
  maxPathsPerInvoke : Nat
  unsent : List (Batch P)
  awaiting : List (Batch P)
  failed : Bool
  later : List (Batch P)

/-- An invoke message, with the maximum of the peer. -/
structure Message (P : Type) where
  maxPathsPerInvoke : Nat
  commands : Batch P

structure ClientInteraction (P D : Type) where
  calls : Nat
  /-- The calls that wait for the connection. -/
  connecting : List (Nat × P)
  nextCommandRef : Nat
  pendingCommands : List (Command P)
  timerRunning : Bool
  queue : List (Task P)
  executing : Option (Execution P)
  closed : Bool
  aborted : List Nat
  /-- All commands that were queued, and how those settled that have. -/
  commands : List (Command P)
  settled : List (Nat × Outcome D)
  sent : List (Message P)

inductive Event (P D : Type)
  | invoke (path : P)
  | connected (id : Nat)
  | connectionFailed (id : Nat)
  | timer
  /-- The mutex starts the next task. -/
  | execute (maxPathsPerInvoke : Nat)
  | send (index : Nat)
  | respond (index : Nat) (responses : List (Response D))
  /-- A message cannot be sent. -/
  | failToSend (index : Nat)
  /-- A message that was sent fails, or its response does. -/
  | fail (index : Nat)
  /-- All messages of the batch are through. -/
  | finish
  | abort (id : Nat)
  | close

def maxCommandRef : Nat := 0xffff

def noCommandResponse : Nat := 0xcc

/-- The loop of `#allocateCommandRef`, which goes once round the values. -/
def allocateLoop (used : List Nat) (startRef : Nat) : Nat → Nat → Option (Nat × Nat)
  | 0, _ => none
  | rounds + 1, ref =>
    let nextRef := if ref ≥ maxCommandRef then 1 else ref + 1
    if !used.contains ref then some (ref, nextRef)
    else if nextRef = startRef then none
    else allocateLoop used startRef rounds nextRef

/-- `#allocateCommandRef`: the new ref and the next one to try. -/
def allocateCommandRef (used : List Nat) (nextCommandRef : Nat) : Option (Nat × Nat) :=
  allocateLoop used nextCommandRef maxCommandRef nextCommandRef

section Batches

variable {P D : Type} [DecidableEq P]

/-- The inner loop of `#partitionBatch`: the first batch that does not have the path takes the
command. -/
def place (command : Command P) : List (Batch P) → List (Batch P)
  | [] => [[command]]
  | batch :: batches =>
    if (batch.map (·.path)).contains command.path then batch :: place command batches
    else (batch ++ [command]) :: batches

def partitionBatch (commands : List (Command P)) : List (Batch P) :=
  commands.foldl (fun batches command => place command batches) []

/-- The slices of `#invokeWithSplitting`, on fuel. -/
def slices (maxPathsPerInvoke : Nat) : Nat → Batch P → List (Batch P)
  | 0, _ => []
  | _, [] => []
  | fuel + 1, commands =>
    commands.take maxPathsPerInvoke ::
      slices maxPathsPerInvoke fuel (commands.drop maxPathsPerInvoke)

def messages (maxPathsPerInvoke : Nat) (commands : Batch P) : List (Batch P) :=
  if commands.length > maxPathsPerInvoke then
    slices maxPathsPerInvoke commands.length commands
  else [commands]

variable (message : Batch P)

/-- The ref a response belongs to: a message with one command has none on the wire. -/
def responseRef (commandRef : Option Nat) : Option Nat :=
  match message with
  | [command] => some command.commandRef
  | _ => commandRef

variable (responses : List (Response D))

/-- The entries of the responses to a message. -/
def responseEntries : List (Entry D) :=
  responses.filterMap (fun response =>
    match response with
    | .command commandRef data complete =>
      if (message.map (fun command => some command.commandRef)).contains
          (responseRef message commandRef) && complete then
        some ⟨responseRef message commandRef, .data data⟩
      else none
    | .status commandRef status => some ⟨responseRef message commandRef, .status status⟩)

/-- The chunk that `#invokeSingle` yields: a command without a response gets a status. -/
def invokeSingle : List (Entry D) :=
  let entries := responseEntries message responses
  entries ++ message.filterMap (fun command =>
    if (entries.map (·.commandRef)).contains (some command.commandRef) then none
    else some ⟨some command.commandRef, .status noCommandResponse⟩)

variable (settled : List (Nat × Outcome D))

/-- A promise settles once. -/
def settle (id : Nat) (outcome : Outcome D) :
    List (Nat × Outcome D) :=
  if (settled.map Prod.fst).contains id then settled else settled ++ [(id, outcome)]

def settleAll (commands : List (Command P))
    (outcome : Outcome D) : List (Nat × Outcome D) :=
  commands.foldl (fun settled command => settle settled command.id outcome) settled

/-- The loop of `#executeBatch` over the entries of a chunk. -/
def deliver (aborted : List Nat) :
    List (Nat × Outcome D) → Batch P → List (Entry D) → List (Nat × Outcome D) × Batch P
  | settled, commands, [] => (settled, commands)
  | settled, commands, entry :: entries =>
    match commands.find? (fun command => some command.commandRef = entry.commandRef) with
    | none => deliver aborted settled commands entries
    | some command =>
      deliver aborted
        (if aborted.contains command.id then settled
          else settle settled command.id (.resolved (some entry)))
        (commands.filter (·.commandRef ≠ command.commandRef)) entries

end Batches

namespace ClientInteraction

variable {P D : Type} [DecidableEq P] (s : ClientInteraction P D)

/-- The flush passes its next batch on to the mutex. A closed mutex takes none. -/
def produce (batches : List (Batch P)) : ClientInteraction P D :=
  match batches with
  | [] => s
  | batch :: later =>
    if s.closed then { s with settled := settleAll s.settled batches.flatten .rejected }
    else { s with queue := s.queue ++ [⟨batch, later⟩] }

/-- `#flushBatch` up to its first await. -/
def flushBatch : ClientInteraction P D :=
  { s with pendingCommands := [] }.produce (partitionBatch s.pendingCommands)

/-- The rest of `#invokeWithBatching` after the connection is there. -/
def enqueue (id : Nat) (path : P) : ClientInteraction P D :=
  match allocateCommandRef (s.pendingCommands.map (·.commandRef)) s.nextCommandRef with
  | none => s
  | some (commandRef, nextCommandRef) =>
    { s with
      nextCommandRef
      pendingCommands := s.pendingCommands ++ [⟨id, commandRef, path⟩]
      commands := s.commands ++ [⟨id, commandRef, path⟩]
      timerRunning := true }

/-- `#executeBatch` up to its first await, for the next task. Nothing is sent for a batch all of
whose commands were aborted. -/
def execute (maxPathsPerInvoke : Nat) (task : Task P) (queue : List (Task P)) :
    ClientInteraction P D :=
  let commands := task.batch.filter (fun command => !s.aborted.contains command.id)
  if commands.isEmpty then { s with queue }.produce task.later
  else
    { s with
      queue
      executing := some
        { commands
          maxPathsPerInvoke
          unsent := messages maxPathsPerInvoke commands
          awaiting := []
          failed := false
          later := task.later } }

/-- The end of `#executeBatch`, which lets its flush go on. -/
def finish (execution : Execution P) : ClientInteraction P D :=
  let remaining := execution.commands.filter (fun command => !s.aborted.contains command.id)
  { s with
    executing := none
    settled := settleAll s.settled remaining
      (if execution.failed then .rejected else .resolved none) }.produce execution.later

def step (s : ClientInteraction P D) : Event P D → Option (ClientInteraction P D)
  | .invoke path =>
    if s.closed then none
    else some { s with calls := s.calls + 1, connecting := s.connecting ++ [(s.calls, path)] }
  | .connected id =>
    match s.connecting.find? (·.1 = id) with
    | none => none
    | some call =>
      some ({ s with connecting := s.connecting.filter (·.1 ≠ id) }.enqueue
        call.1 call.2)
  | .connectionFailed id =>
    some { s with connecting := s.connecting.filter (·.1 ≠ id) }
  | .timer => if s.timerRunning then some { s with timerRunning := false }.flushBatch else none
  | .execute maxPathsPerInvoke =>
    match s.executing, s.queue with
    | none, task :: queue =>
      if 0 < maxPathsPerInvoke then some (s.execute maxPathsPerInvoke task queue) else none
    | _, _ => none
  | .send index =>
    match s.executing with
    | none => none
    | some execution =>
      match execution.unsent[index]? with
      | none => none
      | some message =>
        some { s with
          executing := some { execution with
            unsent := execution.unsent.eraseIdx index
            awaiting := execution.awaiting ++ [message] }
          sent := s.sent ++ [⟨execution.maxPathsPerInvoke, message⟩] }
  | .respond index responses =>
    match s.executing with
    | none => none
    | some execution =>
      match execution.awaiting[index]? with
      | none => none
      | some message =>
        let delivered :=
          deliver s.aborted s.settled execution.commands (invokeSingle message responses)
        some { s with
          settled := delivered.1
          executing := some { execution with
            commands := delivered.2
            awaiting := execution.awaiting.eraseIdx index } }
  | .failToSend index =>
    match s.executing with
    | none => none
    | some execution =>
      if index < execution.unsent.length then
        some { s with
          executing := some { execution with
            unsent := execution.unsent.eraseIdx index
            failed := true } }
      else none
  | .fail index =>
    match s.executing with
    | none => none
    | some execution =>
      if index < execution.awaiting.length then
        some { s with
          executing := some { execution with
            awaiting := execution.awaiting.eraseIdx index
            failed := true } }
      else none
  | .finish =>
    match s.executing with
    | none => none
    | some execution =>
      if execution.unsent.isEmpty && execution.awaiting.isEmpty then some (s.finish execution)
      else none
  | .abort id =>
    match s.commands.find? (·.id = id) with
    | none => none
    | some command =>
      some { s with
        aborted := s.aborted ++ [id]
        pendingCommands := s.pendingCommands.filter
          (·.commandRef ≠ command.commandRef)
        settled := settle s.settled id .rejected }
  | .close =>
    some { s with
      timerRunning := false
      settled := settleAll s.settled s.pendingCommands .rejected
      pendingCommands := []
      closed := true }

def initial : ClientInteraction P D where
  calls := 0
  connecting := []
  nextCommandRef := 1
  pendingCommands := []
  timerRunning := false
  queue := []
  executing := none
  closed := false
  aborted := []
  commands := []
  settled := []
  sent := []

end ClientInteraction

end MatterJs.Client
