import MatterJs.Foundation.InsertionMap

/-!
# The event stores

`BaseEventStore` with its two implementations. A store hands out the event numbers; what it
writes to the storage context it was given is all that is left of it after a restart. Writes
complete before the call that makes them returns.
-/
namespace MatterJs.Events

open InsertionMap

inductive Priority
  | debug
  | info
  | critical
  deriving DecidableEq

structure Occurrence (Payload : Type) where
  endpointId : Nat
  clusterId : Nat
  eventId : Nat
  epochTimestamp : Nat
  priority : Priority
  payload : Payload

/-- The index entry of an occurrence. -/
structure OccurrenceSummary where
  number : Nat
  priority : Priority
  endpointId : Nat
  clusterId : Nat
  eventId : Nat
  deriving DecidableEq

variable {Payload : Type}

def Occurrence.summary (number : Nat) (occurrence : Occurrence Payload) : OccurrenceSummary where
  number := number
  priority := occurrence.priority
  endpointId := occurrence.endpointId
  clusterId := occurrence.clusterId
  eventId := occurrence.eventId

/-- The keys of the storage context: the reservation marker, and the decimal text of a number. -/
inductive StorageKey
  | lastEventNumber
  | decimal (number : Nat)
  deriving DecidableEq

/-- The storage context with its sub-context of the persisted events. -/
structure Storage (Payload : Type) where
  values : List (StorageKey × Nat) := []
  events : List (Nat × Occurrence Payload) := []

namespace Storage

variable (s : Storage Payload)

def marker : Option Nat :=
  get s.values .lastEventNumber

def eventIds : List Nat := s.events.map Prod.fst

def setMarker (value : Nat) : Storage Payload :=
  { s with values := set s.values .lastEventNumber value }

def deleteValue (key : StorageKey) : Storage Payload :=
  { s with values := delete s.values key }

variable (n : Nat) (e : Occurrence Payload)

def setEvent :
    Storage Payload :=
  { s with events := set s.events n e }

def deleteEvent : Storage Payload :=
  { s with events := delete s.events n }

def clearEvents : Storage Payload := { s with events := [] }

@[simp] theorem marker_setMarker (value : Nat) : (s.setMarker value).marker = some value :=
  get_set_self ..

@[simp] theorem marker_deleteValue_lastEventNumber :
    (s.deleteValue .lastEventNumber).marker = none :=
  get_delete_self ..

@[simp] theorem marker_deleteValue_decimal : (s.deleteValue (.decimal n)).marker = s.marker :=
  get_delete_of_ne _ (by simp)

@[simp] theorem marker_setEvent : (s.setEvent n e).marker = s.marker := rfl

@[simp] theorem marker_deleteEvent : (s.deleteEvent n).marker = s.marker := rfl

@[simp] theorem marker_clearEvents : s.clearEvents.marker = s.marker := rfl

@[simp] theorem eventIds_setMarker (v : Nat) : (s.setMarker v).eventIds = s.eventIds := rfl

@[simp] theorem eventIds_deleteValue (key : StorageKey) :
    (s.deleteValue key).eventIds = s.eventIds := rfl

@[simp] theorem eventIds_clearEvents : s.clearEvents.eventIds = [] := rfl

theorem mem_eventIds_setEvent : n ∈ (s.setEvent n e).eventIds :=
  mem_keys_set ..

theorem mem_eventIds_deleteEvent {n o : Nat} (hn : o ≠ n)
    (hm : o ∈ s.eventIds) : o ∈ (s.deleteEvent n).eventIds :=
  mem_keys_delete hn hm

end Storage

/-! ### Loading -/

/-- What `loadInitialState` finds: the next number, the reservation marker and the event keys. -/
structure InitialState where
  nextNumber : Nat
  reservationEnd : Option Nat
  eventIds : List Nat

/-- The loop of `loadInitialState` over the event keys. -/
def raiseNextNumber : Option Nat → List Nat → Option Nat
  | nextNumber, [] => nextNumber
  | nextNumber, number :: numbers =>
    match nextNumber with
    | none => raiseNextNumber (some (number + 1)) numbers
    | some next =>
      raiseNextNumber (some (if next ≤ number then number + 1 else next)) numbers

def loadInitialState (storage : Storage Payload) : InitialState where
  nextNumber := (raiseNextNumber storage.marker storage.eventIds).getD 1
  reservationEnd := storage.marker
  eventIds := storage.eventIds

/-! ### The stores -/

structure VolatileEventStore (Payload : Type) where
  storage : Storage Payload
  nextNumber : Nat
  numberBlockSize : Nat
  numbersReservedTo : Option Nat
  events : List (Nat × Occurrence Payload) := []

namespace VolatileEventStore

def load (storage : Storage Payload) (numberBlockSize : Nat) : VolatileEventStore Payload :=
  let initial := loadInitialState storage
  { storage := if initial.eventIds.isEmpty then storage else storage.clearEvents
    nextNumber := initial.nextNumber
    numberBlockSize := numberBlockSize
    numbersReservedTo := initial.reservationEnd }

variable (store : VolatileEventStore Payload)

/-- The number below which the numbers are reserved, as `add` reads it. -/
def reservedTo : Nat := store.numbersReservedTo.getD 1

-- `#reservationWrite` is never assigned, so the branch of `add` that waits for it is not taken.
def add (occurrence : Occurrence Payload) :
    OccurrenceSummary × VolatileEventStore Payload :=
  let number := store.nextNumber
  let allocated := { store with nextNumber := number + 1 }
  let reserved :=
    if number ≥ store.reservedTo then
      let reserveTo := store.reservedTo + store.numberBlockSize
      { allocated with
        storage := store.storage.setMarker reserveTo
        numbersReservedTo := some reserveTo }
    else allocated
  (occurrence.summary number, { reserved with events := set store.events number occurrence })

/-- Deletes from the storage context, not from the events kept in memory. -/
def delete (number : Nat) : VolatileEventStore Payload :=
  { store with storage := store.storage.deleteValue (.decimal number) }

end VolatileEventStore

structure NonvolatileEventStore (Payload : Type) where
  storage : Storage Payload
  nextNumber : Nat
  removeNumberReservation : Bool := false

namespace NonvolatileEventStore

def load (storage : Storage Payload) : NonvolatileEventStore Payload :=
  let initial := loadInitialState storage
  { storage := storage
    nextNumber := initial.nextNumber
    removeNumberReservation := initial.reservationEnd.isSome }

variable (store : NonvolatileEventStore Payload)

def add (occurrence : Occurrence Payload) :
    OccurrenceSummary × NonvolatileEventStore Payload :=
  let number := store.nextNumber
  let persisted := store.storage.setEvent number occurrence
  (occurrence.summary number,
    { storage :=
        if store.removeNumberReservation then persisted.deleteValue .lastEventNumber
        else persisted
      nextNumber := number + 1
      removeNumberReservation := false })

def delete (number : Nat) :
    NonvolatileEventStore Payload :=
  { store with storage := store.storage.deleteEvent number }

end NonvolatileEventStore

/-! ### A device over its restarts -/

inductive EventStore (Payload : Type)
  | volatile (store : VolatileEventStore Payload)
  | nonvolatile (store : NonvolatileEventStore Payload)

/-- The store a process is configured with. -/
inductive StoreType
  | volatile (numberBlockSize : Nat)
  | nonvolatile

namespace EventStore

def load (storage : Storage Payload) : StoreType → EventStore Payload
  | .volatile numberBlockSize => .volatile (VolatileEventStore.load storage numberBlockSize)
  | .nonvolatile => .nonvolatile (NonvolatileEventStore.load storage)

def storage : EventStore Payload → Storage Payload
  | .volatile store => store.storage
  | .nonvolatile store => store.storage

def nextNumber : EventStore Payload → Nat
  | .volatile store => store.nextNumber
  | .nonvolatile store => store.nextNumber

def occurrences : EventStore Payload → List (Nat × Occurrence Payload)
  | .volatile store => store.events
  | .nonvolatile store => store.storage.events

def add (occurrence : Occurrence Payload) :
    EventStore Payload → OccurrenceSummary × EventStore Payload
  | .volatile store => ((store.add occurrence).1, .volatile (store.add occurrence).2)
  | .nonvolatile store => ((store.add occurrence).1, .nonvolatile (store.add occurrence).2)

def delete (number : Nat) : EventStore Payload → EventStore Payload
  | .volatile store => .volatile (store.delete number)
  | .nonvolatile store => .nonvolatile (store.delete number)

end EventStore

/-- The store of the running process and the numbers `add` has returned, the latest last. -/
structure Device (Payload : Type) where
  store : EventStore Payload
  returned : List Nat := []

inductive DeviceEvent (Payload : Type)
  | add (occurrence : Occurrence Payload)
  | delete (number : Nat)
  | restart (type : StoreType)

namespace Device

def boot (storage : Storage Payload) (type : StoreType) : Device Payload where
  store := EventStore.load storage type

def step (device : Device Payload) : DeviceEvent Payload → Option (Device Payload)
  | .add occurrence =>
    let (summary, store) := device.store.add occurrence
    some { store, returned := device.returned ++ [summary.number] }
  | .delete number => some { device with store := device.store.delete number }
  | .restart type => some { device with store := EventStore.load device.store.storage type }

end Device

end MatterJs.Events
