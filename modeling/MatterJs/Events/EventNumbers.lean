import MatterJs.Events.EventStore
import MatterJs.Foundation.TransitionSystem
import Mathlib.Data.List.Pairwise

/-!
# Event numbers over restarts

What a process returned must be visible to the next one, through the reservation marker or
through an event key. Three steps lose it: deleting the newest persisted event, adding to a
volatile store whose reservation does not reach the next number, and restarting a volatile
store that cleared the persisted events and has not written a marker yet.
-/
namespace MatterJs.Events

open TransitionSystem IndexedList EventStore List Option Storage

variable {Payload : Type}

/-! ### The next number after a load -/

theorem raiseNextNumber_some (x : Nat) (s : List Nat) :
    ∃ last, raiseNextNumber (some x) s = some last ∧ x ≤ last ∧ ∀ n ∈ s, n < last := by
  induction s generalizing x with
  | nil => exact ⟨x, rfl, Nat.le_refl _, by simp⟩
  | cons n s ih =>
    obtain ⟨last, hr, hl, ht⟩ := ih (if x ≤ n then n + 1 else x)
    have hx : x ≤ last ∧ n < last := by
      by_cases hn : x ≤ n
      · rw [if_pos hn] at hl
        omega
      · rw [if_neg hn] at hl
        omega
    refine ⟨last, hr, hx.1, ?_⟩
    intro other ho
    obtain rfl | ho := mem_cons.mp ho
    · exact hx.2
    · exact ht other ho

variable {storage : Storage Payload}

theorem marker_le_nextNumber {v : Nat}
    (hm : storage.marker = some v) : v ≤ (loadInitialState storage).nextNumber := by
  obtain ⟨l, hr, hl, -⟩ := raiseNextNumber_some v storage.eventIds
  simpa [loadInitialState, hm, hr] using hl

theorem eventId_lt_nextNumber {n : Nat}
    (hmem : n ∈ storage.eventIds) : n < (loadInitialState storage).nextNumber := by
  cases hm : storage.marker with
  | some value =>
    obtain ⟨last, hr, -, hl⟩ := raiseNextNumber_some value storage.eventIds
    simpa [loadInitialState, hm, hr] using hl n hmem
  | none =>
    cases hi : storage.eventIds with
    | nil => simp [hi] at hmem
    | cons first u =>
      obtain ⟨last, hr, he, hl⟩ := raiseNextNumber_some (first + 1) u
      have hd : (loadInitialState storage).nextNumber = last := by
        simp [loadInitialState, hm, hi, raiseNextNumber, hr]
      rw [hd]
      rw [hi] at hmem
      obtain rfl | hmem := mem_cons.mp hmem
      · exact he
      · exact hl n hmem

/-- A number raised over some keys is the start value or one more than a key. -/
theorem raiseNextNumber_attained (x : Nat) (s : List Nat) :
    raiseNextNumber (some x) s = some x ∨ ∃ n ∈ s, raiseNextNumber (some x) s = some (n + 1) := by
  induction s generalizing x with
  | nil => exact .inl rfl
  | cons n s ih =>
    rcases ih (if x ≤ n then n + 1 else x) with hs | ⟨other, hm, ho⟩
    · by_cases hn : x ≤ n
      · refine .inr ⟨n, mem_cons_self, ?_⟩
        simpa [raiseNextNumber, if_pos hn] using hs
      · refine .inl ?_
        simpa [raiseNextNumber, if_neg hn] using hs
    · exact .inr ⟨other, mem_cons_of_mem _ hm, ho⟩

/-- Without a marker the next number is one, or follows a persisted event. -/
theorem nextNumber_of_no_marker (hm : storage.marker = none) :
    storage.eventIds = [] ∧ (loadInitialState storage).nextNumber = 1 ∨
      ∃ n ∈ storage.eventIds, (loadInitialState storage).nextNumber = n + 1 := by
  cases hi : storage.eventIds with
  | nil => exact .inl ⟨rfl, by simp [loadInitialState, hm, hi, raiseNextNumber]⟩
  | cons first u =>
    right
    simp only [loadInitialState, hm, hi, raiseNextNumber]
    rcases raiseNextNumber_attained (first + 1) u with hs | ⟨n, he, hn⟩
    · exact ⟨first, mem_cons_self, by rw [hs]; rfl⟩
    · exact ⟨n, mem_cons_of_mem _ he, by rw [hn]; rfl⟩

theorem one_le_nextNumber (hm : storage.marker = none) :
    1 ≤ (loadInitialState storage).nextNumber := by
  rcases nextNumber_of_no_marker hm with ⟨-, hn⟩ | ⟨n, -, hn⟩
  · exact Nat.le_of_eq hn.symm
  · rw [hn]
    exact Nat.le_add_left ..

/-! ### The invariant -/

namespace EventStore

/-- The record of the returned numbers that a store keeps in its storage. -/
def Recorded : EventStore Payload → List Nat → Prop
  | .volatile store, returned =>
    store.numbersReservedTo = store.storage.marker ∧ store.storage.eventIds = [] ∧
    (store.storage.marker = none → 1 ≤ store.nextNumber) ∧
    ∀ value, store.storage.marker = some value → ∀ number ∈ returned, number < value
  | .nonvolatile store, returned =>
    store.removeNumberReservation = store.storage.marker.isSome ∧
    (∀ value, store.storage.marker = some value → ∀ number ∈ returned, number < value) ∧
    (store.storage.marker = none → (∀ number ∈ returned, number < 1) ∨
      ∃ number ∈ store.storage.eventIds, store.nextNumber = number + 1)

/-- The numbers returned are in the storage: a marker is stored or no number is used. -/
def canRestart : EventStore Payload → Bool
  | .volatile store => store.storage.marker.isSome || store.nextNumber == 1
  | .nonvolatile _ => true

variable {st : EventStore Payload} {r : List Nat}

/-- The next process starts above the recorded numbers. -/
theorem lt_nextNumber_load (hr : st.Recorded r) (hs : st.canRestart)
    (hb : ∀ number ∈ r, number < st.nextNumber) :
    ∀ number ∈ r, number < (loadInitialState st.storage).nextNumber := by
  intro number hn
  cases hm : st.storage.marker with
  | some value =>
    have hl : number < value := by
      cases st with
      | volatile st => exact hr.2.2.2 value hm number hn
      | nonvolatile st => exact hr.2.1 value hm number hn
    exact Nat.lt_of_lt_of_le hl (marker_le_nextNumber hm)
  | none =>
    have hl := hb number hn
    cases st with
    | volatile st =>
      -- No number above zero was returned, and the storage loads with at least one.
      simp only [storage] at hm
      simp only [canRestart, hm, isSome_none, Bool.false_or, beq_iff_eq] at hs
      simp only [nextNumber, hs] at hl
      exact Nat.lt_of_lt_of_le hl (one_le_nextNumber hm)
    | nonvolatile st =>
      rcases hr.2.2 hm with hz | ⟨n, he, hw⟩
      · exact Nat.lt_of_lt_of_le (hz number hn) (one_le_nextNumber hm)
      · have hd := eventId_lt_nextNumber he
        simp only [nextNumber, hw] at hl
        exact Nat.lt_of_lt_of_le hl hd

variable (storage)

theorem nextNumber_load (t : StoreType) :
    (load storage t).nextNumber = (loadInitialState storage).nextNumber := by
  cases t <;> rfl

theorem marker_load (n : Nat) : (VolatileEventStore.load storage n).storage.marker =
    storage.marker ∧ (VolatileEventStore.load storage n).storage.eventIds = [] := by
  by_cases hi : storage.eventIds = []
  · simp [VolatileEventStore.load, loadInitialState, hi]
  · simp [VolatileEventStore.load, loadInitialState, hi]

/-- A store records the numbers below its storage's marker and below the number it starts with. -/
theorem recorded_load (t : StoreType) (hm : ∀ v, storage.marker = some v → ∀ n ∈ r, n < v)
    (hb : ∀ n ∈ r, n < (loadInitialState storage).nextNumber) : (load storage t).Recorded r := by
  cases t with
  | volatile b =>
    obtain ⟨hs, hi⟩ := marker_load storage b
    refine ⟨hs.symm, hi, ?_, ?_⟩
    · intro hn
      exact one_le_nextNumber (hs ▸ hn)
    · intro v hv
      exact hm v (hs ▸ hv)
  | nonvolatile =>
    refine ⟨rfl, hm, ?_⟩
    intro hn
    rcases nextNumber_of_no_marker hn with ⟨-, ho⟩ | hw
    · exact .inl (fun n hnm => ho ▸ hb n hnm)
    · exact .inr hw

theorem marker_above (hr : st.Recorded r) :
    ∀ value, st.storage.marker = some value → ∀ n ∈ r, n < value := by
  cases st with
  | volatile st => exact hr.2.2.2
  | nonvolatile st => exact hr.2.1

end EventStore

/-! ### Adding -/

namespace VolatileEventStore

variable {s : VolatileEventStore Payload} {o : Occurrence Payload}

/-- After an `add` within one block of the reservation the marker is above the number. -/
theorem marker_add (o : Occurrence Payload) (hs : s.numbersReservedTo = s.storage.marker)
    (hp : s.storage.marker = none → 1 ≤ s.nextNumber)
    (hb : s.nextNumber < s.reservedTo + s.numberBlockSize) : ∃ value, (s.add o).2.storage.marker =
    some value ∧ (s.add o).2.numbersReservedTo = some value ∧ s.nextNumber < value := by
  by_cases hr : s.nextNumber ≥ s.reservedTo
  · refine ⟨s.reservedTo + s.numberBlockSize, ?_, ?_, hb⟩
    · simp [add, if_pos hr]
    · simp [add, if_pos hr]
  · have hl := Nat.lt_of_not_le hr
    cases hm : s.storage.marker with
    | none =>
      have ho := hp hm
      simp only [reservedTo, hs, hm, getD_none] at hl
      omega
    | some value =>
      refine ⟨value, ?_, ?_, ?_⟩
      · simpa [add, if_neg hr] using hm
      · simpa only [add, if_neg hr] using hs.trans hm
      · simpa [reservedTo, hs, hm] using hl

theorem nextNumber_add : (s.add o).2.nextNumber = s.nextNumber + 1 := by
  by_cases hr : s.nextNumber ≥ s.reservedTo
  · simp [add, if_pos hr]
  · simp [add, if_neg hr]

theorem eventIds_add : (s.add o).2.storage.eventIds = s.storage.eventIds := by
  by_cases hr : s.nextNumber ≥ s.reservedTo
  · simp [add, if_pos hr]
  · simp [add, if_neg hr]

end VolatileEventStore

namespace NonvolatileEventStore

variable {t : NonvolatileEventStore Payload}

/-- After an `add` there is no marker, and the event has its key. -/
theorem storage_add (o : Occurrence Payload)
    (hr : t.removeNumberReservation = t.storage.marker.isSome) :
    (t.add o).2.storage.marker = none ∧ t.nextNumber ∈ (t.add o).2.storage.eventIds := by
  have he := t.storage.mem_eventIds_setEvent t.nextNumber o
  cases hm : t.storage.marker with
  | none =>
    have hp : t.removeNumberReservation = false := by rw [hr, hm]; rfl
    simp [add, hp, hm, he]
  | some value =>
    have hd : t.removeNumberReservation := by rw [hr, hm]; rfl
    simp [add, hd, he]

end NonvolatileEventStore

namespace Device

/-- The condition on a step: an `add` to a volatile store finds the next number within one block
of the reservation, a persisted event is deleted only if it is not the newest or a marker is
stored, and a volatile store is restarted only with a marker stored or no number used. -/
def keepsRecord (device : Device Payload) : DeviceEvent Payload → Bool
  | .add _ =>
    match device.store with
    | .volatile store => store.nextNumber < store.reservedTo + store.numberBlockSize
    | .nonvolatile _ => true
  | .delete number =>
    match device.store with
    | .volatile _ => true
    | .nonvolatile store => store.storage.marker.isSome || number + 1 != store.nextNumber
  | .restart _ => device.store.canRestart

structure Increasing (device : Device Payload) : Prop where
  sorted : device.returned.Pairwise (· < ·)
  below : ∀ number ∈ device.returned, number < device.store.nextNumber
  recorded : device.store.Recorded device.returned

variable {d : Device Payload} {e : DeviceEvent Payload}

theorem increasing_boot (storage : Storage Payload) (t : StoreType) :
    (boot storage t).Increasing where
  sorted := .nil
  below := by simp [boot]
  recorded := recorded_load storage t (by simp [boot]) (by simp [boot])

variable {o : Occurrence Payload}

section

variable (hkeeps : d.keepsRecord (.add o))
include hkeeps

/-- The store after an `add` that meets the condition: the number is the next one and is
recorded with the earlier ones. -/
theorem add_spec (h : d.Increasing) : (d.store.add o).1.number = d.store.nextNumber ∧
      (d.store.add o).2.nextNumber = d.store.nextNumber + 1 ∧
      (d.store.add o).2.Recorded (d.returned ++ [d.store.nextNumber]) := by
  obtain ⟨-, hb, hr⟩ := h
  obtain ⟨s, returned⟩ := d
  cases s with
  | volatile s =>
    obtain ⟨hs, hi, hp, hm⟩ := hr
    obtain ⟨value, hv, hrs, ht⟩ :=
      VolatileEventStore.marker_add o hs hp
        (by simpa [keepsRecord] using hkeeps)
    refine ⟨rfl, VolatileEventStore.nextNumber_add, hrs.trans hv.symm, ?_, ?_, ?_⟩
    · exact VolatileEventStore.eventIds_add.trans hi
    · intro hn
      rw [hv] at hn
      cases hn
    · intro other ho number hnm
      obtain rfl : value = other := mem_unique hv ho
      rcases mem_concat_cases hnm with hl | rfl
      · exact Nat.lt_trans (hb number hl) ht
      · exact ht
  | nonvolatile s =>
    obtain ⟨hrm, -, -⟩ := hr
    obtain ⟨hn, he⟩ := NonvolatileEventStore.storage_add o hrm
    refine ⟨rfl, rfl, ?_, ?_, ?_⟩
    · rw [hn]
      rfl
    · intro value hv
      rw [hn] at hv
      cases hv
    · intro _
      exact .inr ⟨s.nextNumber, he, rfl⟩

theorem increasing_add (h : d.Increasing) :
    Increasing { store := (d.store.add o).2
                 returned := d.returned ++ [(d.store.add o).1.number] } := by
  obtain ⟨hnm, hn, hr⟩ := add_spec hkeeps h
  rw [hnm]
  refine ⟨?_, ?_, hr⟩
  · refine pairwise_append.mpr ⟨h.sorted, pairwise_singleton .., ?_⟩
    intro e he number hm
    rw [mem_singleton.mp hm]
    exact h.below e he
  · intro number hm
    simp only [hn]
    rcases mem_concat_cases hm with ho | rfl
    · exact Nat.lt_succ_of_lt (h.below number ho)
    · exact Nat.lt_succ_self _

end

theorem increasing_delete {n : Nat} (hkeeps : d.keepsRecord (.delete n)) (h : d.Increasing) :
    Increasing { d with store := d.store.delete n } := by
  obtain ⟨hs, hb, hr⟩ := h
  obtain ⟨s, re⟩ := d
  cases s with
  | volatile s =>
    refine ⟨hs, hb, ?_⟩
    simpa [Recorded, delete, VolatileEventStore.delete] using hr
  | nonvolatile s =>
    refine ⟨hs, hb, hr.1, hr.2.1, ?_⟩
    intro hnn
    refine (hr.2.2 hnn).imp_right ?_
    rintro ⟨e, he, hn⟩
    -- The newest event stays: without a marker it is not the one deleted.
    refine ⟨e, mem_eventIds_deleteEvent _ ?_ he, hn⟩
    rintro rfl
    have hm : s.storage.marker = none := hnn
    simp [keepsRecord, hm, hn] at hkeeps

theorem increasing_restart {t : StoreType} (hkeeps : d.keepsRecord (.restart t))
    (h : d.Increasing) : Increasing { d with store := load d.store.storage t } := by
  have hl := lt_nextNumber_load h.recorded hkeeps h.below
  refine ⟨h.sorted, ?_, recorded_load _ t (marker_above h.recorded) hl⟩
  simpa [nextNumber_load] using hl

theorem increasing_step {d' : Device Payload} (hkeeps : d.keepsRecord e)
    (hs : d.step e = some d') (h : d.Increasing) : d'.Increasing := by
  cases e with
  | add c =>
    cases hs
    exact increasing_add hkeeps h
  | delete n =>
    cases hs
    exact increasing_delete hkeeps h
  | restart t =>
    cases hs
    exact increasing_restart hkeeps h

/-- Over any history of additions, deletions and restarts that all keep the record, with the two
stores in any order, every number returned is greater than every earlier one. -/
theorem eventNumbers_increase (storage : Storage Payload) (type : StoreType)
    (events : List (DeviceEvent Payload)) (device : Device Payload)
    (hrun : Run (guarded step (·.keepsRecord ·))
      (boot storage type) events device) : device.returned.Pairwise (· < ·) := by
  have hi : device.Increasing :=
    run_invariant (fun _ _ _ hs h =>
      increasing_step (guarded_eq_some.mp hs).1 (guarded_eq_some.mp hs).2 h)
      hrun (increasing_boot storage type)
  exact hi.sorted

def sampleOccurrence : Occurrence Unit := ⟨0, 40, 0, 0, .critical, ()⟩

/-- A persistent store whose older event is deleted, converted to a volatile store with blocks
of four numbers, restarted twice and converted back. -/
theorem eventNumbers_increase_converted : ∃ device : Device Unit,
      exec (guarded step (·.keepsRecord ·)) (boot {} .nonvolatile)
        [.add sampleOccurrence, .add sampleOccurrence, .delete 1, .restart (.volatile 4),
         .add sampleOccurrence,
         .restart (.volatile 4), .add sampleOccurrence, .restart .nonvolatile,
         .add sampleOccurrence] = some device ∧
      device.returned = [1, 2, 3, 5, 9] ∧ device.returned.Pairwise (· < ·) := by
  refine exec_and_of_run (P := fun device => device.returned = [1, 2, 3, 5, 9])
    ⟨_, rfl, by decide⟩ ?_
  intro device hu hr
  exact ⟨hr, eventNumbers_increase _ _ _ device hu⟩

/-- Numbers come back when the newest event is deleted before a restart, when a store with more
events than a block is converted to a volatile one, and when the converted store is restarted
before its first event. -/
theorem eventNumbers_repeat : (exec step (boot {} .nonvolatile)
      [.add sampleOccurrence, .delete 1, .restart .nonvolatile, .add sampleOccurrence]).map
        Device.returned = some [1, 1] ∧ (exec step (boot {} .nonvolatile)
      [.add sampleOccurrence, .add sampleOccurrence, .add sampleOccurrence,
       .restart (.volatile 2), .add sampleOccurrence, .restart (.volatile 2),
       .add sampleOccurrence]).map Device.returned = some [1, 2, 3, 4, 3] ∧
    (exec step (boot {} .nonvolatile)
      [.add sampleOccurrence, .restart (.volatile 1000), .restart (.volatile 1000),
       .add sampleOccurrence]).map Device.returned = some [1, 1] := by
  decide

end Device

end MatterJs.Events
