import MatterJs.Foundation.KeyIndex
import MatterJs.Foundation.TransitionSystem
import Mathlib.Logic.Function.Iterate

/-!
# Session ids

The session manager hands out ids from a counter that starts anywhere in 16 bits. When all are
taken, the session that was used least recently is closed and its id is given out again.
-/
namespace MatterJs.Session

open List TransitionSystem

def ID_SPACE_UPPER_BOUND : Nat := 0xffff

structure NodeSession where
  /-- Which object it is. -/
  ref : Nat
  id : Nat
  deriving DecidableEq

structure SessionState where
  timestamp : Nat := 0
  /-- The close has begun, or is deferred until the exchanges end. -/
  isClosing : Bool := false
  /-- As it is once the subscriptions are closed. -/
  hasActiveExchanges : Bool := false

structure MatterFlowError where
  message : String

/-- The registered sessions are indexed by their id. -/
structure SessionManager where
  nextSessionId : Nat
  sessions : KeySet NodeSession.id := .empty
  states : NodeSession → SessionState := fun _ => {}

/-- The counter skips zero as it goes on. -/
def advance (id : Nat) : Nat :=
  let next := (id + 1) &&& ID_SPACE_UPPER_BOUND
  if next = 0 then next + 1 else next

namespace SessionManager

variable (m : SessionManager)

def getSession (id : Nat) : Option NodeSession := m.sessions.index id

/-- `#leastRecentlyUsedSession`: the first of those with the earliest timestamp. -/
def leastRecentlyUsedSession (filter : NodeSession → Bool) : Option NodeSession :=
  m.sessions.entries.foldl
    (fun oldest session =>
      if filter session &&
          oldest.all (fun o => (m.states session).timestamp < (m.states o).timestamp) then
        some session
      else oldest)
    none

def findOldestInactiveSession : Except MatterFlowError NodeSession :=
  match m.leastRecentlyUsedSession (fun _ => true) with
  | some oldest => .ok oldest
  | none => .error ⟨"No session found to close and all session ids are taken."⟩

/-- `initiateClose` of a session. One that is closing is left alone; one with exchanges is closed
when they end; any other is closed and deleted. -/
def initiateClose (session : NodeSession) : SessionManager :=
  let state := m.states session
  if state.isClosing then m
  else if state.hasActiveExchanges then
    { m with states := Function.update m.states session { state with isClosing := true } }
  else { m with sessions := m.sessions.delete session }

/-- The loop over the ids, with the rounds that are left. -/
def search (m : SessionManager) : Nat → Option Nat × SessionManager
  | 0 => (none, m)
  | rounds + 1 =>
    let id := m.nextSessionId
    let m := { m with nextSessionId := advance id }
    if m.getSession id = none then (some id, m) else m.search rounds

def getNextAvailableSessionId : Except MatterFlowError Nat × SessionManager :=
  match m.search ID_SPACE_UPPER_BOUND with
  | (some id, m) => (.ok id, m)
  | (none, m) =>
    match m.findOldestInactiveSession with
    | .error error => (.error error, m)
    | .ok oldestSession =>
      let m := m.initiateClose oldestSession
      (.ok oldestSession.id, { m with nextSessionId := oldestSession.id + 1 })

/-- What can happen to the manager. The state of a session changes in whatever way. -/
inductive Event
  | add (session : NodeSession)
  | delete (session : NodeSession)
  | change (session : NodeSession) (state : SessionState)
  | getNextAvailableSessionId

def step : Event → Option SessionManager
  | .add session => some { m with sessions := m.sessions.add session }
  | .delete session => some { m with sessions := m.sessions.delete session }
  | .change session state => some { m with states := Function.update m.states session state }
  | .getNextAvailableSessionId => some m.getNextAvailableSessionId.2

def IsTaken (id : Nat) : Prop := ∃ session ∈ m.sessions.entries, session.id = id

instance (id : Nat) : Decidable (m.IsTaken id) :=
  inferInstanceAs (Decidable (∃ session ∈ m.sessions.entries, session.id = id))

/-- A session is registered only with an id that no registered session has. -/
def AddsFreeId : Event → Bool
  | .add session => !m.IsTaken session.id
  | _ => true

def InRange (id : Nat) : Prop := 1 ≤ id ∧ id ≤ ID_SPACE_UPPER_BOUND

/-- The counter is in the range, or at an id that is taken; and where all ids that the loop tries
are taken, the session to close has no exchange, is not closing yet, and its id is in the range. -/
def CanAllocate : Prop :=
  (m.IsTaken m.nextSessionId ∨ InRange m.nextSessionId) ∧
  ((∀ i < ID_SPACE_UPPER_BOUND, m.IsTaken (advance^[i] m.nextSessionId)) →
    ∀ session, m.leastRecentlyUsedSession (fun _ => true) = some session →
      (m.states session).isClosing = false ∧ (m.states session).hasActiveExchanges = false ∧
      InRange session.id)

variable {m} {id : Nat} {ss : NodeSession}

theorem advance_range (id : Nat) : InRange (advance id) := by
  have hl : (id + 1) &&& ID_SPACE_UPPER_BOUND ≤ ID_SPACE_UPPER_BOUND := Nat.and_le_right
  unfold advance InRange
  dsimp only
  split_ifs with hz
  · rw [hz]
    decide
  · omega

theorem getSession_eq_none (h : m.sessions.Exact) :
    m.getSession id = none ↔ ¬ m.IsTaken id := by
  rw [getSession, h.2.eq_none_iff, IsTaken]
  push Not
  rfl

theorem search_cases (m : SessionManager) (ro : Nat) :
    (∃ i < ro, (0 < i → m.getSession m.nextSessionId ≠ none) ∧
      m.getSession (advance^[i] m.nextSessionId) = none ∧
      m.search ro = (some (advance^[i] m.nextSessionId),
        { m with nextSessionId := advance^[i + 1] m.nextSessionId })) ∨
    (∀ i < ro, m.getSession (advance^[i] m.nextSessionId) ≠ none) ∧
      ∃ nextSessionId, m.search ro = (none, { m with nextSessionId }) := by
  induction ro generalizing m with
  | zero => exact .inr ⟨fun i hi => absurd hi (Nat.not_lt_zero i), _, rfl⟩
  | succ ro ih =>
    by_cases hfree : m.getSession m.nextSessionId = none
    · refine .inl ⟨0, Nat.succ_pos _, fun hi => absurd hi (Nat.lt_irrefl 0), hfree, ?_⟩
      exact if_pos hfree
    · have hs : m.search (ro + 1)
          = { m with nextSessionId := advance m.nextSessionId }.search ro := if_neg hfree
      rw [hs]
      rcases ih { m with nextSessionId := advance m.nextSessionId } with
        ⟨i, hi, -, hnn, he⟩ | ⟨ha, hn⟩
      · exact .inl ⟨i + 1, Nat.succ_lt_succ hi, fun _ => hfree, hnn, he⟩
      · refine .inr ⟨?_, hn⟩
        intro i hi
        cases i with
        | zero => exact hfree
        | succ i => exact ha i (Nat.lt_of_succ_lt_succ hi)

theorem mem_of_leastRecentlyUsed {l : NodeSession → Bool}
    (h : m.leastRecentlyUsedSession l = some ss) : ss ∈ m.sessions.entries := by
  have hm : ∀ o ∈ m.leastRecentlyUsedSession l, o ∈ m.sessions.entries := by
    refine List.foldlRecOn (motive := fun f : Option NodeSession =>
      ∀ o ∈ f, o ∈ m.sessions.entries) _ _ (fun _ he => by cases he) ?_
    intro f hf ss hs o ho
    split_ifs at ho
    · cases ho
      exact hs
    · exact hf o ho
  exact hm ss h

/-- Where a session is registered, one is found. -/
theorem exists_leastRecentlyUsed (hn : m.sessions.entries ≠ []) :
    ∃ ss, m.leastRecentlyUsedSession (fun _ => true) = some ss := by
  obtain ⟨first, rest, hs⟩ := exists_cons_of_ne_nil hn
  rw [← Option.isSome_iff_exists, leastRecentlyUsedSession, hs, foldl_cons]
  refine List.foldlRecOn (motive := fun f : Option NodeSession => f.isSome) _ _
    rfl ?_
  intro f hf ss _
  split_ifs
  · rfl
  · exact hf

/-- The id of the session that is closed is free only if the session is gone. -/
theorem taken_initiateClose (h : m.sessions.Exact) (hm : ss ∈ m.sessions.entries) :
    ¬ (m.initiateClose ss).IsTaken ss.id ↔
      (m.states ss).isClosing = false ∧ (m.states ss).hasActiveExchanges = false := by
  unfold initiateClose
  dsimp only
  split_ifs with hc ha
  · exact ⟨fun hn => absurd ⟨ss, hm, rfl⟩ hn, fun hn => by simp [hc] at hn⟩
  · exact ⟨fun hn => absurd ⟨ss, hm, rfl⟩ hn, fun hn => by simp [ha] at hn⟩
  · simp only [hc, ha, and_self, iff_true]
    rintro ⟨other, ho, he⟩
    rw [KeySet.delete, if_pos hm, h.1.mem_erase_iff] at ho
    exact ho.1 (h.2.eq_of_key_eq ho.2 hm he)

theorem getNextAvailableSessionId_iff (h : m.sessions.Exact) :
    (∃ id, m.getNextAvailableSessionId.1 = .ok id ∧ InRange id ∧
      ¬ m.getNextAvailableSessionId.2.IsTaken id) ↔ m.CanAllocate := by
  unfold getNextAvailableSessionId
  rcases search_cases m ID_SPACE_UPPER_BOUND with ⟨i, hi, hf, hfree, he⟩ |
    ⟨ht, nextSessionId, he⟩
  · -- an id is free
    rw [getSession_eq_none h] at hfree
    have ha : ¬ ∀ i < ID_SPACE_UPPER_BOUND, m.IsTaken (advance^[i] m.nextSessionId) :=
      fun ha => hfree (ha i hi)
    have hot : ¬ { m with nextSessionId := advance^[i + 1] m.nextSessionId }.IsTaken
        (advance^[i] m.nextSessionId) := hfree
    simp only [he, Except.ok.injEq, exists_eq_left', CanAllocate, ha, false_implies, and_true, hot,
      not_false_eq_true]
    cases i with
    | zero => exact ⟨.inr, fun h => h.resolve_left hfree⟩
    | succ i =>
      refine ⟨fun _ => .inl ?_, fun _ => ?_⟩
      · exact not_not.mp (mt (getSession_eq_none h).mpr (hf i.succ_pos))
      · rw [Function.iterate_succ_apply' advance i]
        exact advance_range _
  · -- all ids that are tried are taken
    have ht : ∀ i < ID_SPACE_UPPER_BOUND, m.IsTaken (advance^[i] m.nextSessionId) :=
      fun i hi => not_not.mp (mt (getSession_eq_none h).mpr (ht i hi))
    obtain ⟨first, hfirst, -⟩ := ht 0 (by decide)
    obtain ⟨ss, ho⟩ := exists_leastRecentlyUsed (ne_nil_of_mem hfirst)
    have hfn : { m with nextSessionId }.findOldestInactiveSession = .ok ss := by
      have hs : { m with nextSessionId }.leastRecentlyUsedSession (fun _ => true) = some ss := ho
      rw [findOldestInactiveSession, hs]
    simp only [he, hfn, Except.ok.injEq, exists_eq_left']
    refine (and_congr_right' (taken_initiateClose (m := { m with nextSessionId }) h
      (mem_of_leastRecentlyUsed ho))).trans ⟨?_, ?_⟩
    · intro h
      refine ⟨.inl (ht 0 (by decide)), fun _ other ho' => ?_⟩
      obtain rfl := Option.mem_unique ho ho'
      exact ⟨h.2.1, h.2.2, h.1⟩
    · intro h
      obtain ⟨hc, ha, hr⟩ := h.2 ht ss ho
      exact ⟨hr, hc, ha⟩

/-! ### Runs -/

theorem exact_initiateClose (h : m.sessions.Exact) :
    (m.initiateClose ss).sessions.Exact := by
  unfold initiateClose
  dsimp only
  split_ifs
  · exact h
  · exact h
  · exact h.delete

theorem exact_getNextAvailableSessionId (h : m.sessions.Exact) :
    m.getNextAvailableSessionId.2.sessions.Exact := by
  unfold getNextAvailableSessionId
  rcases search_cases m ID_SPACE_UPPER_BOUND with ⟨i, -, -, -, he⟩ | ⟨-, nextSessionId, he⟩
  · rw [he]
    exact h
  · rw [he]
    dsimp only
    split
    · exact h
    · exact exact_initiateClose h

theorem exact_step {t : SessionManager} (e : Event) (hg : m.AddsFreeId e) (ht : m.step e = some t)
    (h : m.sessions.Exact) : t.sessions.Exact := by
  cases e with
  | add session =>
    cases ht
    have hf : ¬ m.IsTaken session.id := by simpa [AddsFreeId] using hg
    exact h.add fun other ho he => hf ⟨other, ho, he⟩
  | delete session =>
    cases ht
    exact h.delete
  | change session state =>
    cases ht
    exact h
  | getNextAvailableSessionId =>
    cases ht
    exact exact_getNextAvailableSessionId h

/-- As long as no session is registered with an id that is taken, a call returns an id of the range
that no session has then exactly if the state before it allows that. -/
theorem session_ids_are_available_iff {nextSessionId : Nat} {events : List Event}
    (h : Run (guarded step (AddsFreeId · ·)) { nextSessionId } events m) :
    (∃ id, m.getNextAvailableSessionId.1 = .ok id ∧ InRange id ∧
      ¬ m.getNextAvailableSessionId.2.IsTaken id) ↔ m.CanAllocate :=
  getNextAvailableSessionId_iff (guarded_invariant
    (I := fun m => m.sessions.Exact) (fun _ e _ => exact_step e) h
    ⟨nodup_nil, KeyIndex.indexes_nil⟩)

/-- An id that is taken is passed over. -/
theorem session_ids_are_available_iff_taken :
    ∃ m, exec (guarded step (AddsFreeId · ·)) { nextSessionId := 0xffff }
        [.add ⟨0, 0xffff⟩] = some m ∧ ∃ id, m.getNextAvailableSessionId.1 = .ok id ∧ InRange id ∧
          ¬ m.getNextAvailableSessionId.2.IsTaken id :=
  exec_and_of_run (P := fun m => m.IsTaken m.nextSessionId ∧ ¬ m.IsTaken (advance m.nextSessionId))
    ⟨_, rfl, by decide⟩
    fun _ hr h => (session_ids_are_available_iff hr).mpr
      ⟨.inl h.1, fun ht => absurd (ht 1 (by decide)) h.2⟩

/-- The counter starts at zero, which is then the first id. -/
theorem zero_is_allocated :
    (getNextAvailableSessionId { nextSessionId := 0 }).1 = .ok 0 ∧ ¬ InRange 0 :=
  ⟨rfl, fun h => absurd h.1 (by decide)⟩

end SessionManager

end MatterJs.Session
