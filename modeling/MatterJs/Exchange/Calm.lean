import Mathlib.Data.List.Perm.Basic
import MatterJs.Exchange.MessageExchange

/-!
# Steps that transmit no reliable message

What most methods of an exchange leave alone: the message that waits for its
acknowledgement, the options of its send, the counter of its transmissions, and the timers,
which at most stop.
-/
namespace MatterJs.Exchange

open List

/-- How far a call is with a reliable message. -/
inductive Stage
  /-- The message is not made yet. -/
  | prepared (limit : Nat)
  /-- The channel is taking it for the first time. -/
  | initial (key : Nat)
  /-- The channel is taking it again. -/
  | again (key : Nat)
  | quiet

def Stage.isSend : Stage → Bool
  | .prepared _ | .initial _ => true
  | .again _ | .quiet => false

def Task.stage : Task → Stage
  | .counter sending => if sending.isReliable then .prepared sending.limit else .quiet
  | .channelSend _ message (some _) => .initial message.key
  | .channelSend _ _ none => .quiet
  | .waitForAck .. => .quiet
  | .retransmission message .. => .again message.key
  | .closing _ => .quiet

theorem Task.stage_setPromise (key : Nat) (f : AckPromise → AckPromise) (task : Task) :
    (task.setPromise key f).stage = task.stage := by
  unfold Task.setPromise
  split <;> rfl

namespace LogEntry

def key : LogEntry → Nat
  | .initial key _ | .retransmission key | .resent key | .unreliable key | .acked key => key

/-- The message is put on the channel, for the first time or again by a timer. -/
def isTransmission (key : Nat) : LogEntry → Bool
  | .initial key' _ | .retransmission key' => key' = key
  | .resent _ | .unreliable _ | .acked _ => false

/-- The message is put on the channel in any way. -/
def isSent (key : Nat) : LogEntry → Bool
  | .initial key' _ | .retransmission key' | .resent key' | .unreliable key' => key' = key
  | .acked _ => false

theorem key_of_isTransmission {key : Nat} {e : LogEntry}
    (h : e.isTransmission key) : e.key = key := by
  cases e <;> first | exact of_decide_eq_true h | cases h

end LogEntry

namespace MessageExchange

variable {x y z : MessageExchange} {cc : Clock} {c : Caller}

def stages (x : MessageExchange) : List Stage := x.tasks.map Task.stage

/-- What stays of an exchange for its whole life. -/
structure Continues (x y : MessageExchange) : Prop where
  session : y.session = x.session
  exchangeId : y.exchangeId = x.exchangeId
  isInitiator : y.isInitiator = x.isInitiator
  closed : x.closed → y.closed

theorem Continues.refl (x : MessageExchange) : Continues x x := ⟨rfl, rfl, rfl, id⟩

theorem Continues.trans (h1 : Continues x y) (h2 : Continues y z) : Continues x z where
  session := h2.session.trans h1.session
  exchangeId := h2.exchangeId.trans h1.exchangeId
  isInitiator := h2.isInitiator.trans h1.isInitiator
  closed := h2.closed ∘ h1.closed

/-- What is added to the log has nothing to do with the count of a reliable message. -/
def QuietEntry (x y : MessageExchange) (entry : LogEntry) : Prop :=
  (∃ key, entry = .unreliable key ∧ x.nextKey ≤ key ∧ key < y.nextKey) ∨
    ∃ m, x.sentMessageToAck = some m ∧ entry = .resent m.key

/-- The timers are the same, and none has started. -/
def TimersStop (timers timers' : List RetransmissionTimer) : Prop :=
  ∀ (index : Nat) (timer' : RetransmissionTimer), timers'[index]? = some timer' →
    ∃ timer : RetransmissionTimer, timers[index]? = some timer ∧ timer'.message = timer.message ∧
      (timer'.isRunning → timer.isRunning)

structure Calm (x y : MessageExchange) : Prop extends Continues x y where
  pending : y.sentMessageToAck = x.sentMessageToAck
  options : y.sendOptions = x.sendOptions
  counter : x.retransmissionCounter ≤ y.retransmissionCounter
  current : y.retransmissionTimer = x.retransmissionTimer
  length : y.timers.length = x.timers.length
  timers : TimersStop x.timers y.timers
  stages : ∃ n, y.stages = x.stages ++ List.replicate n .quiet
  log : ∃ entries, y.log = x.log ++ entries ∧ ∀ entry ∈ entries, QuietEntry x y entry
  key : x.nextKey ≤ y.nextKey

theorem TimersStop.refl (timers : List RetransmissionTimer) : TimersStop timers timers :=
  fun _ t' h => ⟨t', h, rfl, id⟩

theorem TimersStop.mem {ts ts' : List RetransmissionTimer} (h : TimersStop ts ts')
    {t' : RetransmissionTimer} (he : t' ∈ ts') :
    ∃ t ∈ ts, t'.message = t.message ∧ (t'.isRunning → t.isRunning) := by
  obtain ⟨index, hi⟩ := mem_iff_getElem?.mp he
  obtain ⟨t, ht, hm, hr⟩ := h index t' hi
  exact ⟨t, mem_of_getElem? ht, hm, hr⟩

/-- The part of an exchange that a reliable message depends on. -/
structure Core where
  pending : Option Message
  options : ExchangeSendOptions
  counter : Nat
  current : Option Nat
  timers : List RetransmissionTimer
  stages : List Stage
  log : List LogEntry
  key : Nat

def core (x : MessageExchange) : Core :=
  ⟨x.sentMessageToAck, x.sendOptions, x.retransmissionCounter, x.retransmissionTimer, x.timers,
    x.stages, x.log, x.nextKey⟩

theorem Calm.of_core (h : y.core = x.core) (hc : Continues x y) : Calm x y := by
  have ht : y.timers = x.timers := congrArg Core.timers h
  have hs : y.stages = x.stages := congrArg Core.stages h
  have hl : y.log = x.log := congrArg Core.log h
  exact {
    hc with
    pending := congrArg Core.pending h
    options := congrArg Core.options h
    counter := Nat.le_of_eq (congrArg Core.counter h).symm
    current := congrArg Core.current h
    length := by rw [ht]
    timers := by rw [ht]; exact .refl _
    stages := ⟨0, by simp [hs]⟩
    log := ⟨[], by simp [hl]⟩
    key := Nat.le_of_eq (congrArg Core.key h).symm }

theorem Calm.refl (x : MessageExchange) : Calm x x :=
  .of_core rfl (.refl x)

theorem Calm.trans (h1 : Calm x y) (h2 : Calm y z) : Calm x z where
  toContinues := h1.toContinues.trans h2.toContinues
  pending := h2.pending.trans h1.pending
  options := h2.options.trans h1.options
  counter := Nat.le_trans h1.counter h2.counter
  current := h2.current.trans h1.current
  length := h2.length.trans h1.length
  timers index timer'' h := by
    obtain ⟨t', h', hm', hr'⟩ := h2.timers index timer'' h
    obtain ⟨timer, h, hms, hr⟩ := h1.timers index t' h'
    exact ⟨timer, h, hm'.trans hms, hr ∘ hr'⟩
  stages := by
    obtain ⟨n, hn⟩ := h1.stages
    obtain ⟨m, hm⟩ := h2.stages
    exact ⟨n + m, by rw [hm, hn, append_assoc, replicate_append_replicate]⟩
  log := by
    obtain ⟨en, ho, hen⟩ := h1.log
    obtain ⟨e', hl', he'⟩ := h2.log
    refine ⟨en ++ e', by rw [hl', ho, append_assoc], fun e he => ?_⟩
    rcases mem_append.mp he with he | he
    · rcases hen e he with ⟨key, rfl, hg, hl⟩ | hs
      · exact .inl ⟨key, rfl, hg, Nat.lt_of_lt_of_le hl h2.key⟩
      · exact .inr hs
    · rcases he' e he with ⟨key, rfl, hg, hl⟩ | ⟨m, hm, rfl⟩
      · exact .inl ⟨key, rfl, Nat.le_trans h1.key hg, hl⟩
      · exact .inr ⟨m, h1.pending ▸ hm, rfl⟩
  key := Nat.le_trans h1.key h2.key

section
variable (x)

theorem calm_notifyActivity (now : Nat) : Calm x (x.notifyActivity now) :=
  .of_core rfl ⟨rfl, rfl, rfl, id⟩

theorem calm_stopTimer (index : Nat) : Calm x (x.setTimer index false) where
  toContinues := ⟨rfl, rfl, rfl, id⟩
  pending := rfl
  options := rfl
  counter := Nat.le_refl _
  current := rfl
  length := length_modify ..
  timers index' timer' h := by
    simp only [setTimer, getElem?_modify] at h
    obtain ⟨timer, ht, rfl⟩ := Option.map_eq_some_iff.mp h
    refine ⟨timer, ht, ?_, ?_⟩ <;> split_ifs <;> simp
  stages := ⟨0, by simp [stages, setTimer]⟩
  log := ⟨[], by simp [setTimer]⟩
  key := Nat.le_refl _

theorem calm_stopRetransmissionTimer : Calm x (x.setRetransmissionTimer false) := by
  unfold setRetransmissionTimer
  split
  · exact .refl x
  · exact calm_stopTimer x _

theorem calm_setPromise (key : Option Nat) (f : AckPromise → AckPromise) :
    Calm x (x.setPromise key f) := by
  cases key with
  | none => exact .refl x
  | some key =>
    have hs : (x.setPromise (some key) f).stages = x.stages := by
      simp [stages, setPromise, Task.stage_setPromise]
    refine .of_core ?_ ⟨rfl, rfl, rfl, id⟩
    unfold core
    rw [hs]
    rfl

theorem calm_closeNow (c : Bool) : Calm x (x.closeNow c) := by
  have h1 : Calm x { x with closeCause := x.closeCause || c } :=
    .of_core rfl ⟨rfl, rfl, rfl, id⟩
  have h2 := calm_stopRetransmissionTimer { x with closeCause := x.closeCause || c }
  exact ((h1.trans h2).trans (calm_setPromise _ _ _)).trans
    (.of_core rfl ⟨rfl, rfl, rfl, fun _ => rfl⟩)

theorem calm_closeWhenAcked (c : Bool) : Calm x (x.closeWhenAcked c) := by
  unfold closeWhenAcked
  split_ifs
  · exact calm_closeNow x c
  · exact .of_core rfl ⟨rfl, rfl, rfl, id⟩

theorem calm_returnTo (c : Caller) : Calm x (x.returnTo c) := by
  cases c with
  | send => exact .refl x
  | other => exact .refl x
  | received m => exact .of_core rfl ⟨rfl, rfl, rfl, id⟩
  | close cause => exact calm_closeWhenAcked x cause
  | destroy => exact calm_closeNow x false

theorem calm_throwTo (c : Caller) : Calm x (x.throwTo c) := by
  cases c with
  | send => exact .refl x
  | other => exact .refl x
  | received m => exact .refl x
  | close cause => exact calm_returnTo x (.close cause)
  | destroy => exact calm_returnTo x .destroy

end

/-- A task that waits and is not about a reliable message. -/
theorem calm_task {task : Task} (hq : task.stage = .quiet) :
    Calm x { x with tasks := x.tasks ++ [task] } where
  toContinues := ⟨rfl, rfl, rfl, id⟩
  pending := rfl
  options := rfl
  counter := Nat.le_refl _
  current := rfl
  length := rfl
  timers := .refl _
  stages := ⟨1, by simp [stages, hq]⟩
  log := ⟨[], by simp⟩
  key := Nat.le_refl _

section
variable (x)

theorem calm_prepareSend (cc : Clock) (s : Option Nat) : Calm x (x.prepareSend cc s) :=
  .of_core rfl ⟨rfl, rfl, rfl, id⟩

/-- A `#send` is rejected, or waits for a number. -/
theorem startSend_cases (cc : Clock) (m : Nat) (s : Option Nat) (c : Caller) :
    x.startSend cc m s c = x.throwTo c ∨ (x.startSend cc m s c =
        { x.prepareSend cc s with
          tasks := x.tasks ++ [.counter (x.sendingOf m s c)] } ∧
        (s = none → x.sentMessageToAck = none)) := by
  unfold startSend
  split_ifs with h1 h2 h3
  · exact .inl rfl
  · exact .inl rfl
  · exact .inl rfl
  · refine .inr ⟨rfl, ?_⟩
    rintro rfl
    simpa using h3

theorem calm_standaloneAck (cc : Clock) (ms : Message)
    (c : Caller) : Calm x (x.sendStandaloneAckForMessage cc ms c) := by
  unfold sendStandaloneAckForMessage
  split_ifs
  · exact calm_returnTo x c
  · rcases startSend_cases x cc SecureMessageType.standaloneAck (some ms.messageId) c
      with he | ⟨he, _⟩
    · rw [he]
      exact calm_throwTo x c
    · rw [he]
      exact (calm_prepareSend x cc _).trans
        (calm_task (by simp [Task.stage, Sending.isReliable, sendingOf]))

end

section
variable (x)

theorem calm_enqueue (cc : Clock) (ms : Message) : Calm x (x.enqueue cc ms) := by
  unfold enqueue
  split_ifs
  · exact .refl x
  · split
    · have h1 : Calm x { x with receivedMessageAckTimer := false } :=
        .of_core rfl ⟨rfl, rfl, rfl, id⟩
      exact h1.trans (calm_standaloneAck _ cc _ _)
    · exact calm_returnTo x _
  · exact .of_core rfl ⟨rfl, rfl, rfl, id⟩

theorem calm_giveUp : Calm x x.giveUp := by
  have h1 : Calm x (if x.sentMessageAckFailure.isSome then
      { ({ x with receivedMessageToAck := none }.ackFailure) with
        sentMessageAckFailure := none, sentMessageAckSuccess := none } else x) := by
    split_ifs
    · have h1 : Calm x { x with receivedMessageToAck := none } :=
        .of_core rfl ⟨rfl, rfl, rfl, id⟩
      exact (h1.trans (calm_setPromise _ _ _)).trans (.of_core rfl ⟨rfl, rfl, rfl, id⟩)
    · exact .refl x
  unfold giveUp
  simp only
  split_ifs at h1 ⊢
  · exact h1.trans (calm_closeNow _ false)
  · exact h1
  · exact h1.trans (calm_closeNow _ false)
  · exact h1

theorem calm_close (cs : Bool) : Calm x (x.close cs) := by
  unfold close
  cases ht : x.closeTimer with
  | some timer =>
    simp only
    split_ifs
    · exact .refl x
    · have h1 : Calm x { x with closeTimer := some { timer with isRunning := false } } :=
        .of_core rfl ⟨rfl, rfl, rfl, id⟩
      exact h1.trans (calm_closeNow _ cs)
    · exact .refl x
  | none =>
    simp only
    split_ifs
    · exact .refl x
    · exact calm_closeNow x cs
    · have h1 : Calm x { x with closing := true, closeTimer := none } :=
        .of_core rfl ⟨rfl, rfl, rfl, id⟩
      exact h1.trans (calm_task rfl)
    · exact .refl x

theorem calm_continueClose (cc : Clock) (c : Bool) : Calm x (x.continueClose cc c) := by
  unfold continueClose
  split_ifs
  · exact .refl x
  · split
    · have h1 : Calm x { x with receivedMessageAckTimer := false, receivedMessageToAck := none } :=
        .of_core rfl ⟨rfl, rfl, rfl, id⟩
      exact h1.trans (calm_standaloneAck _ cc _ _)
    · exact calm_closeWhenAcked x c

theorem calm_destroy (cc : Clock) : Calm x (x.destroy cc) := by
  have h1 : Calm x { x with isDestroyed := true } := .of_core rfl ⟨rfl, rfl, rfl, id⟩
  unfold destroy
  split_ifs
  · exact .refl x
  · simp only
    split
    · have h2 : Calm x { x with
          isDestroyed := true, receivedMessageAckTimer := false, receivedMessageToAck := none } :=
        .of_core rfl ⟨rfl, rfl, rfl, id⟩
      exact h2.trans (calm_standaloneAck _ cc _ _)
    · exact h1.trans (calm_closeNow _ false)

end

/-- The acknowledgement has arrived or the call is aborted. -/
theorem calm_resumeAck {s : Sending} {p : AckPromise} {o : Outcome}
    (h : x.resumeAck s p o = some y) : Calm x y := by
  unfold resumeAck at h
  split_ifs at h
  · cases h
    exact (calm_stopRetransmissionTimer x).trans (calm_throwTo _ _)
  · cases h
    have h1 : Calm x { x with sentMessageAckSuccess := none, sentMessageAckFailure := none } :=
      .of_core rfl ⟨rfl, rfl, rfl, id⟩
    exact h1.trans (calm_returnTo _ _)

end MessageExchange

end MatterJs.Exchange
