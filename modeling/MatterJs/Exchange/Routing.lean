import MatterJs.Exchange.Calm
import MatterJs.Exchange.Manager
import MatterJs.Foundation.TransitionSystem

/-!
# Routing of messages to exchanges

As long as no exchange is added under an index that is taken, the table has every exchange
that is not closed, and a message for an open exchange of its session is handed to it.
-/
namespace MatterJs.Exchange

open TransitionSystem InsertionMap List Option MessageExchange

namespace MessageExchange

section Continues

variable {x y : MessageExchange} {c : Clock}

section
variable (x)

theorem continues_setTimer (i : Bool) : Continues x (x.setRetransmissionTimer i) := by
  unfold setRetransmissionTimer
  split <;> exact ⟨rfl, rfl, rfl, id⟩

theorem continues_transmit (c : Clock) (s : Sending)
    (i : Nat) : Continues x (x.transmit c s i) := by
  unfold transmit
  split <;> exact ⟨rfl, rfl, rfl, id⟩

theorem continues_transmitted (c : Clock) (s : Sending)
    (ms : Message) (p : Option AckPromise) : Continues x (x.transmitted c s ms p) := by
  have h1 : Continues x { x with
      lastTransmissionAt := if s.isStandaloneAck then x.lastTransmissionAt
        else some c.now } := ⟨rfl, rfl, rfl, id⟩
  cases p with
  | none => exact h1.trans (calm_returnTo _ _).toContinues
  | some p =>
    have h2 : Continues x { x with
        lastTransmissionAt := if s.isStandaloneAck then x.lastTransmissionAt
          else some c.now
        retransmissionCounter := 0 } := ⟨rfl, rfl, rfl, id⟩
    exact (h2.trans (continues_setTimer _ true)).trans ⟨rfl, rfl, rfl, id⟩

theorem continues_send (c : Clock) (t : Nat)
    (o : ExchangeSendOptions) : Continues x (x.send c t o) := by
  unfold send
  split_ifs
  · exact .refl x
  · have h1 : Continues x { x with sendOptions := o, retransmissionCounter := 0 } :=
      ⟨rfl, rfl, rfl, id⟩
    refine h1.trans ?_
    rcases startSend_cases { x with sendOptions := o, retransmissionCounter := 0 } c
      t none .send with he | ⟨he, -⟩
    · rw [he]
      exact (calm_throwTo _ _).toContinues
    · rw [he]
      exact ⟨rfl, rfl, rfl, id⟩

theorem continues_retransmit (c : Clock) (ms : Message)
    (e : Option Nat) : Continues x (x.retransmitMessage c ms e).1 := by
  unfold retransmitMessage
  simp only
  split_ifs
  · exact .refl x
  · exact ⟨rfl, rfl, rfl, id⟩
  · have h1 : Continues x { x with retransmissionCounter := x.retransmissionCounter + 1 } :=
      ⟨rfl, rfl, rfl, id⟩
    exact h1.trans (calm_giveUp _).toContinues
  · exact ⟨rfl, rfl, rfl, id⟩

theorem continues_initializeResubmission (ms : Message)
    (b : Nat) (e : Option Nat) : Continues x (x.initializeResubmission ms b e) := by
  unfold initializeResubmission
  split <;> exact ⟨rfl, rfl, rfl, id⟩

theorem continues_acknowledge (p r : Message) : Continues x (x.acknowledge p r) := by
  have h1 : Continues x ((x.setRetransmissionTimer false).ackSuccess (some r)) :=
    (continues_setTimer x false).trans (calm_setPromise _ _ _).toContinues
  exact h1.trans ⟨rfl, rfl, rfl, id⟩

theorem continues_kick (c : Clock) (d : Message) :
    Continues x (x.kickRetransmissionForLiveness c d).1 := by
  unfold kickRetransmissionForLiveness
  split_ifs
  · exact .refl x
  · split
    · split_ifs
      · exact (continues_setTimer x false).trans
          (continues_retransmit _ c _ _)
      · exact .refl x
    · exact .refl x

theorem continues_receiveNew (c : Clock) (ms : Message) : Continues x (x.receiveNew c ms) := by
  unfold receiveNew
  split
  · exact (calm_enqueue x c ms).toContinues
  · rename_i p _
    have ha := continues_acknowledge x p ms
    by_cases hr : some ms.messageId = p.ackedMessageId
    · rw [if_pos hr]
      exact ⟨rfl, rfl, rfl, id⟩
    · rw [if_neg hr]
      cases ms.ackedMessageId with
      | none => exact .refl x
      | some a =>
        simp only
        split_ifs
        · exact (calm_enqueue x c ms).toContinues
        · exact .refl x
        · exact ha.trans (calm_closeNow _ _).toContinues
        · exact ha.trans (calm_enqueue _ c ms).toContinues

theorem continues_received (c : Clock) (ms : Message)
    (d : Bool) : Continues x (x.onMessageReceived c ms d) := by
  have ha := (calm_notifyActivity x c.now).toContinues
  unfold onMessageReceived
  simp only
  split_ifs
  · exact .refl x
  · have hc := ha.trans (continues_kick _ c
      { ms with requiresAck := ms.requiresAck && x.usesMrp })
    split
    · rename_i he
      rw [he] at hc
      exact hc
    · rename_i he
      rw [he] at hc
      exact hc.trans (calm_standaloneAck _ c _ _).toContinues
  · exact ha
  · exact ha.trans (continues_receiveNew _ c _)

end

theorem continues_resume {task : Task} {o : Outcome}
    (h : x.resume c task o = some y) : Continues x y := by
  cases task with
  | counter s =>
    cases o with
    | done i =>
      cases h
      exact continues_transmit x c s i
    | failed | sessionClosed | aborted =>
      cases h
      exact (calm_throwTo _ _).toContinues
  | channelSend s e r =>
    cases o with
    | done value =>
      cases h
      exact continues_transmitted x c s e r
    | failed | sessionClosed | aborted =>
      cases h
      exact (calm_throwTo _ _).toContinues
  | waitForAck s e r => exact (calm_resumeAck h).toContinues
  | retransmission e b p =>
    cases o with
    | sessionClosed =>
      cases h
      exact (calm_closeNow _ _).toContinues
    | done _ | failed | aborted =>
      cases h
      exact continues_initializeResubmission x e b p
  | closing cause =>
    cases h
    exact (calm_continueClose x c cause).toContinues

/-- An event changes neither the session, the id nor the role of an exchange, and reopens none. -/
theorem continues_step {e : Event} (h : x.step c e = some y) : Continues x y := by
  cases e with
  | send t o =>
    cases h
    exact continues_send x c t o
  | receive me d =>
    cases h
    exact continues_received x c me d
  | sendStandaloneAck me =>
    cases h
    exact (calm_standaloneAck x c _ _).toContinues
  | retransmissionTimeout index =>
    simp only [step] at h
    split at h
    · split_ifs at h
      cases h
      exact (calm_stopTimer x index).toContinues.trans (continues_retransmit _ c _ _)
    · cases h
  | receivedMessageAckTimeout =>
    simp only [step] at h
    split_ifs at h
    split at h
    · cases h
      have h1 : Continues x { x with
        receivedMessageAckTimer := false, receivedMessageToAck := none } := ⟨rfl, rfl, rfl, id⟩
      exact h1.trans (calm_standaloneAck _ c _ _).toContinues
    · cases h
      exact ⟨rfl, rfl, rfl, id⟩
  | closeTimeout =>
    simp only [step] at h
    split at h
    · rename_i cause _
      cases h
      have h1 : Continues x { x with closeTimer := some ⟨cause, false⟩ } := ⟨rfl, rfl, rfl, id⟩
      exact h1.trans (calm_closeNow _ _).toContinues
    · cases h
  | close cause =>
    cases h
    exact (calm_close x cause).toContinues
  | destroy =>
    cases h
    exact (calm_destroy x c).toContinues
  | settle index u =>
    obtain ⟨task, _, hr⟩ := bind_eq_some_iff.mp h
    have h1 : Continues x { x with tasks := x.tasks.eraseIdx index } := ⟨rfl, rfl, rfl, id⟩
    exact h1.trans (continues_resume hr)

end Continues

def index (x : MessageExchange) : Nat :=
  if x.isInitiator then x.exchangeId ||| 0x10000 else x.exchangeId

/-- The exchange a message of a session is for. -/
def IsFor (x : MessageExchange) (session : Session) (message : Message) : Prop :=
  x.session = session ∧ x.exchangeId = message.exchangeId ∧
    x.isInitiator = !message.isInitiatorMessage

end MessageExchange

namespace ExchangeManager

variable {m n : ExchangeManager} {c : Clock}

/-- The table has every exchange that is not closed, and a message that is not a duplicate is
handed to the open exchange it is for, and to no other. -/
structure Routed (m : ExchangeManager) : Prop where
  inTable : ∀ (ref : Nat) (entry : Entry), m.pool[ref]? = some entry →
    entry.exchange.closed = false → get m.exchanges entry.index = some ref
  handed : ∀ clock packet parameters n session message (ref : Nat) (entry : Entry),
    m.resolve packet = some (n, session, message) → packet.isDuplicate = false →
    m.pool[ref]? = some entry → entry.exchange.IsFor session message →
    entry.exchange.considerClosed = false → (m.receiveMessage clock packet parameters).calls =
      m.calls ++ [.onMessageReceived ref message false]

/-- No exchange is added under an index that is taken, and none for a response. -/
def indexIsFree (m : ExchangeManager) : Event → Bool
  | .initiate .. => (get m.exchanges (m.incrementedCounter ||| 0x10000)).isNone
  | .receive packet _ =>
    (m.resolve packet).all (fun (n, session, message) =>
      (n.lookup session message).isSome || ((get m.exchanges (exchangeIndexFor message)).isNone &&
          (message.isInitiatorMessage || !message.requiresAck)))
  | _ => true

/-- The table and the exchanges fit together. -/
structure Consistent (m : ExchangeManager) : Prop where
  index : ∀ (ref : Nat) (entry : Entry), m.pool[ref]? = some entry →
    entry.index = entry.exchange.index
  inTable : ∀ (ref : Nat) (entry : Entry), m.pool[ref]? = some entry →
    entry.exchange.closed = false → get m.exchanges entry.index = some ref

theorem index_eq_of_continues {x y : MessageExchange} (h : MessageExchange.Continues x y) :
    y.index = x.index := by
  simp [MessageExchange.index, h.isInitiator, h.exchangeId]

section
variable (hm : m.Consistent)
include hm

theorem setExchange_consistent {ref : Nat} {e : Entry}
    (he : m.pool[ref]? = some e) {x : MessageExchange}
    (hc : MessageExchange.Continues e.exchange x) : (m.setExchange ref x).Consistent := by
  unfold setExchange
  simp only [he]
  refine ⟨fun ref' e' h' => ?_, fun ref' e' h' hp => ?_⟩
  · rw [getElem?_set] at h'
    split_ifs at h' with hq
    · cases h'
      exact (hm.index ref e he).trans (index_eq_of_continues hc).symm
    · exact hm.index ref' e' h'
  · rw [getElem?_set] at h'
    split_ifs at h' with hq
    · -- the exchange itself: if it is open now it was open before, and the table keeps it
      subst hq
      cases h'
      have hb : e.exchange.closed = false := by
        by_contra hl
        have := hc.closed (by simpa using hl)
        simp [this] at hp
      simp only at hp ⊢
      rw [if_neg (by simp [hp])]
      exact hm.inTable ref e he hb
    · have ho := hm.inTable ref' e' h' hp
      split_ifs with hd
      · have hn : e'.index ≠ e.index := by
          intro hi
          simp only [Bool.and_eq_true, decide_eq_true_eq] at hd
          rw [hi, hd.2] at ho
          exact hq (Option.some.inj ho)
        rw [get_delete_of_ne _ hn]
        exact ho
      · exact ho

theorem modify_consistent (ref : Nat) {f : MessageExchange → MessageExchange}
    (hf : ∀ x, MessageExchange.Continues x (f x)) : (m.modifyExchange ref f).Consistent := by
  unfold modifyExchange
  cases he : m.pool[ref]? with
  | none => exact hm
  | some entry => exact setExchange_consistent hm he (hf entry.exchange)

theorem cleanup_consistent (s : Nat) : (m.cleanupSessionExchanges s).Consistent := by
  unfold cleanupSessionExchanges
  simp only
  split_ifs
  · exact hm
  · exact hm
  · split
    · exact hm
    · exact modify_consistent hm _ fun x =>
        (calm_close x false).toContinues

theorem addExchange_consistent {index : Nat} {x : MessageExchange} (hi : index = x.index)
    (hfr : get m.exchanges index = none) : (m.addExchange index x).Consistent := by
  refine cleanup_consistent ⟨fun ref e he => ?_, fun ref e he ho => ?_⟩ _
  · simp only [getElem?_append] at he
    split_ifs at he
    · exact hm.index ref e he
    · obtain rfl := mem_singleton.mp (mem_of_getElem? he)
      exact hi
  · simp only [getElem?_append] at he
    split_ifs at he with hl
    · have hg := hm.inTable ref e he ho
      have hn : e.index ≠ index := by
        intro hq
        rw [hq, hfr] at hg
        cases hg
      rw [get_set_of_ne _ _ hn]
      exact hg
    · obtain ⟨hs, hls⟩ := List.getElem?_eq_some_iff.mp he
      have hf : ref = m.pool.length := by
        simp only [List.length_singleton] at hs
        omega
      obtain rfl := mem_singleton.mp (mem_of_getElem? he)
      simp [hf]

end

section Resolve

variable {pc : Packet} {s : Session} {ms : Message}

/-- What the manager of a resolved packet shares with the one before. -/
structure SameExchanges (m n : ExchangeManager) : Prop where
  pool : n.pool = m.pool
  exchanges : n.exchanges = m.exchanges
  calls : n.calls = m.calls

theorem SameExchanges.consistent (same : SameExchanges m n) (hm : m.Consistent) : n.Consistent := by
  refine ⟨?_, ?_⟩
  · rw [same.pool]
    exact hm.index
  · rw [same.pool, same.exchanges]
    exact hm.inTable

theorem sessionFor_some (h : m.sessionFor pc = some (n, s)) :
    SameExchanges m n ∧ s.id = pc.sessionId := by
  have same : SameExchanges m m := ⟨rfl, rfl, rfl⟩
  unfold sessionFor at h
  split at h
  · split_ifs at h with _ hu
    · unfold unsecuredSessionFor at h
      simp only at h
      split at h
      · rename_i se' hf
        obtain ⟨rfl, rfl⟩ := Prod.mk.inj (Option.some.inj h)
        have hn := find?_some hf
        refine ⟨same, ?_⟩
        rw [hu]
        cases se' with
        | unsecured => rfl
        | node | group => simp [Session.initiatorNodeId] at hn
      · split_ifs at h
        cases h
        exact ⟨⟨rfl, rfl, rfl⟩, hu.symm⟩
    · obtain ⟨se', hf, he⟩ := map_eq_some_iff.mp h
      cases he
      exact ⟨same, m.sessions.key_eq _ _ hf⟩
  · split_ifs at h
    cases h
    exact ⟨same, rfl⟩

theorem resolve_some (h : m.resolve pc = some (n, s, ms)) :
    SameExchanges m n ∧ s.id = pc.sessionId := by
  obtain ⟨⟨n', se'⟩, hs, hm⟩ := bind_eq_some_iff.mp h
  obtain ⟨m', _, hr⟩ := bind_eq_some_iff.mp hm
  obtain ⟨rfl, hp⟩ := Prod.mk.inj (Option.some.inj hr)
  cases hp
  exact sessionFor_some hs

theorem exchangeIndexFor_eq {x : MessageExchange} (h : x.IsFor s ms) :
    exchangeIndexFor ms = x.index := by
  obtain ⟨_, hi, hl⟩ := h
  unfold exchangeIndexFor MessageExchange.index
  rw [hi, hl]
  cases ms.isInitiatorMessage <;> rfl

/-- The table finds the exchange a message is for. -/
theorem lookup_eq (hm : m.Consistent) {ref : Nat} {e : Entry} (he : m.pool[ref]? = some e)
    (ho : e.exchange.closed = false) (hf : e.exchange.IsFor s ms) : m.lookup s ms = some ref := by
  have hg := hm.inTable ref e he ho
  rw [hm.index ref e he, ← exchangeIndexFor_eq hf] at hg
  obtain ⟨hs, _, hl⟩ := hf
  unfold lookup
  rw [hg]
  simp [he, hs, hl]

theorem calls_modifyExchange (m : ExchangeManager) (ref : Nat)
    (f : MessageExchange → MessageExchange) : (m.modifyExchange ref f).calls = m.calls := by
  unfold modifyExchange
  split
  · rfl
  · unfold setExchange
    split <;> rfl

theorem Consistent.routed (hm : m.Consistent) : m.Routed where
  inTable := hm.inTable
  handed := by
    intro c p r n s e ref entry hr hw he hf ho
    obtain ⟨same, hi⟩ := resolve_some hr
    have hc : entry.exchange.closed = false := by
      simp only [considerClosed, Bool.or_eq_false_iff] at ho
      exact ho.1
    have hn := same.consistent hm
    have he' : n.pool[ref]? = some entry := by rw [same.pool]; exact he
    have hl := lookup_eq hn he' hc hf
    have hs : entry.exchange.session.id = p.sessionId := by rw [hf.1, hi]
    unfold receiveMessage
    simp only [hr, hl]
    unfold receiveFor
    simp [he', hs, ho, calls_modifyExchange, call, hw, same.calls]

end Resolve

section Steps

section
variable (hm : m.Consistent)
include hm

theorem call_consistent (c : Call) : (m.call c).Consistent :=
  ⟨hm.index, hm.inTable⟩

theorem receiveFor_consistent (pc : Packet) (ms : Message)
    (ref : Nat) : (m.receiveFor c pc ms ref).Consistent := by
  unfold receiveFor
  split
  · exact hm
  · simp only
    split_ifs
    · exact modify_consistent (call_consistent hm _) ref fun x =>
        (calm_standaloneAck x c ms _).toContinues
    · exact modify_consistent (call_consistent hm _) ref fun x =>
        MessageExchange.continues_received x c ms _

variable {p : SessionParameters} {pc : Packet}

theorem receiveUnmatched_consistent {s : Session} {ms : Message}
    (hg : get m.exchanges (exchangeIndexFor ms) = none) (hr : ms.isInitiatorMessage ∨
    ms.requiresAck = false) : (m.receiveUnmatched c pc p s ms).Consistent := by
  have ha : ms.isInitiatorMessage → (m.addExchange (exchangeIndexFor ms)
      (.fromInitialMessage s p ms c.now)).Consistent := by
    intro hi
    refine addExchange_consistent hm ?_ hg
    simp [exchangeIndexFor, hi, MessageExchange.index, fromInitialMessage]
  unfold receiveUnmatched
  split_ifs with hc hh hack hq
  · exact hm
  · exact hm
  · simp only [Bool.and_eq_true] at hh
    exact call_consistent (modify_consistent (call_consistent (ha hh.1.2) _) _ fun x =>
        MessageExchange.continues_received x c ms false) _
  · have hi : ms.isInitiatorMessage := by simpa [hq] using hr
    exact modify_consistent (call_consistent (ha hi) _) _ fun x =>
      (calm_standaloneAck x c ms _).toContinues
  · exact hm

theorem receiveMessage_consistent
    (hf : m.indexIsFree (.receive pc p)) : (m.receiveMessage c pc p).Consistent := by
  unfold receiveMessage
  cases hr : m.resolve pc with
  | none => exact hm
  | some r =>
    obtain ⟨n, s, e⟩ := r
    obtain ⟨same, _⟩ := resolve_some hr
    have hn := same.consistent hm
    simp only [indexIsFree, hr, all_some, Bool.or_eq_true, Bool.and_eq_true,
      ← same.exchanges, isNone_iff_eq_none, Bool.not_eq_true'] at hf
    cases hl : n.lookup s e with
    | some ref =>
      simp only [hl]
      exact receiveFor_consistent hn pc e ref
    | none =>
      simp only [hl, isSome_none, Bool.false_eq_true, false_or] at hf ⊢
      exact receiveUnmatched_consistent hn hf.1 hf.2

theorem step_consistent {e : Event} (hf : m.indexIsFree e)
    (ht : m.step c e = some n) : n.Consistent := by
  cases e with
  | receive p a =>
    cases ht
    exact receiveMessage_consistent hm hf
  | initiate s a i =>
    cases ht
    simp only [indexIsFree, isNone_iff_eq_none] at hf
    refine addExchange_consistent (m := { m with exchangeCounter := m.incrementedCounter })
      ⟨hm.index, hm.inTable⟩ ?_ hf
    simp [MessageExchange.index, initiate]
  | exchange ref event =>
    simp only [step, stepExchange] at ht
    split at ht
    · cases ht
    · obtain ⟨entry, he, ht⟩ := bind_eq_some_iff.mp ht
      obtain ⟨x, hx, ht⟩ := bind_eq_some_iff.mp ht
      cases ht
      exact setExchange_consistent hm he (MessageExchange.continues_step hx)
  | addSession s =>
    cases s <;> (obtain rfl := Option.some.inj ht; exact ⟨hm.index, hm.inTable⟩)
  | deleteSession s =>
    cases ht
    exact ⟨hm.index, hm.inTable⟩
  | sessionClosing s =>
    cases ht
    exact ⟨hm.index, hm.inTable⟩
  | close =>
    cases ht
    exact ⟨hm.index, hm.inTable⟩

end

def create (exchangeCounter : Nat) (protocols : List ProtocolHandler) : ExchangeManager :=
  { exchangeCounter, protocols }

/-- In every run in which no exchange is added under an index that is taken, and none for a
response, every open exchange stays in the table and gets the messages that are for it. -/
theorem messages_routed {exchangeCounter : Nat} {protocols : List ProtocolHandler}
    {es : List (Clock × Event)} (hrun : Run (guarded (fun m (e : Clock × Event) => m.step e.1 e.2)
      (fun m e => m.indexIsFree e.2 = true)) (create exchangeCounter protocols) es m) :
    m.Routed := by
  have hst : (create exchangeCounter protocols).Consistent := by
    refine ⟨?_, ?_⟩ <;> simp [create]
  refine Consistent.routed (run_invariant (I := Consistent) ?_ hrun hst)
  intro s e t ht hs
  obtain ⟨hfree, ht⟩ := guarded_eq_some.mp ht
  exact step_consistent hs hfree ht

/-- Two exchanges of two sessions with different ids. -/
theorem messages_routed_two : ∃ m, exec (guarded (fun m (e : Clock × Event) => m.step e.1 e.2)
        (fun m e => m.indexIsFree e.2 = true)) (create 0 [⟨1, none⟩])
        [({}, .addSession (.node 1 0)), ({}, .addSession (.node 2 1)),
          ({}, .receive { sessionId := 1, message := some ⟨0, 1, 5, 1, 2, true, true, none⟩ }
            ⟨true, 0, 0, 0⟩),
          ({}, .receive { sessionId := 2, message := some ⟨0, 1, 6, 1, 2, true, true, none⟩ }
            ⟨true, 0, 0, 0⟩)] = some m ∧ m.exchanges = [(5, 0), (6, 1)] ∧ m.Routed := by
  refine exec_and_of_run (P := fun m => m.exchanges = [(5, 0), (6, 1)]) ⟨_, rfl, by decide⟩ ?_
  intro m hu he
  exact ⟨he, messages_routed hu⟩

/-- The peer of a second session uses the exchange id of an open exchange of the first: its
exchange takes the place in the table, and the next message of the first session opens a third
exchange. -/
theorem sameExchangeId_displaces :
    ∃ m, exec (fun m (e : Clock × Event) => m.step e.1 e.2) (create 0 [⟨1, none⟩])
        [({}, .addSession (.node 1 0)), ({}, .addSession (.node 2 1)),
          ({}, .receive { sessionId := 1, message := some ⟨0, 1, 5, 1, 2, true, true, none⟩ }
            ⟨true, 0, 0, 0⟩),
          ({}, .receive { sessionId := 2, message := some ⟨0, 1, 5, 1, 2, true, true, none⟩ }
            ⟨true, 0, 0, 0⟩)] = some m ∧
      m.exchanges = [(5, 1)] ∧ m.pool.map (·.exchange.closed) = [false, false] ∧
      (m.receiveMessage {} { sessionId := 1, message := some ⟨0, 2, 5, 1, 2, true, true, none⟩ }
        ⟨true, 0, 0, 0⟩).calls = m.calls ++
          [.onMessageReceived 2 ⟨0, 2, 5, 1, 2, true, true, none⟩ false, .onNewExchange 2] ∧
      ¬ m.Routed := by
  refine ⟨_, rfl, by decide, by decide, by decide, fun h => ?_⟩
  have := h.inTable 0 _ rfl (by decide)
  exact absurd this (by decide)

end Steps

end ExchangeManager

end MatterJs.Exchange
