import MatterJs.Coap.CoapClient

/-! How the requests of a CoAP client settle, over all interleavings of requests, sends, timers and
inbound messages. -/
namespace MatterJs.Coap

open TransitionSystem Function Option Request CoapClient

variable {s t : CoapClient} {i j : Nat} {d : Option (Option (Nat × CoapMessage))} {r : Request}
  {o : Outcome} {ms : CoapMessage}

/-- What holds of one request and of the correlation slots it may have. -/
structure Sound (s : CoapClient) (i : Nat) : Prop where
  byMsgId : s.pendingByMsgId (s.requests i).messageId = some i →
    (s.requests i).outcome = none ∧ (s.requests i).separateTimer = false
  byToken : s.pendingByToken (s.requests i).token = some i → (s.requests i).outcome = none
  unsettled : (s.requests i).outcome = none →
    s.pendingByToken (s.requests i).token = some i ∧ ((s.requests i).separateTimer ∨
      s.pendingByMsgId (s.requests i).messageId = some i ∧
        ((s.requests i).sending ∨ (s.requests i).retransmitTimer))
  answered : (s.requests i).answered →
    s.pendingByMsgId (s.requests i).messageId = some i → s.dispatchesTo i
  bounded : (s.requests i).sent ≤ 1 + (s.requests i).attempt ∧
    (s.requests i).attempt ≤ MAX_RETRANSMIT
  punctual : (s.requests i).late = false
  genuine : ∀ m, (s.requests i).outcome = some (.resolved m) → m.token = (s.requests i).token
  dispatched : ∀ m, s.dispatching = some (some (i, m)) → m.token = (s.requests i).token

structure Correlated (s : CoapClient) : Prop where
  keyed : ∀ id i, s.pendingByMsgId id = some i → i < s.count ∧ (s.requests i).messageId = id
  tokened : ∀ token i, s.pendingByToken token = some i → i < s.count ∧ (s.requests i).token = token
  dispatches : ∀ i, s.dispatchesTo i → i < s.count
  distinct : ∀ i j, i < s.count → j < s.count → i ≠ j → s.busy i → s.busy j →
    (s.requests i).messageId ≠ (s.requests j).messageId ∧
      (s.requests i).token ≠ (s.requests j).token
  sound : ∀ i, i < s.count → Sound s i

theorem busy_of_unsettled (h : (s.requests i).outcome = none) : s.busy i := by
  simp [CoapClient.busy, h]

/-- A step of one request, which may free its slots and be dispatched to. -/
structure Touches (s t : CoapClient) (i : Nat) : Prop where
  count : t.count = s.count
  other : ∀ j, j ≠ i → t.requests j = s.requests j
  messageId : (t.requests i).messageId = (s.requests i).messageId
  token : (t.requests i).token = (s.requests i).token
  byMsgId : t.pendingByMsgId = s.pendingByMsgId ∨
    t.pendingByMsgId = update s.pendingByMsgId (s.requests i).messageId none
  byToken : t.pendingByToken = s.pendingByToken ∨
    t.pendingByToken = update s.pendingByToken (s.requests i).token none
  dispatching : t.dispatching = s.dispatching ∨ t.dispatching = none ∧
    (∀ j, s.dispatchesTo j → j = i) ∨ s.dispatching = none ∧ ∃ m, t.dispatching = some (some (i, m))

theorem update_none_eq_some {α : Type} [DecidableEq α] {f g : α → Option Nat} {a b : α}
    (h : g = f ∨ g = update f a none) (hg : g b = some j) : f b = some j := by
  rcases h with rfl | rfl
  · exact hg
  · by_cases he : b = a
    · simp [he] at hg
    · simpa [he] using hg

theorem update_none_of_ne {α : Type} [DecidableEq α] {f g : α → Option Nat} {a b : α}
    (h : g = f ∨ g = update f a none) (hn : b ≠ a) : g b = f b := by
  rcases h with rfl | rfl
  · rfl
  · exact update_of_ne hn _ _

namespace Touches

theorem dispatchesTo (h : Touches s t i) (hn : j ≠ i) : t.dispatchesTo j = s.dispatchesTo j := by
  rcases h.dispatching with he | ⟨he, ho⟩ | ⟨he, m, heq'⟩
  · simp [CoapClient.dispatchesTo, he]
  · rw [CoapClient.dispatchesTo, he]
    exact (Bool.eq_false_iff.mpr (fun hj => hn (ho j hj))).symm
  · simp [CoapClient.dispatchesTo, he, heq', Ne.symm hn]

theorem busy (h : Touches s t i) (hn : j ≠ i) : t.busy j = s.busy j := by
  rw [CoapClient.busy, h.other j hn, h.dispatchesTo hn, CoapClient.busy]

/-- The others are untouched, because a busy one shares neither its id nor its token. -/
theorem correlated (ht : Touches s t i) (h : Correlated s) (hi : i < s.count)
    (hb : s.busy i) (hs : Sound t i) : Correlated t := by
  have hnm (j : Nat) : (t.requests j).messageId = (s.requests j).messageId ∧
      (t.requests j).token = (s.requests j).token := by
    by_cases hn : j = i
    · subst hn
      exact ⟨ht.messageId, ht.token⟩
    · rw [ht.other j hn]
      exact ⟨rfl, rfl⟩
  have hb' (j : Nat) (hj : t.busy j) : s.busy j := by
    by_cases hn : j = i
    · exact hn ▸ hb
    · rwa [ht.busy hn] at hj
  refine ⟨?_, ?_, ?_, ?_, ?_⟩
  · intro id j hj
    obtain ⟨hl, hid⟩ := h.keyed id j (update_none_eq_some ht.byMsgId hj)
    exact ⟨ht.count ▸ hl, (hnm j).1.trans hid⟩
  · intro token j hj
    obtain ⟨hl, htk⟩ := h.tokened token j (update_none_eq_some ht.byToken hj)
    exact ⟨ht.count ▸ hl, (hnm j).2.trans htk⟩
  · intro j hj
    rw [ht.count]
    by_cases hn : j = i
    · exact hn ▸ hi
    · exact h.dispatches j (ht.dispatchesTo hn ▸ hj)
  · intro j k hj hk hn hbj hbk
    rw [ht.count] at hj hk
    rw [(hnm j).1, (hnm j).2, (hnm k).1, (hnm k).2]
    exact h.distinct j k hj hk hn (hb' j hbj) (hb' k hbk)
  · intro j hj
    by_cases hn : j = i
    · exact hn ▸ hs
    rw [ht.count] at hj
    have ho := h.sound j hj
    have hd (hu : (s.requests j).outcome = none) :=
      h.distinct j i hj hi hn (busy_of_unsettled hu) hb
    rw [← ht.other j hn] at hd
    constructor
    · rw [ht.other j hn]
      exact fun hp => ho.byMsgId (update_none_eq_some ht.byMsgId hp)
    · rw [ht.other j hn]
      exact fun hp => ho.byToken (update_none_eq_some ht.byToken hp)
    · intro hu
      obtain ⟨hid, htk⟩ := hd hu
      rw [update_none_of_ne ht.byToken htk, update_none_of_ne ht.byMsgId hid]
      rw [ht.other j hn] at hu ⊢
      exact ho.unsettled hu
    · rw [ht.other j hn, ht.dispatchesTo hn]
      exact fun ha hp => ho.answered ha (update_none_eq_some ht.byMsgId hp)
    · rw [ht.other j hn]
      exact ho.bounded
    · rw [ht.other j hn]
      exact ho.punctual
    · rw [ht.other j hn]
      exact ho.genuine
    · rw [ht.other j hn]
      intro m hm
      rcases ht.dispatching with he | ⟨he, -⟩ | ⟨-, m', he⟩
      · exact ho.dispatched m (he ▸ hm)
      · simp [he] at hm
      · simp [he, Ne.symm hn] at hm

end Touches

namespace Correlated

variable (h : Correlated s)
include h

section
variable (hi : i < s.count)
include hi

/-- A request that is not settled, or whose outcome is its own, is settled. -/
theorem settle (hs : s.busy i)
    (hid : r.messageId = (s.requests i).messageId) (ht : r.token = (s.requests i).token)
    (hb : r.sent ≤ 1 + r.attempt ∧ r.attempt ≤ MAX_RETRANSMIT) (hl : r.late = false)
    (hu : r.outcome = (s.requests i).outcome) (hg : ∀ m, o = .resolved m → m.token = r.token)
    (hd : d = s.dispatching ∨ d = none ∧ ∀ j, s.dispatchesTo j → j = i) :
    Correlated { (s.setRequest i r).settle i o with dispatching := d } := by
  refine Touches.correlated (s := s) (i := i) ⟨rfl, ?_, ?_, ?_, ?_, ?_, ?_⟩ h hi hs ?_
  · intro j hn
    simp [CoapClient.settle, setRequest, hn]
  · simp [CoapClient.settle, setRequest, hid]
  · simp [CoapClient.settle, setRequest, ht]
  · simp [CoapClient.settle, setRequest, hid]
  · simp [CoapClient.settle, setRequest, ht]
  · exact hd.imp_right .inl
  · have ho := h.sound i hi
    constructor <;> simp only [CoapClient.settle, setRequest, update_self, reduceCtorEq,
        false_implies, implies_true]
    · exact hb
    · exact hl
    · intro m hm
      cases hp : r.outcome with
      | none =>
        simp only [hp, Option.some.injEq] at hm
        exact hg m hm
      | some first =>
        simp only [hp, getD_some] at hm
        rw [ht]
        exact ho.genuine m (by rw [← hu, hp, hm])
    · intro m hm
      rw [ht]
      rcases hd with he | ⟨he, -⟩
      · exact ho.dispatched m (he ▸ hm)
      · simp [he] at hm

theorem settle_self (hb : s.busy i)
    (hg : ∀ m, o = .resolved m → m.token = (s.requests i).token) : Correlated (s.settle i o) := by
  have ho := h.sound i hi
  have hs := h.settle (r := s.requests i) hi hb rfl rfl ho.bounded ho.punctual rfl
    hg (.inl rfl)
  rwa [show s.setRequest i (s.requests i) = s by simp [setRequest]] at hs

/-- A request waits on, with its slots, its outcome and its separate timer as they were. -/
theorem wait (hbs : s.busy i)
    (hd : r.messageId = (s.requests i).messageId) (ht : r.token = (s.requests i).token)
    (hu : r.outcome = (s.requests i).outcome) (hs : r.separateTimer = (s.requests i).separateTimer)
    (ha : r.answered = (s.requests i).answered)
    (hw : s.pendingByMsgId (s.requests i).messageId = some i → r.sending ∨ r.retransmitTimer)
    (hb : r.sent ≤ 1 + r.attempt ∧ r.attempt ≤ MAX_RETRANSMIT) (hl : r.late = false) :
    Correlated (s.setRequest i r) := by
  have ho := h.sound i hi
  refine Touches.correlated (s := s) (i := i)
    ⟨rfl, ?_, ?_, ?_, .inl rfl, .inl rfl, .inl rfl⟩ h hi hbs ?_
  · intro j he
    simp [setRequest, he]
  · simp [setRequest, hd]
  · simp [setRequest, ht]
  constructor <;> simp [setRequest, hd, ht, hu, hs, ha]
  · exact ho.byMsgId
  · exact ho.byToken
  · intro hnn
    obtain ⟨hn, hwait⟩ := ho.unsettled hnn
    exact ⟨hn, hwait.imp_right (fun hp => ⟨hp.1, hw hp.1⟩)⟩
  · exact ho.answered
  · exact hb
  · exact hl
  · exact ho.genuine
  · exact ho.dispatched

theorem sendResolved (hs : (s.requests i).sending) :
    Correlated
      (s.setRequest i { s.requests i with sending := false, retransmitTimer := true }) := by
  have hb : s.busy i := by simp [CoapClient.busy, quiet, hs]
  have ho := h.sound i hi
  exact h.wait hi hb rfl rfl rfl rfl rfl (fun _ => .inr rfl) ho.bounded ho.punctual

theorem retransmitTimeout (ht : (s.requests i).retransmitTimer)
    (hq : s.dispatchesTo i = false) : Correlated (s.retransmitTimeout i) := by
  have hs : s.busy i := by simp [CoapClient.busy, quiet, ht]
  have ho := h.sound i hi
  unfold CoapClient.retransmitTimeout
  dsimp only
  split_ifs with hn hm
  · rw [isNone_iff_eq_none] at hn
    refine h.wait hi hs rfl rfl rfl rfl rfl ?_ ho.bounded ho.punctual
    intro hp
    cases hn.symm.trans hp
  · exact h.settle (r := { s.requests i with retransmitTimer := false }) (o := .rejected _) hi hs
      rfl rfl ho.bounded ho.punctual rfl (by simp) (.inl rfl)
  · -- the slot of the id is that of the request: no other busy request has the id
    have hw : s.pendingByMsgId (s.requests i).messageId = some i := by
      obtain ⟨j, hj⟩ := ne_none_iff_exists'.mp (by simpa using hn)
      obtain ⟨hl, hd⟩ := h.keyed _ _ hj
      by_cases he : j = i
      · exact he ▸ hj
      have hu := ((h.sound j hl).byMsgId (hd ▸ hj)).1
      exact absurd hd (h.distinct j i hl hi he (busy_of_unsettled hu) hs).1
    have ha : (s.requests i).answered = false := by
      by_contra hans
      simp [ho.answered (by simpa using hans) hw] at hq
    have hb := ho.bounded
    exact h.wait hi hs rfl rfl rfl rfl rfl (fun _ => .inr rfl) (by dsimp only; omega)
      (by simp [ho.punctual, ha])

end

theorem found_byMsgId {id : Nat} (hp : s.pendingByMsgId id = some i) :
    i < s.count ∧ (s.requests i).messageId = id ∧ (s.requests i).outcome = none := by
  obtain ⟨hl, hi⟩ := h.keyed id i hp
  exact ⟨hl, hi, ((h.sound i hl).byMsgId (hi ▸ hp)).1⟩

theorem found_byToken {k : List UInt8} (hp : s.pendingByToken k = some i) :
    i < s.count ∧ (s.requests i).token = k ∧ (s.requests i).outcome = none := by
  obtain ⟨hl, ht⟩ := h.tokened k i hp
  exact ⟨hl, ht, (h.sound i hl).byToken (ht ▸ hp)⟩

theorem onEmptyAck {id : Nat} (hp : s.pendingByMsgId id = some i) :
    Correlated (s.onEmptyAck i) := by
  obtain ⟨hi, hd, hu⟩ := h.found_byMsgId hp
  have ho := h.sound i hi
  refine Touches.correlated (s := s) (i := i) ⟨rfl, ?_, ?_, ?_, .inr rfl, .inl rfl, .inl rfl⟩ h hi
    (busy_of_unsettled hu) ?_
  · intro j hn
    simp [CoapClient.onEmptyAck, setRequest, hn]
  · simp [CoapClient.onEmptyAck, setRequest]
  · simp [CoapClient.onEmptyAck, setRequest]
  · constructor <;> simp [CoapClient.onEmptyAck, setRequest]
    · exact fun _ => hu
    · exact fun _ => (ho.unsettled hu).1
    · exact ho.bounded
    · exact ho.punctual
    · exact ho.genuine
    · exact ho.dispatched

/-- The answer to a request has arrived, and its acknowledgement is awaited. -/
theorem dispatch {message : CoapMessage} (hn : s.dispatching = none)
    (hp : s.pendingByToken message.token = some i) :
    Correlated { s.markAnswered i with dispatching := some (some (i, message)) } := by
  obtain ⟨hi, ht, hu⟩ := h.found_byToken hp
  have ho := h.sound i hi
  refine Touches.correlated (s := s) (i := i)
    ⟨rfl, ?_, ?_, ?_, .inl rfl, .inl rfl, .inr (.inr ⟨hn, message, rfl⟩)⟩ h hi
    (busy_of_unsettled hu) ?_
  · intro j he
    simp [markAnswered, setRequest, he]
  · simp [markAnswered, setRequest]
  · simp [markAnswered, setRequest]
  · constructor <;> simp [markAnswered, setRequest]
    · exact ho.byMsgId
    · exact ho.byToken
    · exact ho.unsettled
    · simp [CoapClient.dispatchesTo]
    · exact ho.bounded
    · exact ho.punctual
    · exact ho.genuine
    · simp [ht]

/-- The acknowledgement of a message that answers no request. -/
theorem redispatch (hs : ∀ n, s.dispatching ≠ some (some n))
    (ht : ∀ n, d ≠ some (some n)) : Correlated { s with dispatching := d } := by
  have hl : ∀ i, s.dispatchesTo i = false ∧
      CoapClient.dispatchesTo { s with dispatching := d } i = false := by
    intro i
    unfold CoapClient.dispatchesTo
    constructor
    · split
      · next hd => exact absurd hd (hs _)
      · rfl
    · split
      · next hd => exact absurd hd (ht _)
      · rfl
  refine ⟨h.keyed, h.tokened, fun i hi => by simp [(hl i).2] at hi, ?_, ?_⟩
  · intro i j hi hj hn hbi hb
    rw [CoapClient.busy, (hl _).2, ← (hl _).1] at hbi hb
    exact h.distinct i j hi hj hn hbi hb
  · intro i hi
    have ho := h.sound i hi
    refine ⟨ho.byMsgId, ho.byToken, ho.unsettled, ?_, ho.bounded, ho.punctual,
      ho.genuine, fun m hm => absurd hm (ht _)⟩
    intro ha hp
    exact absurd (ho.answered ha hp) (by simp [(hl i).1])

/-- An answer without an acknowledgement settles its request at once. -/
theorem answer (hi : i < s.count) (hu : (s.requests i).outcome = none)
    (ht : ms.token = (s.requests i).token) :
    Correlated ((s.markAnswered i).settle i (.resolved ms)) := by
  have ho := h.sound i hi
  refine h.settle (r := { s.requests i with answered := true }) hi (busy_of_unsettled hu) rfl rfl
    ho.bounded ho.punctual rfl ?_ (.inl rfl)
  intro m hm
  exact Outcome.resolved.inj hm ▸ ht

theorem dispatchInbound (hn : s.dispatching = none)
    (ho : s.orderly (.inbound ms)) : Correlated (s.dispatchInbound ms) := by
  unfold CoapClient.dispatchInbound
  cases hy : ms.type <;> dsimp only
  case CON =>
    split
    · next i hp => exact h.dispatch hn hp
    · exact h.redispatch (by simp [hn]) (by simp)
  case NON =>
    split
    · next i hp =>
      obtain ⟨hi, ht, hu⟩ := h.found_byToken hp
      exact h.answer hi hu ht.symm
    · exact h
  case ACK =>
    split
    · exact h
    · next i hp =>
      obtain ⟨hi, -, hu⟩ := h.found_byMsgId hp
      split_ifs with he
      · exact h.onEmptyAck hp
      · refine h.answer hi hu ?_
        simp only [orderly, hy, hp, all_some, ne_eq, not_true_eq_false,
          decide_false, Bool.false_or, Bool.or_eq_true, Bool.and_eq_true, decide_eq_true_eq]
          at ho
        exact (ho.resolve_left he).symm
  case RST =>
    split
    · exact h
    · next i hp =>
      obtain ⟨hi, -, hu⟩ := h.found_byMsgId hp
      exact h.settle_self hi (busy_of_unsettled hu) (by simp)

/-- No slot belongs to a request that is still to come. -/
theorem not_byMsgId (id : Nat) : s.pendingByMsgId id ≠ some s.count :=
  fun hp => Nat.lt_irrefl _ (h.keyed id s.count hp).1

theorem not_byToken (k : List UInt8) : s.pendingByToken k ≠ some s.count :=
  fun hp => Nat.lt_irrefl _ (h.tokened k s.count hp).1

/-- A new request takes slots that no busy request has, or none at all. -/
theorem extend {messageId : Nat} {f : Nat → Option Nat} {g : List UInt8 → Option Nat}
    (hs : f = s.pendingByMsgId ∧ g = s.pendingByToken ∧ r.outcome ≠ none ∧ r.quiet ∨
      f = update s.pendingByMsgId r.messageId (some s.count) ∧
      g = update s.pendingByToken r.token (some s.count) ∧ ∀ j, j < s.count → s.busy j →
        (s.requests j).messageId ≠ r.messageId ∧ (s.requests j).token ≠ r.token)
    (t : CoapClient) (ht : t = { s with
      messageId
      count := s.count + 1
      requests := update s.requests s.count r
      pendingByMsgId := f
      pendingByToken := g })
    (hsn : Sound t s.count) : Correlated t := by
  have hsl : t.requests s.count = r := by simp [ht]
  have ho (j : Nat) (hj : j < s.count) : t.requests j = s.requests j := by
    simp [ht, Nat.ne_of_lt hj]
  have hds (j : Nat) : t.dispatchesTo j = s.dispatchesTo j := by
    simp [ht, CoapClient.dispatchesTo]
  have hbs (j : Nat) (hj : j < s.count) : t.busy j = s.busy j := by
    rw [CoapClient.busy, ho j hj, hds, CoapClient.busy]
  have hcn : t.count = s.count + 1 := by rw [ht]
  have hnew (j : Nat) (hj : j < s.count) (hb : s.busy j) (hbr : t.busy s.count) :
      (s.requests j).messageId ≠ r.messageId ∧ (s.requests j).token ≠ r.token := by
    rcases hs with ⟨-, -, hu, hq⟩ | ⟨-, -, hfree⟩
    · have hidle : s.dispatchesTo s.count = false := by
        by_contra hd
        exact absurd (h.dispatches _ (by simpa using hd)) (Nat.lt_irrefl _)
      simp [CoapClient.busy, hsl, hq, hds, hidle, hu] at hbr
    · exact hfree j hj hb
  -- what an older request finds in the slots was there before
  have hf (j : Nat) (hj : j ≠ s.count) :
      (∀ id, t.pendingByMsgId id = some j → s.pendingByMsgId id = some j) ∧
        ∀ token, t.pendingByToken token = some j → s.pendingByToken token = some j := by
    rw [ht]
    dsimp only
    rcases hs with ⟨rfl, rfl, -⟩ | ⟨rfl, rfl, -⟩
    · exact ⟨fun _ => id, fun _ => id⟩
    · constructor <;> intro key he <;> rw [update_apply] at he <;> split_ifs at he <;> simp_all
  have hkp (j : Nat) (hj : j < s.count) (hu : (s.requests j).outcome = none) :
      t.pendingByMsgId (s.requests j).messageId = s.pendingByMsgId (s.requests j).messageId ∧
        t.pendingByToken (s.requests j).token = s.pendingByToken (s.requests j).token := by
    rw [ht]
    rcases hs with ⟨rfl, rfl, -⟩ | ⟨rfl, rfl, hfree⟩
    · exact ⟨rfl, rfl⟩
    · obtain ⟨hi, htk⟩ := hfree j hj (busy_of_unsettled hu)
      exact ⟨update_of_ne hi _ _, update_of_ne htk _ _⟩
  have hw : (∀ id, t.pendingByMsgId id = some s.count → r.messageId = id) ∧
      ∀ token, t.pendingByToken token = some s.count → r.token = token := by
    have hi (id : Nat) := h.not_byMsgId id
    have htk (token : List UInt8) := h.not_byToken token
    rw [ht]
    dsimp only
    rcases hs with ⟨rfl, rfl, -⟩ | ⟨rfl, rfl, -⟩
    · exact ⟨fun id hp => absurd hp (hi id), fun token hp => absurd hp (htk token)⟩
    · constructor <;> intro key he <;> rw [update_apply] at he <;> split_ifs at he <;> simp_all
  have hc (j : Nat) (hj : j < t.count) : j < s.count ∨ j = s.count := by omega
  refine ⟨?_, ?_, ?_, ?_, ?_⟩
  · intro id j hj
    by_cases hn : j = s.count
    · subst hn
      exact ⟨by omega, hsl ▸ hw.1 id hj⟩
    · obtain ⟨hlt, hi⟩ := h.keyed id j ((hf j hn).1 id hj)
      exact ⟨by omega, ho j hlt ▸ hi⟩
  · intro token j hj
    by_cases hn : j = s.count
    · subst hn
      exact ⟨by omega, hsl ▸ hw.2 token hj⟩
    · obtain ⟨hlt, htk⟩ := h.tokened token j ((hf j hn).2 token hj)
      exact ⟨by omega, ho j hlt ▸ htk⟩
  · intro j hj
    have := h.dispatches j (hds j ▸ hj)
    omega
  · intro j k hj hk hn hb hbk
    rcases hc j hj with hj | rfl <;> rcases hc k hk with hk | rfl
    · rw [ho j hj, ho k hk]
      exact h.distinct j k hj hk hn (hbs j hj ▸ hb) (hbs k hk ▸ hbk)
    · rw [ho j hj, hsl]
      exact hnew j hj (hbs j hj ▸ hb) hbk
    · obtain ⟨hi, htk⟩ := hnew k hk (hbs k hk ▸ hbk) hb
      rw [ho k hk, hsl]
      exact ⟨hi.symm, htk.symm⟩
    · exact absurd rfl hn
  · intro j hj
    rcases hc j hj with hj | rfl
    · have hl := h.sound j hj
      obtain ⟨hi, htk⟩ := hf j (Nat.ne_of_lt hj)
      constructor <;> rw [ho j hj]
      · exact fun hp => hl.byMsgId (hi _ hp)
      · exact fun hp => hl.byToken (htk _ hp)
      · intro hu
        rw [(hkp j hj hu).1, (hkp j hj hu).2]
        exact hl.unsettled hu
      · exact fun ha hp => hds j ▸ hl.answered ha (hi _ hp)
      · exact hl.bounded
      · exact hl.punctual
      · exact hl.genuine
      · exact fun m hm => hl.dispatched m (by rwa [ht] at hm)
    · exact hsn

/-- A new request is put on the channel if its id and its token are free. -/
theorem request {token : List UInt8}
    (ho : s.orderly (.request token)) : Correlated (s.request token) := by
  have hi : ∀ m, s.dispatching ≠ some (some (s.count, m)) := by
    intro m hm
    exact Nat.lt_irrefl _ (h.dispatches s.count (by simp [CoapClient.dispatchesTo, hm]))
  unfold CoapClient.request
  split
  · next f hc =>
    refine h.extend (r := ⟨s.messageId, token, false, false, false, 0,
      some (.rejected f), 0, false, false⟩) (.inl ⟨rfl, rfl, by simp, rfl⟩) _ rfl ?_
    constructor <;> simp only [setRequest, update_self]
    · exact fun hp => absurd hp (h.not_byMsgId _)
    · exact fun hp => absurd hp (h.not_byToken _)
    · simp
    · simp
    · simp
    · simp
    · exact fun m hm => absurd hm (hi m)
  · next hc =>
    rw [orderly, hc, isSome_none, Bool.false_or, List.all_eq_true]
      at ho
    refine h.extend (r := ⟨s.messageId, token, true, false, false, 0, none, 1, false, false⟩)
      (.inr ⟨rfl, rfl, ?_⟩) _ rfl ?_
    · intro j hj hb
      simpa [hb] using ho j (List.mem_range.mpr hj)
    · constructor <;> simp only [setRequest, update_self]
      all_goals first
        | exact fun m hm => absurd hm (hi m)
        | simp

theorem rejectAll : Correlated s.rejectAll := by
  unfold CoapClient.rejectAll
  generalize List.range s.count = order
  induction order generalizing s with
  | nil => exact h
  | cons i order ih =>
    refine ih ?_
    dsimp only
    split_ifs with hp
    · obtain ⟨hi, -, ho⟩ := h.found_byToken hp
      exact h.settle_self hi (busy_of_unsettled ho) (by simp)
    · exact h

theorem step {v : Event} (ho : s.orderly v) (he : s.step v = some t) : Correlated t := by
  cases v with
  | request token =>
    cases he
    exact h.request ho
  | sendResolved i =>
    obtain ⟨⟨hi, hs⟩, rfl⟩ := of_enabled he
    exact h.sendResolved hi hs
  | sendRejected i error =>
    obtain ⟨⟨hi, hs⟩, rfl⟩ := of_enabled he
    have hl := h.sound i hi
    have hb : s.busy i := by simp [CoapClient.busy, quiet, hs]
    exact h.settle (r := { s.requests i with sending := false }) (o := .rejected _) hi hb
      rfl rfl hl.bounded hl.punctual rfl (by simp) (.inl rfl)
  | retransmitTimeout i =>
    obtain ⟨⟨hi, ht⟩, rfl⟩ := of_enabled he
    exact h.retransmitTimeout hi ht (by simpa [orderly] using ho)
  | separateTimeout i =>
    obtain ⟨⟨hi, ht⟩, rfl⟩ := of_enabled he
    exact h.settle_self hi (by simp [CoapClient.busy, quiet, ht]) (by simp)
  | inbound e =>
    obtain ⟨hp, hq⟩ := ite_none_left_eq_some.mp he
    cases hq
    exact h.dispatchInbound (by simpa using (not_or.mp hp).2) ho
  | ackSent =>
    simp only [CoapClient.step] at he
    split at he
    · cases he
    · next hd =>
      cases he
      exact h.redispatch (by simp [hd]) (by simp)
    · next i e hd =>
      cases he
      have hto : ∀ j, s.dispatchesTo j ↔ i = j := by simp [CoapClient.dispatchesTo, hd]
      have hi := h.dispatches i ((hto i).mpr rfl)
      have hl := h.sound i hi
      have hst := h.settle (r := s.requests i) (o := .resolved e) hi
        (by simp [CoapClient.busy, hto]) rfl rfl hl.bounded hl.punctual rfl
        (fun m hm => Outcome.resolved.inj hm ▸ hl.dispatched e hd)
        (.inr ⟨rfl, fun j hj => ((hto j).mp hj).symm⟩)
      rwa [show s.setRequest i (s.requests i) = s by simp [setRequest]] at hst
  | channelClosed =>
    obtain ⟨-, hq⟩ := ite_none_left_eq_some.mp he
    cases hq
    have ha := h.rejectAll
    exact ⟨ha.keyed, ha.tokened, ha.dispatches, ha.distinct, fun i hi =>
      have hl := ha.sound i hi
      ⟨hl.byMsgId, hl.byToken, hl.unsettled, hl.answered, hl.bounded, hl.punctual,
        hl.genuine, hl.dispatched⟩⟩

end Correlated

namespace CoapClient

/-- A promise keeps its outcome. -/
theorem outcome_settle {o first : Outcome} (h : (s.requests j).outcome = some first) :
    ((s.settle i o).requests j).outcome = some first := by
  by_cases hn : j = i
  · subst hn
    simp [settle, h]
  · simpa [settle, hn] using h

theorem outcome_setRequest (hr : r.outcome = (s.requests i).outcome)
    (h : (s.requests j).outcome = some o) : ((s.setRequest i r).requests j).outcome = some o := by
  by_cases hn : j = i
  · subst hn
    simpa [setRequest, hr] using h
  · simpa [setRequest, hn] using h

section
variable (h : (s.requests j).outcome = some o)
include h

theorem outcome_rejectAll :
    (s.rejectAll.requests j).outcome = some o ∧ s.rejectAll.count = s.count := by
  unfold rejectAll
  generalize List.range s.count = order
  induction order generalizing s with
  | nil => exact ⟨h, rfl⟩
  | cons i order ih =>
    rw [List.foldl_cons]
    split_ifs with hp
    · exact ih (outcome_settle h)
    · exact ih h

theorem outcome_dispatchInbound {m : CoapMessage}:
    ((s.dispatchInbound m).requests j).outcome = some o ∧
      (s.dispatchInbound m).count = s.count := by
  have hm (i : Nat) : ((s.markAnswered i).requests j).outcome = some o :=
    outcome_setRequest rfl h
  unfold dispatchInbound
  cases m.type <;> dsimp only <;> split
  · exact ⟨hm _, rfl⟩
  · exact ⟨h, rfl⟩
  · exact ⟨outcome_settle (hm _), rfl⟩
  · exact ⟨h, rfl⟩
  · exact ⟨h, rfl⟩
  · split_ifs
    · exact ⟨outcome_setRequest (s := s) rfl h, rfl⟩
    · exact ⟨outcome_settle (hm _), rfl⟩
  · exact ⟨h, rfl⟩
  · exact ⟨outcome_settle h, rfl⟩

end

theorem outcome_step {e : Event} (hs : s.step e = some t) (h : (s.requests j).outcome = some o)
    (hj : j < s.count) : (t.requests j).outcome = some o ∧ j < t.count := by
  cases e with
  | request token =>
    cases hs
    have hn : j ≠ s.count := Nat.ne_of_lt hj
    unfold request
    split <;> exact ⟨by simpa [setRequest, hn] using h, Nat.lt_succ_of_lt hj⟩
  | sendResolved i =>
    obtain ⟨-, rfl⟩ := of_enabled hs
    exact ⟨outcome_setRequest rfl h, hj⟩
  | sendRejected i error =>
    obtain ⟨-, rfl⟩ := of_enabled hs
    exact ⟨outcome_settle (outcome_setRequest rfl h), hj⟩
  | retransmitTimeout i =>
    obtain ⟨-, rfl⟩ := of_enabled hs
    unfold retransmitTimeout
    dsimp only
    split_ifs
    · exact ⟨outcome_setRequest rfl h, hj⟩
    · exact ⟨outcome_settle (outcome_setRequest rfl h), hj⟩
    · exact ⟨outcome_setRequest rfl h, hj⟩
  | separateTimeout i =>
    obtain ⟨-, rfl⟩ := of_enabled hs
    exact ⟨outcome_settle h, hj⟩
  | inbound me =>
    obtain ⟨-, he⟩ := ite_none_left_eq_some.mp hs
    cases he
    obtain ⟨ho, hc⟩ := outcome_dispatchInbound (m := me) h
    exact ⟨ho, hc ▸ hj⟩
  | ackSent =>
    simp only [step] at hs
    split at hs
    · cases hs
    · cases hs
      exact ⟨h, hj⟩
    · cases hs
      exact ⟨outcome_settle h, hj⟩
  | channelClosed =>
    obtain ⟨-, he⟩ := ite_none_left_eq_some.mp hs
    cases he
    obtain ⟨ho, hc⟩ := outcome_rejectAll h
    exact ⟨ho, hc ▸ hj⟩

end CoapClient

/-- While the events are orderly, a request is put on the channel at most `1 + MAX_RETRANSMIT`
times and never after it was acknowledged or answered, it resolves with a message of its token, and
it has settled when nothing of it is outstanding. What it settled with stays. -/
theorem requests_are_correlated (messageId : Nat) (events : List Event) (s : CoapClient)
    (hrun : Run (guarded CoapClient.step (·.orderly ·)) { messageId } events s)
    (i : Nat) (hi : i < s.count) :
    (s.requests i).sent ≤ 1 + MAX_RETRANSMIT ∧ (s.requests i).late = false ∧
      (∀ m, (s.requests i).outcome = some (.resolved m) → m.token = (s.requests i).token) ∧
      ((s.requests i).quiet = true → (s.requests i).outcome.isSome = true) ∧
      ∀ more t o, Run CoapClient.step s more t → (s.requests i).outcome = some o →
        (t.requests i).outcome = some o := by
  have hc : Correlated s := by
    refine guarded_invariant (I := Correlated) ?_ hrun
      ⟨by simp, by simp, by simp [CoapClient.dispatchesTo], by simp, by simp⟩
    intro s event t ho ht h
    exact h.step ho ht
  have hs := hc.sound i hi
  refine ⟨?_, hs.punctual, hs.genuine, ?_, ?_⟩
  · have := hs.bounded
    omega
  · intro hq
    by_contra hn
    obtain ⟨-, hwait⟩ := hs.unsettled (by simpa using hn)
    simp only [quiet, Bool.and_eq_true, Bool.not_eq_true'] at hq
    simp [hq] at hwait
  · intro more t o hm hout
    refine (run_invariant (I := fun u => (u.requests i).outcome = some o ∧ i < u.count) ?_ hm
      ⟨hout, hi⟩).1
    intro u event v ht hu
    exact CoapClient.outcome_step ht hu.1 hu.2

/-- Two requests at once, one of which is retransmitted and answered with its acknowledgement, the
other one acknowledged first. -/
theorem requests_are_correlated_separate_response : ∃ s : CoapClient, s.count = 2 ∧
    (s.requests 0).sent = 2 ∧ (s.requests 0).outcome = some (.resolved ⟨.ACK, (2, 4), 9, [1], []⟩) ∧
    (s.requests 1).outcome = some (.resolved ⟨.NON, (2, 4), 77, [2], []⟩) ∧ (s.requests 1).late =
    false :=
  ⟨_, by decide, by decide, by decide, by decide, (requests_are_correlated 9
    [.request [1], .request [2], .sendResolved 0, .retransmitTimeout 0,
      .inbound ⟨.ACK, (0, 0), 10, [], []⟩, .sendResolved 1, .retransmitTimeout 1,
      .inbound ⟨.ACK, (2, 4), 9, [1], []⟩, .inbound ⟨.NON, (2, 4), 77, [2], []⟩] _
    (run_of_exec rfl) 1 (by decide)).2.1⟩

/-- A request resolves with an acknowledgement of another token, and a request whose answer has
arrived is put on the channel again while the answer is acknowledged. -/
theorem requests_take_other_tokens_and_are_sent_late :
    (∃ s : CoapClient, exec CoapClient.step { messageId := 9 }
        [.request [1], .sendResolved 0, .inbound ⟨.ACK, (2, 4), 9, [5], []⟩] = some s ∧
      (s.requests 0).outcome = some (.resolved ⟨.ACK, (2, 4), 9, [5], []⟩) ∧
      (s.requests 0).token = [1]) ∧ ∃ s : CoapClient, exec CoapClient.step { messageId := 9 }
        [.request [1], .sendResolved 0, .inbound ⟨.CON, (2, 4), 77, [1], []⟩,
          .retransmitTimeout 0] = some s ∧ (s.requests 0).answered ∧ (s.requests 0).late :=
  ⟨⟨_, rfl, by decide⟩, ⟨_, rfl, by decide⟩⟩

end MatterJs.Coap
