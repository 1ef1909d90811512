import MatterJs.Exchange.Calm
import MatterJs.Foundation.TransitionSystem

/-!
# The bound on transmissions

The counter of retransmissions and the options of a send are shared by all sends of an
exchange. As long as a message is sent only when no other waits for its acknowledgement or
is on its way to the channel for the first time, the counter bounds the transmissions of
the message that waits.
-/
namespace MatterJs.Exchange

open TransitionSystem IndexedList List Option LogEntry Nat Stage Task

namespace MessageExchange

variable {x y : MessageExchange} {c : Clock}

/-- The transmissions of a message so far. -/
def transmissions (x : MessageExchange) (k : Nat) : Nat :=
  x.log.countP (isTransmission k)

/-- Every reliable message is transmitted at most as often as its options allow, and not after its
acknowledgement. -/
structure WithinLimit (x : MessageExchange) : Prop where
  limit : ∀ k limit, .initial k limit ∈ x.log → x.transmissions k ≤ limit
  acked : x.log.Pairwise (fun entry later =>
    ∀ k, entry = .acked k → later.isSent k = false)

/-- What bounds the transmissions. -/
structure Bounded (x : MessageExchange) : Prop extends WithinLimit x where
  logKeys : ∀ entry ∈ x.log, entry.key < x.nextKey
  oneLimit : ∀ k limit limit', .initial k limit ∈ x.log → .initial k limit' ∈ x.log →
    limit = limit'
  timerKeys : ∀ timer ∈ x.timers, timer.message.key < x.nextKey
  againKeys : ∀ k, .again k ∈ x.stages → k < x.nextKey
  oneSend : x.stages.countP isSend ≤ 1
  prepared : ∀ limit, .prepared limit ∈ x.stages →
    x.sentMessageToAck = none ∧ limit = x.sendOptions.limit ∧ 0 < limit
  /-- While the channel takes a message for the first time, nothing can transmit it again. -/
  initial : ∀ k, .initial k ∈ x.stages → ∀ m, x.sentMessageToAck = some m →
    m.key = k ∧ x.transmissions k ≤ 1 ∧
      (∀ timer ∈ x.timers, timer.message.key = k → timer.isRunning = false) ∧
      .again k ∉ x.stages ∧ ∃ timer, x.currentTimer = some timer ∧ timer.message.key = k
  pending : ∀ m, x.sentMessageToAck = some m → .initial m.key x.sendOptions.limit ∈ x.log ∧
      x.transmissions m.key ≤ x.retransmissionCounter + 1 ∧ .acked m.key ∉ x.log

section Log

variable {log : List LogEntry} {k : Nat} (h : ∀ entry ∈ log, entry.key < k)
include h

theorem countP_fresh : log.countP (isTransmission k) = 0 := by
  rw [countP_eq_zero]
  intro entry he ht
  have h1 := h entry he
  have h2 := key_of_isTransmission ht
  omega

theorem acked_fresh : acked k ∉ log := by
  intro hm
  have : k < k := h _ hm
  omega

end Log

section Calm

theorem QuietEntry.spec (hx : x.Bounded) {e : LogEntry} (h : QuietEntry x y e)
    (he : x.nextKey ≤ y.nextKey) : (∀ k, e ≠ .acked k) ∧ (∀ k, e.isTransmission k = false) ∧
      (∀ k, .acked k ∈ x.log → e.isSent k = false) ∧ e.key < y.nextKey ∧
      ∀ k lm, e ≠ .initial k lm := by
  rcases h with ⟨k, rfl, hg, hl⟩ | ⟨m, hm, rfl⟩
  · refine ⟨by simp, fun _ => rfl, fun ac ha => ?_, hl, by simp⟩
    have ho : ac < x.nextKey := hx.logKeys _ ha
    simp only [isSent, decide_eq_false_iff_not]
    omega
  · obtain ⟨hi, _, ha⟩ := hx.pending m hm
    refine ⟨by simp, fun _ => rfl, fun k he => ?_, ?_, by simp⟩
    · simp only [isSent, decide_eq_false_iff_not]
      rintro rfl
      exact ha he
    · have hl : m.key < x.nextKey := hx.logKeys _ hi
      exact Nat.lt_of_lt_of_le hl he

theorem Calm.transmissions (hx : x.Bounded) (h : Calm x y) (k : Nat) :
    y.transmissions k = x.transmissions k := by
  obtain ⟨e, hl, he⟩ := h.log
  unfold MessageExchange.transmissions
  rw [hl, countP_append]
  have hz : e.countP (isTransmission k) = 0 := by
    rw [countP_eq_zero]
    intro entry hn
    simp [((he entry hn).spec hx h.key).2.1 k]
  omega

theorem Calm.mem_stages (h : Calm x y) {s : Stage} (he : s ≠ .quiet) :
    s ∈ y.stages ↔ s ∈ x.stages := by
  obtain ⟨n, hn⟩ := h.stages
  rw [hn, mem_append]
  constructor
  · rintro (hm | hm)
    · exact hm
    · exact absurd (eq_of_mem_replicate hm) he
  · exact .inl

theorem Calm.bounded (hx : x.Bounded) (h : Calm x y) : y.Bounded := by
  have hc := h.transmissions hx
  obtain ⟨en, ho, hen⟩ := h.log
  have hp := fun e he => (hen e he).spec hx h.key
  have hi : ∀ k l, initial k l ∈ y.log → initial k l ∈ x.log := by
    intro k l hmem
    rw [ho] at hmem
    rcases mem_append.mp hmem with hmem | hmem
    · exact hmem
    · exact absurd rfl ((hp _ hmem).2.2.2.2 k l)
  exact {
    limit := fun k l hmem => by
      rw [hc]
      exact hx.limit k l (hi k l hmem)
    acked := by
      rw [ho, pairwise_append]
      refine ⟨hx.acked, pairwise_of_forall_mem_list ?_, ?_⟩
      · intro e he later _ k hq
        exact absurd hq ((hp e he).1 k)
      · rintro _ he later hl k rfl
        exact (hp later hl).2.2.1 k he
    logKeys := by
      intro e hmem
      rw [ho] at hmem
      rcases mem_append.mp hmem with hmem | hmem
      · exact Nat.lt_of_lt_of_le (hx.logKeys e hmem) h.key
      · exact (hp e hmem).2.2.2.1
    oneLimit := fun k l li' hlm hl' =>
      hx.oneLimit k l li' (hi k l hlm) (hi k li' hl')
    timerKeys := by
      intro timer hmem
      obtain ⟨t', hm', hms, _⟩ := h.timers.mem hmem
      rw [hms]
      exact Nat.lt_of_lt_of_le (hx.timerKeys t' hm') h.key
    againKeys := by
      intro k hmem
      rw [h.mem_stages (by simp)] at hmem
      exact Nat.lt_of_lt_of_le (hx.againKeys k hmem) h.key
    oneSend := by
      obtain ⟨n, hn⟩ := h.stages
      rw [hn, countP_append, countP_replicate]
      simpa [isSend] using hx.oneSend
    prepared := by
      intro l hmem
      rw [h.mem_stages (by simp)] at hmem
      rw [h.pending, h.options]
      exact hx.prepared l hmem
    initial := by
      intro k hmem m hm
      rw [h.mem_stages (by simp)] at hmem
      rw [h.pending] at hm
      obtain ⟨hy, hone, hs, ha, timer, ht, hms⟩ := hx.initial k hmem m hm
      refine ⟨hy, by rw [hc]; exact hone, ?_, ?_, ?_⟩
      · intro t' hm' hk'
        obtain ⟨timer, hmem, hms, hr⟩ := h.timers.mem hm'
        have hst := hs timer hmem (hms ▸ hk')
        by_contra hne
        simp [hr (by simpa using hne)] at hst
      · rw [h.mem_stages (by simp)]
        exact ha
      · obtain ⟨ie, hin, ht⟩ := bind_eq_some_iff.mp ht
        have hlt : ie < y.timers.length := by
          rw [h.length]
          exact (List.getElem?_eq_some_iff.mp ht).1
        obtain ⟨t, ht₀, hm₀, _⟩ :=
          h.timers ie _ (List.getElem?_eq_getElem hlt)
        obtain rfl : t = timer := mem_unique ht₀ ht
        refine ⟨y.timers[ie], ?_, by rw [hm₀]; exact hms⟩
        rw [currentTimer, h.current, hin]
        exact List.getElem?_eq_getElem hlt
    pending := by
      intro m hm
      rw [h.pending] at hm
      obtain ⟨h1, h2, h3⟩ := hx.pending m hm
      refine ⟨?_, ?_, ?_⟩
      · rw [ho, h.options]
        exact mem_append_left _ h1
      · rw [hc]
        exact Nat.le_trans h2 (succ_le_succ h.counter)
      · rw [ho]
        intro hmem
        rcases mem_append.mp hmem with hmem | hmem
        · exact h3 hmem
        · exact (hp _ hmem).1 m.key rfl }

end Calm

section Moves

variable {ie : Nat} {a : Task} {n : Sending} {ms : Message}

/-- What is said of the log alone. -/
structure LogSound (x : MessageExchange) : Prop extends WithinLimit x where
  logKeys : ∀ entry ∈ x.log, entry.key < x.nextKey
  oneLimit : ∀ k limit limit', .initial k limit ∈ x.log → .initial k limit' ∈ x.log →
    limit = limit'

/-- A message is new when it is transmitted for the first time, and is below its limit when it is
transmitted again. -/
theorem Bounded.logAppend (hx : x.Bounded) {e : LogEntry} (ho : y.log = x.log ++ [e])
    (hnx : x.nextKey ≤ y.nextKey) (hy : e.key < y.nextKey) (hs : ∀ k, .acked k ∈ x.log →
    e.isSent k = false) (hn : ∀ k lm, e = .initial k lm → k = x.nextKey ∧ 0 < lm)
    (ha : ∀ k lm, e.isTransmission k → .initial k lm ∈ x.log → x.transmissions k < lm) :
    y.LogSound := by
  have hd : ∀ {k lm}, .initial k lm ∈ y.log → .initial k lm ∈ x.log ∨
      e = .initial k lm := by
    intro k lm hm
    simpa [ho, eq_comm] using hm
  have hf : ∀ {lm}, .initial x.nextKey lm ∉ x.log := by
    intro lm hm
    exact absurd (hx.logKeys _ hm) (Nat.lt_irrefl _)
  have hc : ∀ k, y.transmissions k = x.transmissions k +
      if e.isTransmission k then 1 else 0 := by
    simp [transmissions, ho]
  refine ⟨⟨?_, ?_⟩, ?_, ?_⟩
  · intro k lm hm
    rw [hc]
    rcases hd hm with hm | he
    · split_ifs with ht
      · exact ha k lm ht hm
      · exact hx.limit k lm hm
    · obtain ⟨rfl, hp⟩ := hn k lm he
      have hz : x.transmissions x.nextKey = 0 := countP_fresh hx.logKeys
      split_ifs <;> omega
  · rw [ho, pairwise_append]
    refine ⟨hx.acked, pairwise_singleton _ _, ?_⟩
    rintro _ hm later hl k rfl
    rw [mem_singleton.mp hl]
    exact hs k hm
  · intro e' hm
    rw [ho] at hm
    rcases mem_concat_cases hm with hm | rfl
    · exact Nat.lt_of_lt_of_le (hx.logKeys e' hm) hnx
    · exact hy
  · intro k lm li' hm hm'
    rcases hd hm with hm | he <;> rcases hd hm' with hm' | heq'
    · exact hx.oneLimit k lm li' hm hm'
    · exact absurd ((hn k li' heq').1 ▸ hm) hf
    · exact absurd ((hn k lm he).1 ▸ hm') hf
    · exact (initial.inj (he.symm.trans heq')).2

theorem stages_eraseIdx (x : MessageExchange) (ie : Nat) :
    { x with tasks := x.tasks.eraseIdx ie }.stages = x.stages.eraseIdx ie := by
  simp [stages, eraseIdx_map]

theorem Bounded.eraseIdx (hx : x.Bounded) (ie : Nat) :
    { x with tasks := x.tasks.eraseIdx ie }.Bounded := by
  have hs : ∀ s, s ∈ { x with tasks := x.tasks.eraseIdx ie }.stages → s ∈ x.stages := by
    intro s he
    rw [stages_eraseIdx] at he
    exact mem_of_mem_eraseIdx he
  exact { hx with
    againKeys := fun k he => hx.againKeys k (hs _ he)
    oneSend := by
      rw [stages_eraseIdx]
      exact Nat.le_trans (eraseIdx_sublist ..).countP_le hx.oneSend
    prepared := fun l he => hx.prepared l (hs _ he)
    initial := fun k he m hm => by
      obtain ⟨h1, h2, h3, h4, h5⟩ := hx.initial k (hs _ he) m hm
      exact ⟨h1, h2, h3, fun ha => h4 (hs _ ha), h5⟩ }

theorem stage_mem (ht : x.tasks[ie]? = some a) : a.stage ∈ x.stages :=
  mem_map_of_mem (mem_of_getElem? ht)

/-- Apart from the send that goes on, there is none. -/
theorem noSend_eraseIdx (hx : x.Bounded) (ht : x.tasks[ie]? = some a) (hs : a.stage.isSend) :
    ∀ s ∈ { x with tasks := x.tasks.eraseIdx ie }.stages, s.isSend = false := by
  obtain ⟨hl, rfl⟩ := List.getElem?_eq_some_iff.mp ht
  have hp : x.stages.Perm (x.tasks[ie].stage ::
      { x with tasks := x.tasks.eraseIdx ie }.stages) :=
    ((List.getElem_cons_eraseIdx_perm hl).symm.map stage)
  have ho := hx.oneSend
  rw [hp.countP_eq, countP_cons_of_pos hs] at ho
  have hz := countP_eq_zero.mp (le_zero.mp (le_of_succ_le_succ ho))
  intro s hm
  simpa using hz s hm

section

variable (hno : ∀ stage ∈ x.stages, stage.isSend = false)
include hno

theorem not_initial (k : Nat) : .initial k ∉ x.stages :=
  fun hm => by cases hno _ hm

theorem not_prepared (l : Nat) : .prepared l ∉ x.stages :=
  fun hm => by cases hno _ hm

end

/-- A timer for the message that waits may start when its first transmission is done. -/
theorem Bounded.newTimer (hx : x.Bounded) (hi : ∀ k, .initial k ∉ x.stages)
    {t : RetransmissionTimer} (he : t.message.key < x.nextKey) : (x.newTimer t).Bounded :=
  { hx with
    timerKeys := by
      intro t' hm
      rcases mem_concat_cases hm with hm | rfl
      · exact hx.timerKeys t' hm
      · exact he
    initial := fun k hm => absurd hm (hi k) }

theorem pending_of_isPending (h : x.isPending ms) :
    ∃ m, x.sentMessageToAck = some m ∧ m.key = ms.key := by
  cases hm : x.sentMessageToAck with
  | none => simp [isPending, hm] at h
  | some m => exact ⟨m, rfl, by simpa [isPending, hm] using h⟩

section
variable (hx : x.Bounded)
include hx

theorem Bounded.key_lt (h : x.isPending ms) : ms.key < x.nextKey := by
  obtain ⟨m, hm, he⟩ := pending_of_isPending h
  rw [← he]
  exact hx.logKeys _ (hx.pending m hm).1

theorem Bounded.again (a : Task) (hi : ∀ k, .initial k ∉ x.stages) (hp : x.isPending ms)
    (hl : x.retransmissionCounter + 1 < x.sendOptions.limit) (hms : a.stage = .again ms.key) :
    { x with
      retransmissionCounter := x.retransmissionCounter + 1
      log := x.log ++ [retransmission ms.key]
      tasks := x.tasks ++ [a] }.Bounded := by
  obtain ⟨m, hm, hkey⟩ := pending_of_isPending hp
  obtain ⟨ho, hc, ha⟩ := hx.pending m hm
  rw [hkey] at ho hc ha
  have hlt := hx.key_lt hp
  set y := { x with
    retransmissionCounter := x.retransmissionCounter + 1
    log := x.log ++ [retransmission ms.key]
    tasks := x.tasks ++ [a] } with hy
  have ht : y.stages = x.stages ++ [.again ms.key] := by simp [hy, stages, hms]
  have hsl : y.transmissions ms.key = x.transmissions ms.key + 1 := by
    simp [hy, transmissions, isTransmission]
  have hn : y.LogSound := by
    refine hx.logAppend rfl (Nat.le_refl _) hlt ?_ (fun _ _ hq => by cases hq) ?_
    · intro k he
      simp only [isSent, decide_eq_false_iff_not]
      rintro rfl
      exact ha he
    · intro k l hq he
      obtain rfl : ms.key = k := key_of_isTransmission hq
      rw [hx.oneLimit _ _ _ he ho]
      omega
  have he : ∀ s, s ∈ y.stages → s ∈ x.stages ∨ s = .again ms.key := by
    intro s hs
    rw [ht] at hs
    simpa using hs
  exact { hn with
    timerKeys := hx.timerKeys
    againKeys := by
      intro k hs
      rcases he _ hs with hs | hq
      · exact hx.againKeys k hs
      · obtain rfl := Stage.again.inj hq
        exact hlt
    oneSend := by
      rw [ht, countP_append]
      simpa [isSend] using hx.oneSend
    prepared := by
      intro l hs
      rcases he _ hs with hs | hq
      · exact hx.prepared l hs
      · cases hq
    initial := by
      intro k hs
      rcases he _ hs with hs | hq
      · exact absurd hs (hi k)
      · cases hq
    pending := by
      intro m' hm'
      obtain rfl : m = m' := mem_unique hm hm'
      rw [hkey, hsl]
      refine ⟨mem_append_left _ ho, succ_le_succ hc, ?_⟩
      simpa [hy] using ha }

theorem retransmitMessage_bounded (e : Option Nat) (hr : x.isPending ms →
    ∀ k, .initial k ∉ x.stages) : (x.retransmitMessage c ms e).1.Bounded := by
  unfold retransmitMessage
  by_cases hp : x.isPending ms
  · rw [if_neg (by simp [hp])]
    simp only
    split_ifs with hs hwait
    · exact hx.newTimer (hr hp) (hx.key_lt hp)
    · have hc : Calm x { x with retransmissionCounter := x.retransmissionCounter + 1 } :=
        { Calm.refl x with counter := le_succ _ }
      exact (hc.trans (calm_giveUp _)).bounded hx
    · have hl : x.retransmissionCounter + 1 < x.sendOptions.limit := by
        simp only [Bool.or_eq_true, decide_eq_true_eq, not_or, Nat.not_le] at hs
        exact hs.2
      have ha := hx.again (.retransmission ms c.backOff e)
        (hr hp) hp hl rfl
      refine Calm.bounded ha ?_
      exact .of_core rfl ⟨rfl, rfl, rfl, id⟩
  · rw [if_pos (by simpa using hp)]
    exact hx

theorem initializeResubmission_bounded (b : Nat) (e : Option Nat) (hr : x.isPending ms →
    ∀ k, .initial k ∉ x.stages) : (x.initializeResubmission ms b e).Bounded := by
  unfold initializeResubmission
  by_cases hp : x.isPending ms
  · rw [if_neg (by simp [hp])]
    exact hx.newTimer (hr hp) (hx.key_lt hp)
  · rw [if_pos (by simpa using hp)]
    exact hx

section
variable {p : Message} (hp : x.sentMessageToAck = some p)
include hp

theorem Bounded.acknowledged
    (hp' : y.sentMessageToAck = none) (hl : y.log = x.log ++ [.acked p.key])
    (ho : y.sendOptions = x.sendOptions) (ht : y.timers = x.timers)
    (hs : y.stages = x.stages) (hn : y.nextKey = x.nextKey) : y.Bounded := by
  obtain ⟨hi, _, _⟩ := hx.pending p hp
  have hsn : y.LogSound := by
    refine hx.logAppend hl (Nat.le_of_eq hn.symm) ?_ (fun _ _ => rfl)
      (fun _ _ hq => by cases hq) (fun _ _ hq => by cases hq)
    have hlt : p.key < x.nextKey := hx.logKeys _ hi
    rwa [hn]
  exact { hsn with
    timerKeys := by
      rw [ht, hn]
      exact hx.timerKeys
    againKeys := by
      rw [hs, hn]
      exact hx.againKeys
    oneSend := by
      rw [hs]
      exact hx.oneSend
    prepared := by
      rw [hs, ho]
      intro l he
      exact ⟨hp', (hx.prepared l he).2⟩
    initial := fun k _ m hm => by simp [hp'] at hm
    pending := fun m hm => by simp [hp'] at hm }

theorem acknowledge_bounded (r : Message) : (x.acknowledge p r).Bounded := by
  have hc : Calm x ((x.setRetransmissionTimer false).ackSuccess (some r)) :=
    (calm_stopRetransmissionTimer x).trans (calm_setPromise _ _ _)
  have hp' := hc.pending.trans hp
  exact (hc.bounded hx).acknowledged hp' rfl rfl rfl rfl rfl rfl

end

theorem transmit_bounded (hno : ∀ s ∈ x.stages, s.isSend = false)
    (hl : n.limit = x.sendOptions.limit) (hpos : 0 < n.limit)
    (hr : n.isReliable) (i : Nat) : (x.transmit c n i).Bounded := by
  have hf : x.transmissions x.nextKey = 0 := countP_fresh hx.logKeys
  set y := x.transmit c n i with hy
  set ms := x.messageOf n i with hms
  set timer : RetransmissionTimer :=
    ⟨ms, some n.expectedProcessingTime, c.backOff, false⟩ with htm
  unfold transmit at hy
  rw [if_pos hr] at hy
  have hg : y.log = x.log ++ [.initial x.nextKey n.limit] := by rw [hy]; rfl
  have ht : y.timers = x.timers ++ [timer] := by rw [hy]; rfl
  have hst : y.stages = x.stages ++ [.initial x.nextKey] := by
    rw [hy]
    simp [stages, newTimer, stage, messageOf]
  have hn : y.nextKey = x.nextKey + 1 := by rw [hy]; rfl
  have ho : y.sendOptions = x.sendOptions := by rw [hy]; rfl
  have hp : y.sentMessageToAck = some ms := by rw [hy]
  have hsl : y.transmissions x.nextKey = 1 := by
    have h1 : y.transmissions x.nextKey = x.transmissions x.nextKey + 1 := by
      simp [transmissions, hg, isTransmission]
    omega
  have hsn : y.LogSound := by
    refine hx.logAppend hg (by omega) (by rw [hn]; exact lt_succ_self _) ?_ ?_ ?_
    · intro k hkey
      have hlt : k < x.nextKey := hx.logKeys _ hkey
      simp only [isSent, decide_eq_false_iff_not]
      omega
    · intro k l hq
      cases hq
      exact ⟨rfl, hpos⟩
    · intro k l hq he
      obtain rfl : x.nextKey = k := key_of_isTransmission hq
      exact absurd (hx.logKeys _ he) (Nat.lt_irrefl _)
  have he : ∀ s, s ∈ y.stages → s ∈ x.stages ∨ s = .initial x.nextKey := by
    intro s hs
    simpa [hst] using hs
  exact { hsn with
    timerKeys := by
      intro t' hm'
      rw [hn]
      rw [ht] at hm'
      rcases mem_append.mp hm' with hm' | hm'
      · exact lt_succ_of_lt (hx.timerKeys t' hm')
      · obtain rfl := mem_singleton.mp hm'
        exact lt_succ_self _
    againKeys := by
      intro k hs
      rw [hn]
      rcases he _ hs with hs | hq
      · exact lt_succ_of_lt (hx.againKeys k hs)
      · cases hq
    oneSend := by
      have hz : x.stages.countP isSend = 0 := by
        rw [countP_eq_zero]
        intro s hs
        simp [hno s hs]
      rw [hst, countP_append, hz]
      simp [isSend]
    prepared := by
      intro l hs
      rcases he _ hs with hs | hq
      · exact absurd hs (not_prepared hno l)
      · cases hq
    initial := by
      intro k hs m hm
      obtain rfl : ms = m := mem_unique hp hm
      obtain rfl : k = x.nextKey := by
        rcases he _ hs with hs | hq
        · exact absurd hs (not_initial hno k)
        · exact initial.inj hq
      refine ⟨rfl, Nat.le_of_eq hsl, ?_, ?_, ?_⟩
      · intro t' hm' hkey
        rw [ht] at hm'
        rcases mem_append.mp hm' with hm' | hm'
        · have hlt := hx.timerKeys t' hm'
          omega
        · obtain rfl := mem_singleton.mp hm'
          rfl
      · intro ha
        rcases he _ ha with ha | hq
        · exact absurd (hx.againKeys _ ha) (Nat.lt_irrefl _)
        · cases hq
      · refine ⟨timer, ?_, rfl⟩
        have hc : y.retransmissionTimer = some x.timers.length := by rw [hy]; rfl
        rw [currentTimer, hc, ht]
        simp
    pending := by
      intro m hm
      obtain rfl : ms = m := mem_unique hp hm
      refine ⟨?_, ?_, ?_⟩
      · rw [hg, ho, ← hl]
        exact mem_append_right _ (mem_singleton.mpr rfl)
      · show y.transmissions x.nextKey ≤ _
        omega
      · rw [hg]
        have := acked_fresh hx.logKeys
        simpa [messageOf, hms] using this }

end

theorem mem_setRetransmissionTimer {i : Bool} {t' : RetransmissionTimer}
    (hm : t' ∈ (x.setRetransmissionTimer i).timers) : ∃ t ∈ x.timers, t'.message = t.message := by
  unfold setRetransmissionTimer at hm
  split at hm
  · exact ⟨t', hm, rfl⟩
  · obtain ⟨ie, hi⟩ := mem_iff_getElem?.mp hm
    simp only [setTimer, getElem?_modify] at hi
    obtain ⟨t, ht, rfl⟩ := map_eq_some_iff.mp hi
    refine ⟨t, mem_of_getElem? ht, ?_⟩
    split_ifs <;> rfl

/-- The counter starts again and the timer runs when the first transmission is done. -/
theorem Bounded.restart (hx : x.Bounded) (hno : ∀ s ∈ x.stages, s.isSend = false)
    (hn : ∀ m, x.sentMessageToAck = some m → x.transmissions m.key ≤ 1) :
    ({ x with retransmissionCounter := 0 }.setRetransmissionTimer true).Bounded := by
  set y := { x with retransmissionCounter := 0 }.setRetransmissionTimer true with hy
  have hcr : y.sentMessageToAck = x.sentMessageToAck ∧ y.sendOptions = x.sendOptions ∧
      y.stages = x.stages ∧ y.log = x.log ∧ y.nextKey = x.nextKey := by
    rw [hy]
    unfold setRetransmissionTimer
    split <;> exact ⟨rfl, rfl, rfl, rfl, rfl⟩
  obtain ⟨hp, ho, hs, hl, hnx⟩ := hcr
  have hc : ∀ k, y.transmissions k = x.transmissions k := by
    intro k
    rw [transmissions, hl]
    rfl
  exact {
    limit := by
      intro k l he
      rw [hc]
      exact hx.limit k l (hl ▸ he)
    acked := hl ▸ hx.acked
    logKeys := by
      rw [hl, hnx]
      exact hx.logKeys
    oneLimit := by
      rw [hl]
      exact hx.oneLimit
    timerKeys := by
      intro timer hmem
      obtain ⟨t', hm', hms⟩ := mem_setRetransmissionTimer hmem
      rw [hms, hnx]
      exact hx.timerKeys t' hm'
    againKeys := by
      rw [hs, hnx]
      exact hx.againKeys
    oneSend := by
      rw [hs]
      exact hx.oneSend
    prepared := by
      rw [hs]
      exact fun l hmem => absurd hmem (not_prepared hno l)
    initial := by
      rw [hs]
      exact fun k hmem => absurd hmem (not_initial hno k)
    pending := by
      intro m hm
      rw [hp] at hm
      obtain ⟨h1, _, h3⟩ := hx.pending m hm
      rw [hl, ho, hc]
      exact ⟨h1, Nat.le_trans (hn m hm) (le_add_left 1 _), h3⟩ }

/-- The channel has taken a reliable message for the first time. -/
theorem transmitted_bounded {p : AckPromise} (hx : x.Bounded)
    (hno : ∀ s ∈ x.stages, s.isSend = false) (ho : ∀ m, x.sentMessageToAck = some m →
    x.transmissions m.key ≤ 1) : (x.transmitted c n ms (some p)).Bounded := by
  have hc : Calm x { x with
      lastTransmissionAt := if n.isStandaloneAck then x.lastTransmissionAt
        else some c.now } := .of_core rfl ⟨rfl, rfl, rfl, id⟩
  have hr := (hc.bounded hx).restart hno ho
  exact (calm_task rfl).bounded hr

theorem calm_transmitted (x : MessageExchange) (c : Clock) (n : Sending)
    (ms : Message) : Calm x (x.transmitted c n ms none) := by
  have hc : Calm x { x with
      lastTransmissionAt := if n.isStandaloneAck then x.lastTransmissionAt
        else some c.now } := .of_core rfl ⟨rfl, rfl, rfl, id⟩
  exact hc.trans (calm_returnTo _ _)

theorem calm_transmit (hr : n.isReliable = false) (m : Nat) : Calm x (x.transmit c n m) := by
  unfold transmit
  rw [if_neg (by simp [hr])]
  exact {
    session := rfl
    exchangeId := rfl
    isInitiator := rfl
    closed := id
    pending := rfl
    options := rfl
    counter := Nat.le_refl _
    current := rfl
    length := rfl
    timers := .refl _
    stages := ⟨1, by simp [stages, stage]⟩
    log := by
      refine ⟨_, rfl, ?_⟩
      intro entry he
      obtain rfl := mem_singleton.mp he
      exact .inl ⟨x.nextKey, rfl, Nat.le_refl _, lt_succ_self _⟩
    key := le_succ _ }

end Moves

section Steps

/-- No message waits for its acknowledgement, and none is on its way to the channel for the first
time. -/
def isIdle (x : MessageExchange) : Bool :=
  x.sentMessageToAck.isNone && x.stages.all (fun stage => !stage.isSend)

/-- A message is sent only when the exchange is idle, and its options allow a transmission. -/
def sendsInTurn (x : MessageExchange) : Event → Bool
  | .send _ options => x.isIdle && 0 < options.limit
  | _ => true

theorem isIdle_iff : x.isIdle ↔ x.sentMessageToAck = none ∧ ∀ s ∈ x.stages, s.isSend = false := by
  simp [isIdle]

theorem Bounded.prepare {a : Task} (hx : x.Bounded) (hn : x.sentMessageToAck = none)
    (hno : ∀ s ∈ x.stages, s.isSend = false) (hs : a.stage = .prepared x.sendOptions.limit)
    (ho : 0 < x.sendOptions.limit) : { x with tasks := x.tasks ++ [a] }.Bounded := by
  set y := { x with tasks := x.tasks ++ [a] } with hy
  have ht : y.stages = x.stages ++ [.prepared x.sendOptions.limit] := by
    simp [hy, stages, hs]
  have hm : ∀ s, s ∈ y.stages → s ∈ x.stages ∨ s = .prepared x.sendOptions.limit := by
    intro s hs
    simpa [ht] using hs
  exact { hx with
    againKeys := by
      intro k ha
      rcases hm _ ha with ha | he
      · exact hx.againKeys k ha
      · cases he
    oneSend := by
      have hz : x.stages.countP isSend = 0 := by
        rw [countP_eq_zero]
        intro s hs
        simp [hno s hs]
      rw [ht, countP_append, hz]
      simp [isSend]
    prepared := by
      intro l hp
      rcases hm _ hp with hp | he
      · exact absurd hp (not_prepared hno l)
      · obtain rfl := prepared.inj he
        exact ⟨hn, rfl, ho⟩
    initial := by
      intro k hi
      rcases hm _ hi with hi | he
      · exact absurd hi (not_initial hno k)
      · cases he }

section

variable (hx : x.Bounded)
include hx

theorem send_bounded (hi : x.isIdle) {t : Nat}
    {o : ExchangeSendOptions} (ho : 0 < o.limit) : (x.send c t o).Bounded := by
  obtain ⟨hn, hno⟩ := isIdle_iff.mp hi
  unfold send
  split_ifs
  · exact hx
  · have hz : { x with sendOptions := o, retransmissionCounter := 0 }.Bounded := { hx with
      prepared := fun l he => absurd he (not_prepared hno l)
      initial := fun k he => absurd he (not_initial hno k)
      pending := fun m hm => by simp [hn] at hm }
    rcases startSend_cases { x with sendOptions := o, retransmissionCounter := 0 } c
      t none .send with hq | ⟨hq, -⟩
    · rw [hq]
      exact hz
    · rw [hq]
      set z := { x with sendOptions := o, retransmissionCounter := 0 } with hd
      set sending := z.sendingOf t none .send with hs
      have hp := (calm_prepareSend z c none).bounded hz
      by_cases hr : sending.isReliable
      · exact hp.prepare hn hno (by simp [stage, hr]; rfl) ho
      · exact (calm_task (by simp [stage, hr])).bounded hp

/-- A duplicate transmits only what no first transmission is under way for. -/
theorem kick_bounded (c : Clock) (d : Message) :
    (x.kickRetransmissionForLiveness c d).1.Bounded := by
  unfold kickRetransmissionForLiveness
  split_ifs with hpr
  · exact hx
  · split
    · rename_i p timer hp ht
      split_ifs with hc
      · have hst := calm_stopRetransmissionTimer x
        refine retransmitMessage_bounded (hst.bounded hx) _ ?_
        intro _ k hm
        rw [hst.mem_stages (by simp)] at hm
        obtain ⟨_, _, hs, _, timer', ht', he⟩ := hx.initial k hm p hp
        obtain rfl : timer = timer' := mem_unique ht ht'
        obtain ⟨ie, _, hi⟩ := bind_eq_some_iff.mp ht
        have hr : timer.isRunning := by
          simp only [kicks, Bool.and_eq_true] at hc
          exact hc.1.1.1.1
        simp [hs timer (mem_of_getElem? hi) he] at hr
      · exact hx
    · exact hx

theorem receiveNew_bounded (m : Message) : (x.receiveNew c m).Bounded := by
  unfold receiveNew
  split
  · exact (calm_enqueue x c m).bounded hx
  · rename_i p hp
    have ha := acknowledge_bounded hx hp m
    by_cases hr : some m.messageId = p.ackedMessageId
    · rw [if_pos hr]
      have hc : Calm x { x with
          lastTransmissionAt := some c.now, log := x.log ++ [.resent p.key] } :=
        { Calm.refl x with
          log := by
            refine ⟨_, rfl, fun e he => ?_⟩
            obtain rfl := mem_singleton.mp he
            exact .inr ⟨p, hp, rfl⟩ }
      exact hc.bounded hx
    · rw [if_neg hr]
      cases m.ackedMessageId with
      | none => exact hx
      | some a =>
        simp only
        split_ifs
        · exact (calm_enqueue x c m).bounded hx
        · exact hx
        · exact (calm_closeNow _ _).bounded ha
        · exact (calm_enqueue _ c m).bounded ha

theorem onMessageReceived_bounded (m : Message) (d : Bool) :
    (x.onMessageReceived c m d).Bounded := by
  have ha := (calm_notifyActivity x c.now).bounded hx
  unfold onMessageReceived
  simp only
  split_ifs
  · exact hx
  · have hc := kick_bounded ha c
      { m with requiresAck := m.requiresAck && x.usesMrp }
    split
    · rename_i he
      rw [he] at hc
      exact hc
    · rename_i he
      rw [he] at hc
      exact (calm_standaloneAck _ c _ _).bounded hc
  · exact ha
  · exact receiveNew_bounded ha _

/-- A timer that runs is for no message on its way to the channel for the first time. -/
theorem retransmissionTimeout_bounded {ie : Nat}
    {t : RetransmissionTimer} (ht : x.timers[ie]? = some t) (hr : t.isRunning) :
    ((x.setTimer ie false).retransmitMessage c t.message t.expectedProcessingTime).1.Bounded := by
  have hst := calm_stopTimer x ie
  refine retransmitMessage_bounded (hst.bounded hx) _ ?_
  intro hp k he
  obtain ⟨m, hm, hy⟩ := pending_of_isPending hp
  obtain ⟨hk', _, hs, _⟩ := hx.initial k he m (hst.pending ▸ hm)
  have := hs t (mem_of_getElem? ht) (hy.symm.trans hk')
  simp [this] at hr

theorem settle_bounded {ie : Nat} {a : Task} {o : Outcome} (ht : x.tasks[ie]? = some a)
    (hr : { x with tasks := x.tasks.eraseIdx ie }.resume c a o = some y) :
    y.Bounded := by
  have he := hx.eraseIdx ie
  have hs := stage_mem ht
  have hns := noSend_eraseIdx hx ht
  cases a with
  | counter s =>
    by_cases hrl : s.isReliable
    · have hp : (counter s).stage = .prepared s.limit := by
        simp [stage, hrl]
      rw [hp] at hs hns
      obtain ⟨_, hl, ho⟩ := hx.prepared _ hs
      cases o with
      | done i =>
        cases hr
        exact transmit_bounded he (hns rfl) hl ho hrl i
      | failed | sessionClosed | aborted =>
        cases hr
        exact (calm_throwTo _ _).bounded he
    · have hq : s.isReliable = false := by simpa using hrl
      cases o with
      | done i =>
        cases hr
        exact (calm_transmit hq i).bounded he
      | failed | sessionClosed | aborted =>
        cases hr
        exact (calm_throwTo _ _).bounded he
  | channelSend s e p =>
    cases o with
    | done value =>
      cases hr
      cases p with
      | none => exact (calm_transmitted _ c s e).bounded he
      | some p =>
        refine transmitted_bounded he (hns rfl) ?_
        intro m hm
        obtain ⟨hy, hn, _⟩ := hx.initial _ hs m hm
        rw [hy]
        exact hn
    | failed | sessionClosed | aborted =>
      cases hr
      exact (calm_throwTo _ _).bounded he
  | waitForAck s e p => exact (calm_resumeAck hr).bounded he
  | retransmission e b t =>
    have hd : { x with tasks := x.tasks.eraseIdx ie }.isPending e →
        ∀ k, .initial k ∉ { x with tasks := x.tasks.eraseIdx ie }.stages := by
      intro hpn k hmem
      rw [stages_eraseIdx] at hmem
      obtain ⟨m, hm, hy⟩ := pending_of_isPending hpn
      obtain ⟨hk', _, _, ha, _⟩ := hx.initial k (mem_of_mem_eraseIdx hmem) m hm
      rw [← hk', hy] at ha
      exact ha hs
    cases o with
    | sessionClosed =>
      cases hr
      exact (calm_closeNow _ _).bounded he
    | done _ | failed | aborted =>
      cases hr
      exact initializeResubmission_bounded he _ _ hd
  | closing cause =>
    cases hr
    exact (calm_continueClose _ c cause).bounded he

end

theorem step_bounded {e : Event} (hx : x.Bounded) (htr : x.sendsInTurn e)
    (hs : x.step c e = some y) : y.Bounded := by
  cases e with
  | send t p =>
    cases hs
    simp only [sendsInTurn, Bool.and_eq_true, decide_eq_true_eq] at htr
    exact send_bounded hx htr.1 htr.2
  | receive m d =>
    cases hs
    exact onMessageReceived_bounded hx m d
  | sendStandaloneAck m =>
    cases hs
    exact (calm_standaloneAck _ c _ _).bounded hx
  | retransmissionTimeout ie =>
    simp only [step] at hs
    split at hs
    · rename_i timer ht
      split_ifs at hs with hr
      cases hs
      exact retransmissionTimeout_bounded hx ht hr
    · cases hs
  | receivedMessageAckTimeout =>
    simp only [step] at hs
    split_ifs at hs
    split at hs
    · cases hs
      have hc : Calm x { x with receivedMessageAckTimer := false, receivedMessageToAck := none } :=
        .of_core rfl ⟨rfl, rfl, rfl, id⟩
      exact (hc.trans (calm_standaloneAck _ c _ _)).bounded hx
    · cases hs
      exact Calm.bounded hx (.of_core rfl ⟨rfl, rfl, rfl, id⟩)
  | closeTimeout =>
    simp only [step] at hs
    split at hs
    · rename_i cause _
      cases hs
      have hc : Calm x { x with closeTimer := some ⟨cause, false⟩ } :=
        .of_core rfl ⟨rfl, rfl, rfl, id⟩
      exact (hc.trans (calm_closeNow _ _)).bounded hx
    · cases hs
  | close cause =>
    cases hs
    exact (calm_close x cause).bounded hx
  | destroy =>
    cases hs
    exact (calm_destroy x c).bounded hx
  | settle ie o =>
    obtain ⟨a, hts, hrs⟩ := bind_eq_some_iff.mp hs
    exact settle_bounded hx hts hrs

/-- An exchange that was just made, by a message of the peer or by this node. -/
inductive Created : MessageExchange → Prop
  | fromInitialMessage (session : Session) (parameters : SessionParameters) (message : Message)
      (now : Nat) : Created (fromInitialMessage session parameters message now)
  | initiate (session : Session) (parameters : SessionParameters)
      (exchangeId protocolId now : Nat) :
      Created (initiate session parameters exchangeId protocolId now)

theorem Created.bounded (h : Created x) : x.Bounded := by
  have hn : ∀ x : MessageExchange, x.log = [] → x.timers = [] → x.tasks = [] →
      x.sentMessageToAck = none → x.Bounded := by
    intro x hl ht hts hp
    have hs : x.stages = [] := by simp [stages, hts]
    exact {
      limit := by simp [hl]
      acked := by simp [hl]
      logKeys := by simp [hl]
      oneLimit := by simp [hl]
      timerKeys := by simp [ht]
      againKeys := by simp [hs]
      oneSend := by simp [hs]
      prepared := by simp [hs]
      initial := by simp [hs]
      pending := by simp [hp] }
  cases h with
  | fromInitialMessage => exact hn _ rfl rfl rfl rfl
  | initiate => exact hn _ rfl rfl rfl rfl

/-- In every run that sends a message only when the exchange is idle, a reliable message is
transmitted at most as often as its options allow, and not after its acknowledgement. -/
theorem transmissions_within_limit {es : List (Clock × Event)} (hcreated : Created x)
    (hrun : Run (guarded (fun x (e : Clock × Event) => x.step e.1 e.2)
      (fun x e => x.sendsInTurn e.2 = true)) x es y) : y.WithinLimit := by
  have hb : y.Bounded := by
    refine guarded_invariant (I := Bounded) ?_ hrun hcreated.bounded
    intro s e t ht he hs
    exact step_bounded hs ht he
  exact hb.toWithinLimit

/-- A message that is transmitted twice and then acknowledged. -/
theorem transmissions_within_limit_acked :
    ∃ y, exec (guarded (fun x (e : Clock × Event) => x.step e.1 e.2)
        (fun x e => x.sendsInTurn e.2 = true)) (initiate (.node 1 0) ⟨true, 0, 0, 0⟩ 7 1 0)
        [({}, .send 2 { maxRetransmissions := some 2 }), ({}, .settle 0 (.done 9)),
          ({}, .settle 0 (.done 0)), ({}, .retransmissionTimeout 0),
          ({}, .receive ⟨0, 4, 7, 0, 16, false, false, some 9⟩ false)] = some y ∧
      y.log = [.initial 0 2, .retransmission 0, .acked 0] ∧ y.WithinLimit := by
  refine exec_and_of_run (P := fun y => y.log = [.initial 0 2, .retransmission 0, .acked 0])
    ⟨_, rfl, by decide⟩ ?_
  intro y hu hl
  exact ⟨hl, transmissions_within_limit (.initiate ..) hu⟩

/-- A send that is rejected because a message waits for its acknowledgement replaces the options of
that message and starts its counter again: a message that may be transmitted twice is transmitted
three times. -/
theorem rejectedSend_transmits : ∃ y, exec (fun x (e : Clock × Event) => x.step e.1 e.2)
        (initiate (.node 1 0) ⟨true, 0, 0, 0⟩ 7 1 0)
        [({}, .send 2 { maxRetransmissions := some 2 }), ({}, .settle 0 (.done 9)),
          ({}, .settle 0 (.done 0)), ({}, .retransmissionTimeout 0), ({}, .settle 1 (.done 0)),
          ({}, .send 2 {}), ({}, .retransmissionTimeout 1)] = some y ∧
      y.log = [.initial 0 2, .retransmission 0, .retransmission 0] ∧ ¬ y.WithinLimit := by
  refine ⟨_, rfl, by decide, fun h => ?_⟩
  exact absurd (h.limit 0 2 (by decide)) (by decide)

end Steps

end MessageExchange

end MatterJs.Exchange
