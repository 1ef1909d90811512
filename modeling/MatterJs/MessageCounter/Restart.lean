import Mathlib.Data.List.Basic
import MatterJs.MessageCounter.Persisted

/-!
# No reuse across restarts

Every value that is returned lies at or below the position the storage holds,
as long as no call is compared with a reservation that is not stored yet.
-/
namespace MatterJs.MessageCounter.Persisted

open TransitionSystem IndexedList List Nat

/-- The unwrapped position of a running counter. -/
def Instance.position (i : Instance) : Nat := unwrapped i.wraps i.messageCounter

/-- The last position of the cycle a running counter is in. -/
def Instance.cycleEnd (i : Instance) : Nat := unwrapped i.wraps maxCounterValue32Bit

/-- Whenever a call is compared with the reservation, the reserved mark is what the
storage holds, no write is pending, and the counter is less than 2^32 - reserve past it. -/
def ReservationStored (s : System) : Action → Prop
  | .check _ => ∃ i ∈ s.running, ∃ m ∈ s.stored, i.writes = [] ∧ i.reserved = some m.value ∧
      i.position + i.options.reserve < m.position + 2 ^ 32
  | _ => True

instance (s : System) : (a : Action) → Decidable (ReservationStored s a)
  | .check _ => inferInstanceAs (Decidable (∃ i ∈ s.running, ∃ m ∈ s.stored, _ ∧ _ ∧ _))
  | .boot _ _ | .constructResume | .constructReject | .call | .resume | .reject | .apply _
  | .resolve _ | .fail _ | .crash => isTrue trivial

/-- A captured counter lies above where this life started and not past the counter. -/
def Captured (base : Nat) (i : Instance) (c : Mark) : Prop :=
  base < c.position ∧ c.position ≤ i.position ∧ c.position ≤ i.cycleEnd

/-- A position that a reservation of this instance may have. -/
def InReach (i : Instance) (p : Nat) : Prop :=
  p ≤ i.position + i.options.reserve ∧ p ≤ i.cycleEnd

/-- What holds of a running instance that started at position `base`. -/
structure InstanceInvariant (stored : Option Mark) (base : Nat) (i : Instance) : Prop where
  base_le : base ≤ i.position
  bounded : i.options.config.onRollover → i.messageCounter ≤ maxCounterValue32Bit
  callbacks : 0 < i.callbacks → i.options.config.onRollover ∧ base < i.position
  counted : ∀ c ∈ i.counted, Captured base i c
  stored_reach : ∀ m ∈ stored, InReach i m.position
  one_write : i.writes.length ≤ 1
  write_reach : ∀ w ∈ i.writes, InReach i w.mark.position
  write_above : ∀ w ∈ i.writes, ∀ m ∈ stored, m.position ≤ w.mark.position
  write_applied : ∀ w ∈ i.writes, w.applied → stored = some w.mark
  write_counter : ∀ w ∈ i.writes, ∀ c ∈ w.counter, base < c.position ∧ c.position ≤ w.mark.position
  quiet : i.construction = .inCallback → i.writes = [] ∧ i.reserved = none

/-- What holds of the whole system. -/
structure SystemInvariant (s : System) : Prop where
  durable : ∀ r ∈ s.returned, ∃ m ∈ s.stored, r.counter.position ≤ m.position
  boots : ∀ r ∈ s.returned, r.boot ≤ s.boots
  noReissue : NoReissue s
  running : ∀ i ∈ s.running, ∃ base, InstanceInvariant s.stored base i ∧
    ∀ r ∈ s.returned, r.boot < s.boots → r.counter.position ≤ base

variable {s t : System} {i j : Instance} {base n : Nat} {stored : Option Mark}
  {cn : Option Mark} {c : Mark} {w : Write} {o : Options} {r : Bool}

theorem Captured.mono (h : Captured base i c) (hp : i.position ≤ j.position)
    (he : i.cycleEnd ≤ j.cycleEnd) : Captured base j c :=
  ⟨h.1, h.2.1.trans hp, h.2.2.trans he⟩

theorem InReach.mono {p : Nat} (h : InReach i p) (ho : j.options = i.options)
    (hp : i.position ≤ j.position) (he : i.cycleEnd ≤ j.cycleEnd) : InReach j p := by
  refine ⟨?_, h.2.trans he⟩
  rw [ho]
  exact h.1.trans (Nat.add_le_add_right hp _)

/-- The mark of a new reservation is the last position in reach. -/
theorem reserveAhead_position (i : Instance) :
    unwrapped i.wraps (min (i.messageCounter + i.options.reserve) maxCounterValue32Bit) =
      min (i.position + i.options.reserve) i.cycleEnd := by
  simp only [Instance.position, Instance.cycleEnd, unwrapped]
  omega

/-- Reserving with no write pending keeps the invariant, and covers the waiting counter. -/
theorem reserveAhead_invariant (h : InstanceInvariant stored base i) (hw : i.writes = [])
    (hq : i.construction ≠ .inCallback) (hc : ∀ c ∈ cn, Captured base i c) :
    InstanceInvariant stored base (reserveAhead i cn) := by
  have hp := reserveAhead_position i
  have hwr : ∀ w ∈ (reserveAhead i cn).writes, w.mark.position =
      min (i.position + i.options.reserve) i.cycleEnd ∧ w.counter = cn ∧ w.applied = false := by
    intro w hm
    simp only [reserveAhead, hw, nil_append, mem_singleton] at hm
    subst w
    exact ⟨hp, rfl, rfl⟩
  refine ⟨h.base_le, h.bounded, h.callbacks, h.counted, h.stored_reach, ?_, ?_, ?_, ?_, ?_,
    fun hn => absurd hn hq⟩
  · simp [reserveAhead, hw]
  · intro w hm
    rw [(hwr w hm).1]
    exact ⟨min_le_left _ _, min_le_right _ _⟩
  · intro w hm m hs
    rw [(hwr w hm).1]
    exact le_min (h.stored_reach m hs).1 (h.stored_reach m hs).2
  · intro w hm ha
    simp [(hwr w hm).2.2] at ha
  · intro w hm c' hc'
    rw [(hwr w hm).2.1] at hc'
    obtain ⟨hb, hl, he⟩ := hc c' hc'
    rw [(hwr w hm).1]
    exact ⟨hb, le_min (hl.trans (Nat.le_add_right _ _)) he⟩

/-- A call that moves the counter keeps everything captured so far. -/
theorem advance_invariant (h : InstanceInvariant stored base i) (ho : j.options = i.options)
    (hw : j.writes = i.writes) (hres : j.reserved = i.reserved)
    (hq : j.construction = i.construction) (hp : i.position + 1 = j.position)
    (he : i.cycleEnd ≤ j.cycleEnd) (hb : j.options.config.onRollover →
    j.messageCounter ≤ maxCounterValue32Bit) (hcb : 0 < j.callbacks → j.options.config.onRollover)
    (ht : ∀ c ∈ j.counted, c ∈ i.counted ∨ c.position = j.position ∧ c.position ≤ j.cycleEnd) :
    InstanceInvariant stored base j := by
  have hl : i.position ≤ j.position := by omega
  have hbs : base < j.position := by
    have := h.base_le
    omega
  refine ⟨hbs.le, hb, fun hc => ⟨hcb hc, hbs⟩, ?_, ?_, ?_, ?_, ?_, ?_, ?_, ?_⟩
  · intro c hm
    rcases ht c hm with hc | ⟨hc, hd⟩
    · exact (h.counted c hc).mono hl he
    · exact ⟨by omega, hc.le, hd⟩
  · intro m hs
    exact (h.stored_reach m hs).mono ho hl he
  · rw [hw]
    exact h.one_write
  · intro w hm
    exact (h.write_reach w (hw ▸ hm)).mono ho hl he
  · intro w hm
    exact h.write_above w (hw ▸ hm)
  · intro w hm
    exact h.write_applied w (hw ▸ hm)
  · intro w hm
    exact h.write_counter w (hw ▸ hm)
  · intro hn
    rw [hw, hres]
    exact h.quiet (hq.symm.trans hn)

theorem position_succ (he : j.wraps = i.wraps) (hc : j.messageCounter = i.messageCounter + 1) :
    i.position + 1 = j.position := by
  simp only [Instance.position, unwrapped, he, hc]
  omega

theorem beginCall_invariant (h : InstanceInvariant stored base i) :
    InstanceInvariant stored base (beginCall i) := by
  have ha : maxCounterValue32Bit = 4294967295 := rfl
  have hcb := fun hc => (h.callbacks hc).1
  rcases increment_cases i.options.config i.messageCounter with
    ⟨hi, hb⟩ | ⟨hi, hb, hr⟩ | ⟨hi, hb, hr⟩ | ⟨hi, hb, hr⟩
  · simp only [beginCall, hi, Bool.false_eq_true, if_false]
    refine advance_invariant h rfl rfl rfl rfl (position_succ rfl rfl) le_rfl (fun _ => hb) hcb ?_
    intro c hm
    rcases mem_concat_cases hm with hm | rfl
    · exact .inl hm
    · exact .inr ⟨rfl, Nat.add_le_add_left hb _⟩
  · have hb' := h.bounded hr
    simp only [beginCall, hi, if_true]
    refine advance_invariant h rfl rfl rfl rfl ?_ ?_ (fun _ => Nat.zero_le _) hcb ?_
    · simp only [Instance.position, unwrapped, add_zero]
      omega
    · simp only [Instance.cycleEnd, unwrapped]
      omega
    · intro c hm
      rcases mem_concat_cases hm with hm | rfl
      · exact .inl hm
      · exact .inr ⟨rfl, Nat.add_le_add_left (Nat.zero_le _) _⟩
  · simp only [beginCall, hi]
    exact advance_invariant h rfl rfl rfl rfl (position_succ rfl rfl) le_rfl (fun _ => hb)
      (fun _ => hr)
      (fun c hm => .inl hm)
  · simp only [beginCall, hi]
    refine advance_invariant h rfl rfl rfl rfl (position_succ rfl rfl) le_rfl ?_ hcb
      (fun c hm => .inl hm)
    intro hc
    simp [hr] at hc

/-- The construction of a new instance, from what the storage holds. -/
theorem construct_invariant {r : UInt32} (h : construct stored o r = some i) :
    ∃ base, InstanceInvariant stored base i ∧ ∀ m ∈ stored, m.position ≤ base := by
  have hb : ∀ st : Mark, st.value ≤ maxCounterValue32Bit → (∀ m ∈ stored, m = st) →
      InstanceInvariant stored st.position (instanceAt o st) := by
    intro st hv hm
    refine ⟨le_rfl, fun _ => hv,
      by simp [instanceAt], by simp [instanceAt], ?_, by simp [instanceAt],
      by simp [instanceAt], by simp [instanceAt], by simp [instanceAt], by simp [instanceAt],
      fun _ => ⟨rfl, rfl⟩⟩
    intro m hs
    obtain rfl := hm m hs
    exact ⟨Nat.le_add_right _ _, Nat.add_le_add_left hv _⟩
  have hf : ∀ st : Mark, st.value ≤ maxCounterValue32Bit → stored = none →
      ∃ base, InstanceInvariant stored base (reserveAhead (instanceAt o st) none) ∧
        ∀ m ∈ stored, m.position ≤ base := by
    intro st hv hs
    subst hs
    exact ⟨st.position, reserveAhead_invariant (hb st hv (by simp)) rfl
      (by simp [instanceAt]) (by simp), by simp⟩
  cases stored with
  | some m =>
    simp only [construct] at h
    split_ifs at h with hv hr
    · cases h
      refine ⟨m.position, ?_, by simp⟩
      have hi := hb m (by omega) (by simp)
      exact { hi with quiet := fun _ => ⟨rfl, rfl⟩ }
    · cases h
      exact ⟨m.position, reserveAhead_invariant (hb m (by omega) (by simp)) rfl
        (by simp [instanceAt]) (by simp), by simp⟩
  | none =>
    simp only [construct] at h
    split at h
    · rename_i seed _
      split_ifs at h with hv
      cases h
      exact hf ⟨0, seed⟩ (by dsimp only; omega) rfl
    · cases h
      refine hf _ ?_ rfl
      have hs : (r >>> 4).toNat ≤ r.toNat / 16 := by
        simp [shiftRight_eq_div_pow]
      have hr : r.toNat < 2 ^ 32 := UInt32.toNat_lt _
      simp only [maxCounterValue32Bit]
      omega

section

variable (h : SystemInvariant s)
include h

/-- Handing out a counter that is above the base of this life and stored. -/
theorem issue_invariant (hi : InstanceInvariant s.stored base j)
    (ho : ∀ r ∈ s.returned, r.boot < s.boots → r.counter.position ≤ base)
    (hb : base < c.position) (hs : ∃ m ∈ s.stored, c.position ≤ m.position) :
    SystemInvariant { s with running := some j, returned := ⟨s.boots, c⟩ :: s.returned } where
  durable := by
    intro r hm
    rcases mem_cons.mp hm with rfl | hm
    · exact hs
    · exact h.durable r hm
  boots := by
    intro r hm
    rcases mem_cons.mp hm with rfl | hm
    · exact le_rfl
    · exact h.boots r hm
  noReissue := by
    intro a ha b hb' hl
    rcases mem_cons.mp ha with rfl | ha <;> rcases mem_cons.mp hb' with rfl | hb'
    · exact absurd hl (lt_irrefl _)
    · have := h.boots b hb'
      dsimp only at hl
      omega
    · intro he
      have := ho a ha hl
      rw [he] at this
      dsimp only at this
      omega
    · exact h.noReissue a ha b hb' hl
  running := by
    intro i' hi'
    obtain rfl : j = i' := Option.some.inj hi'
    refine ⟨base, hi, ?_⟩
    intro r hm hl
    rcases mem_cons.mp hm with rfl | hm
    · exact absurd hl (lt_irrefl _)
    · exact ho r hm hl

/-- A step that returns nothing and does not move the storage back. -/
theorem update_invariant (hi : InstanceInvariant stored base j)
    (ho : ∀ r ∈ s.returned, r.boot < s.boots → r.counter.position ≤ base)
    (hs : ∀ m ∈ s.stored, ∃ m' ∈ stored, m.position ≤ m'.position) :
    SystemInvariant { s with stored := stored, running := some j } where
  durable := by
    intro r hm
    obtain ⟨m, hm, hl⟩ := h.durable r hm
    obtain ⟨m', hm', hle'⟩ := hs m hm
    exact ⟨m', hm', hl.trans hle'⟩
  boots := h.boots
  noReissue := h.noReissue
  running := by
    intro i' hi'
    obtain rfl : j = i' := Option.some.inj hi'
    exact ⟨base, hi, ho⟩

theorem stop_invariant : SystemInvariant { s with running := none } :=
  ⟨h.durable, h.boots, h.noReissue, by simp⟩

end

/-- A counter that stays in the stored block lies at or below the stored mark: one cycle
further on, the block would be out of reach of the counter. -/
theorem within_reserved {m : Mark} (hc : Captured base i c)
    (hr : i.reserved = some m.value) (hl : leavesReserved i c.value = false)
    (hp : i.position + i.options.reserve < m.position + 2 ^ 32) : c.position ≤ m.position := by
  simp only [leavesReserved, hr, decide_eq_false_iff_not, not_or, not_le, not_lt] at hl
  have he := hc.2.1
  simp only [Mark.position, unwrapped] at hp he ⊢
  by_contra hn
  omega

section

variable (h : InstanceInvariant stored base i)
include h

section

variable (hn : i.writes[n]? = some w)
include hn

/-- At most one write is pending, so the one a step names is the only one. -/
theorem only_write : i.writes = [w] ∧ n = 0 := by
  have hl := h.one_write
  cases hw : i.writes with
  | nil => simp [hw] at hn
  | cons v vs =>
    have hv : vs = [] := by
      rw [hw] at hl
      exact eq_nil_of_length_eq_zero (by simpa using hl)
    subst hv
    rw [hw] at hn
    cases n with
    | zero => simpa using hn
    | succ n => simp at hn

theorem apply_invariant : InstanceInvariant (some w.mark) base
      { i with writes := i.writes.set n { w with applied := r } } := by
  obtain ⟨hw, rfl⟩ := only_write h hn
  have hm : w ∈ i.writes := by simp [hw]
  have he : ∀ v ∈ i.writes.set 0 { w with applied := r }, v = { w with applied := r } := by
    simp [hw]
  refine ⟨h.base_le, h.bounded, h.callbacks, h.counted, ?_, ?_, ?_, ?_, ?_, ?_, ?_⟩
  · intro m hs
    cases hs
    exact h.write_reach w hm
  · simp [hw]
  · intro v hv
    obtain rfl := he v hv
    exact h.write_reach w hm
  · intro v hv m hs
    obtain rfl := he v hv
    cases hs
    exact le_rfl
  · intro v hv _
    obtain rfl := he v hv
    rfl
  · intro v hv c hc
    obtain rfl := he v hv
    exact h.write_counter w hm c hc
  · intro hq
    simp [(h.quiet hq).1] at hw

/-- A settled write disappears, and with it its obligations. -/
theorem settle_invariant (k : Construction) (hk : k ≠ .inCallback) :
    InstanceInvariant stored base { i with writes := i.writes.eraseIdx n, construction := k } := by
  obtain ⟨hw, rfl⟩ := only_write h hn
  have hi : i.writes.eraseIdx 0 = [] := by simp [hw]
  exact ⟨h.base_le, h.bounded, h.callbacks, h.counted, h.stored_reach, by simp [hi],
    by simp [hi], by simp [hi], by simp [hi], by simp [hi], fun hq => absurd hq hk⟩

theorem not_inCallback : i.construction ≠ .inCallback := by
  intro hq
  simp [(h.quiet hq).1] at hn

end

theorem counted_invariant (hc : Captured base i c) : InstanceInvariant stored base
      { i with callbacks := i.callbacks - 1, counted := i.counted ++ [c] } := by
  refine { h with callbacks := fun hp => h.callbacks (by dsimp only at hp; omega), counted := ?_ }
  intro c' hm
  rcases mem_concat_cases hm with hm | rfl
  · exact h.counted c' hm
  · exact hc

end

theorem stepRunning_invariant {a : Action} (h : SystemInvariant s) (hu : s.running = some i)
    (hg : ReservationStored s a) (hs : stepRunning s i a = some t) : SystemInvariant t := by
  obtain ⟨base, hi, ho⟩ := h.running i hu
  have hkp : ∀ m ∈ s.stored, ∃ m' ∈ s.stored, m.position ≤ m'.position :=
    fun m hm => ⟨m, hm, le_rfl⟩
  cases a with
  | boot o r => cases hs
  | constructResume =>
    obtain ⟨hq, rfl⟩ := of_enabled hs
    have hi' : InstanceInvariant s.stored base { i with construction := .reserving } :=
      { hi with quiet := fun _ => hi.quiet hq }
    exact update_invariant h
      (reserveAhead_invariant hi' (hi.quiet hq).1 (by simp) (by simp)) ho hkp
  | constructReject =>
    obtain ⟨-, rfl⟩ := of_enabled hs
    exact stop_invariant h
  | call =>
    obtain ⟨-, rfl⟩ := of_enabled hs
    exact update_invariant h (beginCall_invariant hi) ho hkp
  | resume =>
    obtain ⟨hp, rfl⟩ := of_enabled hs
    obtain ⟨hr, hb⟩ := hi.callbacks hp
    exact update_invariant h (counted_invariant hi
      ⟨hb, le_rfl, Nat.add_le_add_left (hi.bounded hr) _⟩) ho hkp
  | reject =>
    obtain ⟨hp, rfl⟩ := of_enabled hs
    exact update_invariant h
      { hi with callbacks := fun hp => hi.callbacks (by dsimp only at hp; omega) } ho hkp
  | check n =>
    simp only [stepRunning] at hs
    cases hn : i.counted[n]? with
    | none => simp [hn] at hs
    | some c =>
      have hc := hi.counted c (mem_of_getElem? hn)
      obtain ⟨i', hi', m, hm, hw, hr, hp⟩ := hg
      obtain rfl : i = i' := Option.mem_unique hu hi'
      have hi₁ : InstanceInvariant s.stored base { i with counted := i.counted.eraseIdx n } :=
        { hi with counted := fun c hc => hi.counted c (mem_of_mem_eraseIdx hc) }
      have hl : leavesReserved { i with counted := i.counted.eraseIdx n } c.value =
          leavesReserved i c.value := rfl
      simp only [hn, hl] at hs
      cases hv : leavesReserved i c.value with
      | true =>
        simp only [hv, if_true, Option.some.injEq] at hs
        subst t
        refine update_invariant h (reserveAhead_invariant hi₁ hw ?_ ?_) ho hkp
        · intro hq
          simp [(hi.quiet hq).2] at hr
        · intro c' hc'
          cases hc'
          exact hc
      | false =>
        simp only [hv, Bool.false_eq_true, if_false, Option.some.injEq] at hs
        subst t
        exact issue_invariant h hi₁ ho hc.1 ⟨m, hm, within_reserved hc hr hv hp⟩
  | apply n =>
    simp only [stepRunning] at hs
    cases hn : i.writes[n]? with
    | none => simp [hn] at hs
    | some w =>
      simp only [hn] at hs
      split_ifs at hs
      cases hs
      refine update_invariant h (apply_invariant hi hn) ho ?_
      intro m hm
      exact ⟨w.mark, rfl, hi.write_above w (mem_of_getElem? hn) m hm⟩
  | resolve n =>
    simp only [stepRunning] at hs
    cases hn : i.writes[n]? with
    | none => simp [hn] at hs
    | some w =>
      have hm := mem_of_getElem? hn
      simp only [hn] at hs
      split_ifs at hs with ha
      cases hs
      unfold confirm
      cases hc : w.counter with
      | none => exact update_invariant h (settle_invariant hi hn .ready (by simp)) ho hkp
      | some c =>
        obtain ⟨hb, he⟩ := hi.write_counter w hm c hc
        exact issue_invariant h (settle_invariant hi hn _ (not_inCallback hi hn)) ho hb
          ⟨w.mark, hi.write_applied w hm ha, he⟩
  | fail n =>
    simp only [stepRunning] at hs
    cases hn : i.writes[n]? with
    | none => simp [hn] at hs
    | some w =>
      simp only [hn] at hs
      split_ifs at hs
      · cases hs
        exact stop_invariant h
      · cases hs
        exact update_invariant h (settle_invariant hi hn _ (not_inCallback hi hn)) ho hkp
  | crash =>
    cases hs
    exact stop_invariant h

theorem boot_invariant {r : UInt32} (h : SystemInvariant s) :
    SystemInvariant { s with
      running := construct s.stored o r, boots := s.boots + 1 } where
  durable := h.durable
  boots := fun r hr => (h.boots r hr).trans (le_succ _)
  noReissue := h.noReissue
  running := by
    intro i hi
    obtain ⟨base, hv, hb⟩ := construct_invariant hi
    refine ⟨base, hv, ?_⟩
    intro r hr _
    obtain ⟨m, hm, hl⟩ := h.durable r hr
    exact hl.trans (hb m hm)

theorem step_invariant {a : Action} (hs : guarded step ReservationStored s a = some t)
    (h : SystemInvariant s) : SystemInvariant t := by
  obtain ⟨hg, hs⟩ := guarded_eq_some.mp hs
  cases hu : s.running with
  | some i =>
    simp only [step, hu] at hs
    exact stepRunning_invariant h hu hg hs
  | none =>
    cases a with
    | boot o r =>
      simp only [step, hu, Option.some.injEq] at hs
      subst t
      exact boot_invariant h
    | _ => simp [step, hu] at hs

theorem initial_invariant (stored : Option Nat) : SystemInvariant (initial stored) :=
  ⟨by simp [initial], by simp [initial], by simp [NoReissue, initial], by simp [initial]⟩

/-- Nothing is issued twice across restarts in a run in which every counter is compared
with a reservation that the storage has confirmed. -/
theorem noReissue_of_reservationStored {stored : Option Nat} {as : List Action}
    (h : Run (guarded step ReservationStored) (initial stored) as t) : NoReissue t :=
  (run_invariant (fun _ _ _ hs hi => step_invariant hs hi) h (initial_invariant stored)).noReissue

/-- Two calls, a restart and another call: 6, 7 and then 10. -/
theorem restart_run : ∃ t, Run (guarded step ReservationStored) (initial none)
      [.boot ⟨⟨false, defaultRolloverInfoDifference⟩, 2, some 5, by decide⟩ 0, .apply 0, .resolve 0,
        .call, .call, .check 0, .check 0, .apply 0, .resolve 0, .crash,
        .boot ⟨⟨false, defaultRolloverInfoDifference⟩, 2, some 5, by decide⟩ 0,
        .apply 0, .resolve 0, .call, .check 0] t ∧ t.returned.map (·.counter.value) = [10, 7, 6] :=
  ⟨_, run_of_exec rfl, rfl⟩

theorem noReissue_of_reservationStored_restart :
    ∃ as t, Run (guarded step ReservationStored) (initial none) as t ∧
      t.returned.map (fun r => r.counter.value) = [10, 7, 6] ∧ NoReissue t := by
  obtain ⟨t, h, hr⟩ := restart_run
  exact ⟨_, t, h, hr, noReissue_of_reservationStored h⟩

/-- What is stored covers every counter a caller has got, at whatever point the process crashes. -/
theorem stored_covers_returned {stored : Option Nat} {as : List Action}
    (h : Run (guarded step ReservationStored) (initial stored) as t) :
    ∀ r ∈ t.returned, ∃ m ∈ t.stored, r.counter.position ≤ m.position :=
  (run_invariant (fun _ _ _ hs hi => step_invariant hs hi) h (initial_invariant stored)).durable

theorem stored_covers_returned_restart : ∃ as t,
    Run (guarded step ReservationStored) (initial none) as t ∧ t.returned.length = 3 ∧
      ∀ r ∈ t.returned, ∃ m ∈ t.stored, r.counter.position ≤ m.position := by
  obtain ⟨t, h, hr⟩ := restart_run
  exact ⟨_, t, h, by simpa using congrArg List.length hr, stored_covers_returned h⟩

end MatterJs.MessageCounter.Persisted
