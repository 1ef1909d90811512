import MatterJs.Pase.PaseServer

/-! The admission of pairing attempts. -/
namespace MatterJs.Pase

open TransitionSystem IndexedList List Stage

namespace Server

variable {s t : Server} {m : Nat}

section

variable (s)

/-- No attempt fails once its session is registered. No exchange arrives, and nothing fails, in
the clean-up of the attempt that reaches the limit. -/
def undisturbed : Event → Bool
  | .newExchange =>
    (List.range s.nextMessenger).all (fun m => s.stage m != some (.releasing true))
  | .fail messenger => !(s.stage messenger).any registered
  | .cancelFailed _ => s.pairingErrors < paseCommissioningMaxErrors
  | .releaseFailed messenger => s.stage messenger != some (.releasing true)
  | _ => true

/-- The call with this messenger has an attempt in progress. -/
def attempting (m : Nat) : Prop :=
  ∃ stage, s.stage m = some stage ∧ stage.inProgress

/-- The calls, the messenger of the server and the sessions belong together. -/
structure Admitting (s : Server) : Prop where
  known : ∀ m stage, s.stage m = some stage → m < s.nextMessenger
  messenger : ∀ m, s.attempting m → s.pairingMessenger = some m
  unfailed : ∀ m stage, s.stage m = some stage → stage.handling → m ∉ s.failed
  fresh : ∀ m ∈ s.failed, m < s.nextMessenger
  sessions : ∀ session ∈ s.sessions, session.attempt < s.nextMessenger ∧ session.attempt ∉ s.failed
  unregistered : ∀ m stage, s.stage m = some stage → stage.registered = false →
    stage.handling → ∀ session ∈ s.sessions, session.attempt ≠ m
  errors : s.failed.length = s.pairingErrors
  limit : paseCommissioningMaxErrors ≤ s.pairingErrors →
    s.closed ∨ ∃ m, s.stage m = some .cancelling ∨ s.stage m = some (.releasing true)
  window : s.windowOpen = false → s.closed

theorem admitting_new : Admitting new where
  known := by simp [new]
  messenger := by simp [new, attempting]
  unfailed := by simp [new]
  fresh := by simp [new]
  sessions := by simp [new]
  unregistered := by simp [new]
  errors := rfl
  limit := by simp [new, paseCommissioningMaxErrors]
  window := by simp [new]

@[simp] theorem enter_stage_self (m : Nat) (stage : Option Stage) :
    (s.enter m stage).stage m = stage := by
  simp [enter]

theorem enter_stage_of_ne {m m' : Nat} (stage : Option Stage) (h : m' ≠ m) :
    (s.enter m stage).stage m' = s.stage m' := by
  simp [enter, h]

/-- A new attempt starts while no session is live and no other attempt is in progress. -/
theorem onNewExchange_cases : s.onNewExchange = s ∨
      s.closed = false ∧ s.hasPaseSession = false ∧ s.pairingMessenger = none ∧
        s.onNewExchange = { s.enter s.nextMessenger (some .readingPbkdfParamRequest) with
          pairingMessenger := some s.nextMessenger
          pairingTimer := some true
          nextMessenger := s.nextMessenger + 1 } := by
  unfold onNewExchange
  split
  · exact .inl rfl
  split
  · exact .inl rfl
  split
  · exact .inl rfl
  split
  · exact .inl rfl
  rename_i hc hs _ hm
  exact .inr ⟨by simpa using hc, by simpa using hs, by simpa using hm, rfl⟩

end

/-- While the limit of errors is reached and the server is open, the call that reached it is in
its clean-up. -/
theorem Admitting.errors_lt (h : Admitting s) (ho : s.closed = false)
    (hm : s.pairingMessenger = none) (hu : s.undisturbed .newExchange) :
    s.pairingErrors < paseCommissioningMaxErrors := by
  by_contra hl
  rcases h.limit (Nat.le_of_not_lt hl) with hc' | ⟨m, hc | hr⟩
  · simp [ho] at hc'
  · have ha : s.attempting m := ⟨.cancelling, hc, rfl⟩
    simp [h.messenger m ha] at hm
  · have hn : m ∈ List.range s.nextMessenger :=
      mem_range.mpr (h.known m _ hr)
    have := all_eq_true.mp hu m hn
    simp [hr] at this

theorem Admitting.onNewExchange (h : Admitting s) (hu : s.undisturbed .newExchange) :
    Admitting s.onNewExchange := by
  rcases onNewExchange_cases s with he | ⟨hc, -, hms, he⟩
  · rw [he]
    exact h
  rw [he]
  have hl := h.errors_lt hc hms hu
  have hn : ∀ m, ¬ s.attempting m := by
    intro m hm
    simp [h.messenger m hm] at hms
  exact {
    known := by
      intro m stage ht
      by_cases hm : m = s.nextMessenger
      · simp [hm]
      · have := h.known m stage (by simpa [enter, hm] using ht)
        exact Nat.lt_succ_of_lt this
    messenger := by
      intro m hm
      by_cases he : m = s.nextMessenger
      · simp [he]
      · exact absurd (by simpa [attempting, enter, he] using hm) (hn m)
    unfailed := by
      intro m stage ht hh hf
      by_cases hm : m = s.nextMessenger
      · exact absurd (h.fresh m hf) (by simp [hm])
      · exact h.unfailed m stage (by simpa [enter, hm] using ht) hh hf
    fresh := fun m hm => Nat.lt_succ_of_lt (h.fresh m hm)
    sessions := by
      intro e hs
      obtain ⟨hl, hf⟩ := h.sessions e hs
      exact ⟨Nat.lt_succ_of_lt hl, hf⟩
    unregistered := by
      intro m stage ht hr hh e hs
      by_cases hm : m = s.nextMessenger
      · rw [hm]
        exact Nat.ne_of_lt (h.sessions e hs).1
      · exact h.unregistered m stage (by simpa [enter, hm] using ht) hr hh
          e hs
    errors := h.errors
    limit := fun hle => absurd hle (Nat.not_le_of_lt hl)
    window := h.window }

/-- At most one attempt is in progress. -/
theorem Admitting.attempting_unique (h : Admitting s) {m m' : Nat} (hm : s.attempting m)
    (hm' : s.attempting m') : m = m' :=
  Option.some.inj ((h.messenger m hm).symm.trans (h.messenger m' hm'))

variable {st : Stage} {n : Option Stage}

/-- A call that goes on to a stage which demands no more than the one it leaves. -/
theorem Admitting.enter (h : Admitting s)
    (hs : s.stage m = some st)
    (hn : ∀ s', n = some s' → (s'.inProgress → st.inProgress) ∧
      (s'.handling → st.handling ∧ (s'.registered = false → st.registered = false)))
    (hl : paseCommissioningMaxErrors ≤ s.pairingErrors → s.closed ∨
      ∃ m', (s.enter m n).stage m' = some .cancelling ∨
        (s.enter m n).stage m' = some (.releasing true)) : Admitting (s.enter m n) where
  known := by
    intro m' s' hs'
    by_cases hm : m' = m
    · rw [hm]
      exact h.known m st hs
    · rw [enter_stage_of_ne s n hm] at hs'
      exact h.known m' s' hs'
  messenger := by
    intro m' hm'
    by_cases hm : m' = m
    · subst hm
      obtain ⟨s', hsm, hp⟩ := hm'
      rw [enter_stage_self] at hsm
      exact h.messenger m' ⟨st, hs, (hn s' hsm).1 hp⟩
    · rw [attempting, enter_stage_of_ne s n hm] at hm'
      exact h.messenger m' hm'
  unfailed := by
    intro m' s' hs' hh
    by_cases hm : m' = m
    · subst hm
      rw [enter_stage_self] at hs'
      exact h.unfailed m' st hs ((hn s' hs').2 hh).1
    · rw [enter_stage_of_ne s n hm] at hs'
      exact h.unfailed m' s' hs' hh
  fresh := h.fresh
  sessions := h.sessions
  unregistered := by
    intro m' s' hs' hr hh
    by_cases hm : m' = m
    · subst hm
      rw [enter_stage_self] at hs'
      obtain ⟨ho, hu⟩ := (hn s' hs').2 hh
      exact h.unregistered m' st hs (hu hr) ho
    · rw [enter_stage_of_ne s n hm] at hs'
      exact h.unregistered m' s' hs' hr hh
  errors := h.errors
  limit := hl
  window := h.window

/-- The limit is witnessed by another call, unless this one is in its cancellation or clean-up. -/
theorem Admitting.limit_enter (h : Admitting s) (hs : s.stage m = some st) (hc : st ≠ .cancelling)
    (hr : st ≠ .releasing true) (he : paseCommissioningMaxErrors ≤ s.pairingErrors) : s.closed ∨
      ∃ m', (s.enter m n).stage m' = some .cancelling ∨
        (s.enter m n).stage m' = some (.releasing true) := by
  rcases h.limit he with hl | ⟨m', hm'⟩
  · exact .inl hl
  · have hn : m' ≠ m := by
      rintro rfl
      rcases hm' with hm' | hm'
      · exact hc (Option.mem_unique hs hm')
      · exact hr (Option.mem_unique hs hm')
    refine .inr ⟨m', ?_⟩
    rw [enter_stage_of_ne s n hn]
    exact hm'

theorem next_spec {n : Stage} (h : st.next = some n) : st.handling ∧ n.handling ∧ n.inProgress ∧
      st.inProgress ∧ (n.registered = false → st.registered = false) := by
  cases st <;> simp only [Stage.next, Option.some.injEq, reduceCtorEq] at h <;> subst h <;> decide

theorem Admitting.proceed {n : Stage} (h : Admitting s) (ht : s.stage m = some st)
    (hn : st.next = some n) : Admitting (s.proceed m st n) := by
  obtain ⟨hh, hh', hp, hp', hr⟩ := next_spec hn
  have he : Admitting (s.enter m (some n)) := by
    apply h.enter ht
    · intro st' hq
      cases hq
      exact ⟨fun _ => hp', fun _ => ⟨hh, hr⟩⟩
    · apply h.limit_enter ht
      · rintro rfl
        simp [handling] at hh
      · rintro rfl
        simp [handling] at hh
  unfold Server.proceed
  split
  · rename_i hc
    subst hc
    obtain rfl : sendingSuccess = n := Option.some.inj hn
    exact { he with
      sessions := by
        intro e hs
        rcases mem_concat_cases hs with ho | rfl
        · exact he.sessions e ho
        · exact ⟨h.known m _ ht, h.unfailed m _ ht rfl⟩
      unregistered := by
        intro m' st' hs' hu hh' e hs
        rcases mem_concat_cases hs with ho | rfl
        · exact he.unregistered m' st' hs' hu hh' e ho
        · rintro rfl
          have hq : st' = .sendingSuccess := by simpa using hs'.symm
          simp [hq, registered] at hu }
  · exact he

variable {tme : Bool}

section

variable (h : Admitting s)
include h

theorem Admitting.release (hs : s.stage m = some st) (hp : st.inProgress)
    (hl : paseCommissioningMaxErrors ≤ s.pairingErrors → s.closed ∨
      ∃ m', (s.enter m (some (.releasing tme))).stage m' = some .cancelling ∨
        (s.enter m (some (.releasing tme))).stage m' = some (.releasing true)) :
    Admitting (s.release m tme) := by
  have ha : s.attempting m := ⟨st, hs, hp⟩
  have he : Admitting (s.enter m (some (.releasing tme))) := by
    apply h.enter hs
    · intro st' hq
      cases hq
      simp [inProgress, handling]
    · exact hl
  exact { he with
    messenger := by
      intro m' hm'
      exfalso
      have hn : m' ≠ m := by
        rintro rfl
        simp [attempting, Server.release, inProgress] at hm'
      have ho : s.attempting m' := by
        simpa [attempting, Server.release, Server.enter, hn] using hm'
      exact hn (h.attempting_unique ho ha) }

theorem Admitting.fail (hs : s.stage m = some st) (hh : st.handling) (hr : st.registered = false) :
    Admitting { s.enter m (some .cancelling) with
      pairingErrors := s.pairingErrors + 1
      failed := m :: s.failed } := by
  have hp : st.inProgress := by
    cases st <;> simp_all [inProgress, handling]
  have hu := h.unregistered m st hs hr hh
  have hw : (s.enter m (some .cancelling)).stage m = some .cancelling := enter_stage_self ..
  have he : Admitting (s.enter m (some .cancelling)) := by
    apply h.enter hs
    · intro st' hq
      cases hq
      exact ⟨fun _ => hp, by simp [handling]⟩
    · exact fun _ => .inr ⟨m, .inl hw⟩
  exact { he with
    unfailed := by
      intro m' st' hs' hh' hf
      rcases mem_cons.mp hf with rfl | hf
      · have hq : st' = .cancelling := by simpa using hs'.symm
        simp [hq, handling] at hh'
      · exact he.unfailed m' st' hs' hh' hf
    fresh := by
      intro m' hm'
      rcases mem_cons.mp hm' with rfl | hm'
      · exact h.known m' st hs
      · exact h.fresh m' hm'
    sessions := by
      intro e hss
      obtain ⟨hl, ho⟩ := h.sessions e hss
      refine ⟨hl, ?_⟩
      rintro hf
      rcases mem_cons.mp hf with hq | hf
      · exact hu e hss hq
      · exact ho hf
    errors := by simp [h.errors]
    limit := fun _ => .inr ⟨m, .inl hw⟩ }

theorem Admitting.leave (hs : s.stage m = some (.releasing tme))
    (hl : tme → s.closed) : Admitting (s.enter m none) := by
  apply h.enter hs
  · simp
  · intro he
    cases tme with
    | true => exact .inl (hl rfl)
    | false => exact h.limit_enter hs (by simp) (by simp) he

theorem Admitting.endCommissioning : Admitting s.endCommissioning := by
  unfold Server.endCommissioning
  split
  · exact { h with
      limit := fun _ => .inl rfl
      window := fun _ => rfl }
  · exact h

theorem closed_endCommissioning : s.endCommissioning.closed := by
  unfold Server.endCommissioning
  split
  · rfl
  · rename_i hw
    exact h.window (by simpa using hw)

end

theorem enter_endCommissioning (s : Server) (m : Nat) (st : Option Stage) :
    (s.enter m st).endCommissioning = s.endCommissioning.enter m st := by
  cases ho : s.windowOpen <;> simp [Server.endCommissioning, Server.enter, ho]

/-- The sessions that are left belong to the same attempts. -/
theorem Admitting.of_sessions {i : List Session} (h : Admitting s)
    (hss : ∀ ss ∈ i, ∃ o ∈ s.sessions, ss.attempt = o.attempt) :
    Admitting { s with sessions := i } :=
  { h with
    sessions := by
      intro ss hs
      obtain ⟨o, ho, he⟩ := hss ss hs
      rw [he]
      exact h.sessions o ho
    unregistered := by
      intro m st ht hr hh ss hs
      obtain ⟨o, ho, he⟩ := hss ss hs
      rw [he]
      exact h.unregistered m st ht hr hh o ho }

theorem Admitting.step {v : Event} (h : Admitting s)
    (hu : s.undisturbed v) (ht : s.step v = some t) : Admitting t := by
  cases v with
  | newExchange =>
    cases ht
    split
    · exact h.onNewExchange hu
    · exact h
  | advance m =>
    obtain ⟨st, hs, hp⟩ := Option.bind_eq_some_iff.mp ht
    obtain ⟨n, hn, rfl⟩ := Option.map_eq_some_iff.mp hp
    exact h.proceed hs hn
  | finish m =>
    obtain ⟨hs, rfl⟩ := of_enabled ht
    exact h.release hs rfl (h.limit_enter hs (by simp) (by simp))
  | fail m =>
    obtain ⟨ha, rfl⟩ := of_enabled ht
    cases hs : s.stage m with
    | none => simp [hs] at ha
    | some st =>
      refine h.fail hs (by simpa [hs] using ha) ?_
      simpa [undisturbed, hs] using hu
  | cancelled m =>
    obtain ⟨hs, rfl⟩ := of_enabled ht
    refine h.release hs rfl ?_
    intro hl
    exact .inr ⟨m, .inr (by simp [hl])⟩
  | cancelFailed m =>
    obtain ⟨hs, rfl⟩ := of_enabled ht
    refine h.release hs rfl ?_
    have hlt : s.pairingErrors < paseCommissioningMaxErrors := by
      simpa [undisturbed] using hu
    omega
  | released m =>
    simp only [Server.step] at ht
    split at ht
    · rename_i hs
      cases ht
      exact h.leave hs (by simp)
    · rename_i hs
      cases ht
      rw [enter_endCommissioning]
      have hs' : s.endCommissioning.stage m = some (.releasing true) := by
        unfold Server.endCommissioning
        split <;> exact hs
      exact h.endCommissioning.leave hs' (fun _ => closed_endCommissioning h)
    · cases ht
  | releaseFailed m =>
    simp only [Server.step] at ht
    split at ht
    · rename_i tme hs
      cases ht
      refine h.leave hs ?_
      rintro rfl
      simp [undisturbed, hs] at hu
    · cases ht
  | timeout =>
    obtain ⟨-, rfl⟩ := of_enabled ht
    exact { h with }
  | endCommissioning =>
    cases ht
    exact h.endCommissioning
  | removed =>
    obtain ⟨hc, rfl⟩ := of_enabled ht
    exact { h with window := fun _ => hc }
  | closeSession index =>
    obtain ⟨e, hss, rfl⟩ := Option.map_eq_some_iff.mp ht
    refine h.of_sessions ?_
    intro se' hm
    rcases mem_or_eq_of_mem_set hm with ho | rfl
    · exact ⟨se', ho, rfl⟩
    · exact ⟨e, mem_of_getElem? hss, rfl⟩
  | sessionClosed index =>
    obtain ⟨-, rfl⟩ := of_enabled ht
    refine h.of_sessions ?_
    intro e hm
    exact ⟨e, mem_of_mem_eraseIdx hm, rfl⟩

end Server

/-- In every undisturbed run at most one attempt is in progress, the sessions are none of failed
attempts, and an attempt starts only while no session is live and fewer than twenty attempts have
failed. -/
theorem pairing_admission (events : List Event) (s : Server)
    (h : Run (guarded Server.step (·.undisturbed ·)) .new events s) :
    (∀ m m', s.attempting m → s.attempting m' → m = m') ∧
      (∀ session ∈ s.sessions, session.attempt ∉ s.failed) ∧
      ∀ t, guarded Server.step (·.undisturbed ·) s .newExchange = some t →
        t.nextMessenger ≠ s.nextMessenger →
        (∀ session ∈ s.sessions, session.isClosing = true) ∧ s.failed.length < 20 := by
  have ha : s.Admitting := by
    refine guarded_invariant (I := Server.Admitting) ?_ h Server.admitting_new
    intro s event t hu ht hs
    exact hs.step hu ht
  refine ⟨fun m m' hm hm' => ha.attempting_unique hm hm',
    fun session hss => (ha.sessions session hss).2, ?_⟩
  intro t ht hst
  obtain ⟨hu, ht⟩ := guarded_eq_some.mp ht
  cases ht
  split at hst
  · rcases s.onNewExchange_cases with he | ⟨hc, hl, hms, -⟩
    · rw [he] at hst
      exact absurd rfl hst
    · refine ⟨by simpa [Server.hasPaseSession] using hl, ?_⟩
      rw [ha.errors]
      exact ha.errors_lt hc hms hu
  · exact absurd rfl hst

/-- The messages of an attempt up to the creation of its session. -/
def exchangeMessages (messenger : Nat) : List Event :=
  .newExchange :: List.replicate 9 (.advance messenger)

/-- An attempt whose first message is bad. -/
def badRequest (messenger : Nat) : List Event :=
  [.newExchange, .fail messenger, .cancelled messenger]

/-- An attempt fails, the next one succeeds, and a third exchange is ignored. -/
theorem pairing_admission_second_attempt : ∃ s : Server, s.failed = [0] ∧ s.sessions =
    [⟨1, false⟩] ∧ s.nextMessenger = 2 ∧ ∀ session ∈ s.sessions, session.attempt ∉ s.failed :=
  ⟨_, by rfl, by rfl, by rfl, (pairing_admission (badRequest 0 ++ [.released 0] ++
    exchangeMessages 1 ++ [.advance 1, .finish 1, .released 1, .newExchange]) _
    (run_of_exec rfl)).2.1⟩

set_option maxRecDepth 4000 in
/-- The success report of an attempt cannot be sent, and its session stays. After twenty attempts
that failed, another one starts while the last of them is being cleaned up. -/
theorem failed_attempt_leaves_session :
    (∃ s, exec Server.step .new (exchangeMessages 0 ++ [.fail 0, .cancelled 0, .released 0]) =
        some s ∧ s.failed = [0] ∧ s.sessions = [⟨0, false⟩]) ∧
      ∃ s, exec Server.step .new ((List.range 19).flatMap
          (fun m => badRequest m ++ [.released m]) ++ badRequest 19) = some s ∧
        s.failed.length = 20 ∧
        ∃ t, s.step .newExchange = some t ∧ t.stage 20 = some .readingPbkdfParamRequest :=
  ⟨⟨_, rfl, rfl, rfl⟩, _, rfl, rfl, _, rfl, rfl⟩

end MatterJs.Pase
