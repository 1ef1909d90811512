import MatterJs.Groups.GroupMessages

/-! The replay windows of group messages outlive the key sets that their keys move through. -/
namespace MatterJs.Groups

open TransitionSystem IndexedList MatterJs.Reception GroupNode List Function

variable (rs : List (Int × Bool))

def counters : List Int := rs.map Prod.fst

def windowAfter : ReceptionState :=
  encryptedWithRollover.after (encryptedWithRollover.construct none) (counters rs)

/-- What was accepted is what the window before it accepts. -/
def Judged : Prop :=
  ∀ before counter accepted after, rs = before ++ (counter, accepted) :: after →
    ValidCounter counter ∧ accepted = encryptedWithRollover.accepts (windowAfter before) counter

/-- A reception state that has seen these counters and no others. -/
structure Tracked (state : Option ReceptionState) (rs : List (Int × Bool)) : Prop where
  judged : Judged rs
  state : state = if rs = [] then none else some (windowAfter rs)

theorem judged_nil : Judged [] := by
  intro b c a after heq
  simp at heq

variable {rs}

theorem Judged.append {c : Int} (h : Judged rs) (hv : ValidCounter c) :
    Judged (rs ++ [(c, encryptedWithRollover.accepts (windowAfter rs) c)]) := by
  intro b c' accepted after heq
  rcases eq_nil_or_concat after with rfl | ⟨rest, l, rfl⟩
  · obtain ⟨rfl, hls⟩ := append_inj' heq rfl
    obtain ⟨rfl, rfl⟩ : c = c' ∧ _ = accepted := by simpa using hls
    exact ⟨hv, rfl⟩
  · rw [concat_eq_append, ← cons_append, ← append_assoc] at heq
    obtain ⟨hin, -⟩ := append_inj' heq rfl
    exact h b c' accepted rest hin

theorem tracked_none : Tracked none [] := ⟨judged_nil, rfl⟩

theorem windowAfter_append (c : Int) (a : Bool) : windowAfter (rs ++ [(c, a)]) =
      (encryptedWithRollover.updateMessageCounter (windowAfter rs) c).2 := by
  simp [windowAfter, counters, ReceptionClass.after]

/-- A received counter moves the window on. -/
theorem Tracked.receive {st : Option ReceptionState}
    {c : Int} (h : Tracked st rs) (hv : ValidCounter c) : Tracked
      (some (encryptedWithRollover.updateMessageCounter
        (st.getD (encryptedWithRollover.construct none)) c).2)
      (rs ++ [(c, encryptedWithRollover.accepts
        (st.getD (encryptedWithRollover.construct none)) c)]) := by
  have hs : st.getD (encryptedWithRollover.construct none) = windowAfter rs := by
    rw [h.state]
    split
    · rename_i hnil
      simp [hnil, windowAfter, counters]
    · rfl
  rw [hs]
  exact ⟨h.judged.append hv, by simp [windowAfter_append]⟩

/-- A counter that was accepted twice lies more than 2^31 below the maximum at the second time. -/
theorem Judged.accepted_again {b bt a : List (Int × Bool)} {n : Int}
    (h : Judged (b ++ (n, true) :: bt ++ (n, true) :: a)) :
    ∃ top, unwrappedMaximum (encryptedWithRollover.construct none) none
        (counters (b ++ (n, true) :: bt)) = some top ∧ unwrappedPosition (windowAfter b)
        (unwrappedMaximum (encryptedWithRollover.construct none) none (counters b))
        n + 2 ^ 31 < top := by
  have hv : ∀ c ∈ counters (b ++ (n, true) :: bt), ValidCounter c := by
    intro c hc
    obtain ⟨⟨c', ac⟩, hmem, rfl⟩ := mem_map.mp hc
    obtain ⟨x, y, heq⟩ := append_of_mem hmem
    refine (h x c' ac (y ++ (n, true) :: a) ?_).1
    simp [heq]
  obtain ⟨hco, hf⟩ := h b n true (bt ++ (n, true) :: a)
    (by simp)
  obtain ⟨-, hs⟩ := h (b ++ (n, true) :: bt) n true a rfl
  have hcn : counters (b ++ (n, true) :: bt) = counters b ++ n :: counters bt := by
    simp [counters]
  rw [hcn] at hv ⊢
  refine MatterJs.Reception.accepted_again none (by simp) (counters b) (counters bt)
    (fun c hc => hv c (mem_append_left _ hc))
    (fun c hc => hv c (mem_append_right _ (mem_cons_of_mem _ hc))) hco
    hf.symm ?_
  rw [← hcn]
  exact hs.symm

/-! ### Key sets -/

namespace FabricGroups

variable (gs : FabricGroups)

/-- The windows of keys that are in a key set are left alone. -/
theorem reception_forget (f : OperationalKeySet) (key r : Nat) :
    (gs.forgetUnreferenced f).reception key r = gs.reception key r ∨
      (gs.forgetUnreferenced f).reception key r = none ∧
        key ∉ (gs.forgetUnreferenced f).referencedKeys := by
  have hrc := (gs.forget_spec f).2.2.2
  have hr : (gs.forgetUnreferenced f).referencedKeys = gs.referencedKeys := by
    unfold referencedKeys
    rw [(gs.forget_spec f).1]
  rw [hr]
  exact hrc key r

theorem reception_setKeySet (k : OperationalKeySet) (p : Option OperationalKeySet) (key r : Nat) :
    (gs.setKeySet k p).reception key r = gs.reception key r ∨
      (gs.setKeySet k p).reception key r = none ∧ key ∉ (gs.setKeySet k p).referencedKeys := by
  cases p with
  | none => exact .inl rfl
  | some entry => exact (gs.addKeySet k).reception_forget entry key r

theorem reception_removeGroupKeySet (g key r : Nat) : (gs.removeGroupKeySet g).reception key r =
    gs.reception key r ∨ (gs.removeGroupKeySet g).reception key r = none ∧
    key ∉ (gs.removeGroupKeySet g).referencedKeys := by
  unfold removeGroupKeySet
  cases gs.keySet g with
  | none => exact .inl rfl
  | some entry =>
    exact (gs.deleteKeySet g).reception_forget entry key r

end FabricGroups

/-! ### The node -/

namespace GroupNode

variable {d : KeyDerivation} {i oi : Nat} {s t : GroupNode}

/-- The fabric object is never replaced, and the windows are those of all counters received. -/
structure Protected (s : GroupNode) : Prop where
  fabric : s.fabric = 0
  writes : ∀ write ∈ s.writes, write.fabric = 0 ∧ write.restores = false
  sessions : ∀ session ∈ s.sessions, session.fabric = 0
  windows : ∀ key source, ∃ older,
    Tracked ((s.groups 0).reception key source) (older ++ s.received key source)

/-- The fabric object is not replaced. -/
def keepsFabric : GroupEvent → Bool
  | .replaceFabric => false
  | _ => true

theorem protected_new : Protected (new i oi) where
  fabric := rfl
  writes := by simp [new]
  sessions := by simp [new]
  windows := fun _ _ => ⟨[], tracked_none⟩

namespace Protected

section
variable (h : Protected s)
include h

/-- A window may be lost where the key is in no key set. -/
theorem trim (hf : t.fabric = 0)
    (hw : ∀ w ∈ t.writes, w.fabric = 0 ∧ w.restores = false)
    (hs : ∀ ss ∈ t.sessions, ss.fabric = 0)
    (hrc : t.received = s.received)
    (hr : ∀ key r, (t.groups 0).reception key r = (s.groups 0).reception key r ∨
        (t.groups 0).reception key r = none ∧ key ∉ (t.groups 0).referencedKeys) :
    Protected t.trim where
  fabric := hf
  writes := hw
  sessions := hs
  windows := by
    intro key r
    obtain ⟨o, ht⟩ := h.windows key r
    have hr' : t.trim.received key r =
        if t.referenced key then s.received key r else [] := by
      simp [GroupNode.trim, hrc]
    rw [hr']
    rcases hr key r with hsm | ⟨hnn, hu⟩
    · have ht' : Tracked ((t.trim.groups 0).reception key r)
          (o ++ s.received key r) := by
        rw [← hsm] at ht
        exact ht
      split
      · exact ⟨o, ht'⟩
      · exact ⟨o ++ s.received key r, by simpa using ht'⟩
    · have hnot : t.referenced key = false := by
        simp only [referenced, hf, Bool.or_eq_false_iff, any_eq_false]
        refine ⟨by simpa using hu, ?_⟩
        intro w hwr
        simp [(hw w hwr).2]
      refine ⟨[], ?_⟩
      have hn' : (t.trim.groups 0).reception key r = none := hnn
      rw [hn', hnot]
      exact tracked_none

theorem beginWrite (k : GroupKeySet) (st : List GroupKeySet) :
    Protected ({ s with groupKeySets := st }.beginWrite d false k).trim := by
  unfold GroupNode.beginWrite
  split
  · exact h.trim h.fabric h.writes h.sessions rfl (fun _ _ => .inl rfl)
  · refine h.trim h.fabric ?_ h.sessions rfl (fun _ _ => .inl rfl)
    intro write hw
    rcases mem_concat_cases hw with hold | rfl
    · exact h.writes write hold
    · exact ⟨h.fabric, rfl⟩

theorem sessionFor (key r : Nat) :
    (s.sessionFor key r).1.fabric = 0 ∧ ∀ ss ∈ (s.sessionFor key r).2, ss.fabric = 0 := by
  unfold GroupNode.sessionFor
  split
  · rename_i ss hfn
    exact ⟨h.sessions ss (mem_of_find?_eq_some hfn), h.sessions⟩
  · refine ⟨h.fabric, ?_⟩
    intro ss hs
    rcases mem_concat_cases hs with hold | rfl
    · exact h.sessions ss hold
    · exact h.fabric

/-- The session found uses the windows of the fabric object. -/
theorem receive (key r : Nat) (c : UInt32) : Protected (s.receive key r (c.toNat : Int)) := by
  obtain ⟨hse, hss⟩ := h.sessionFor key r
  have hv : ValidCounter (c.toNat : Int) := by
    have hlt := c.toNat_lt
    simp only [ValidCounter, maxCounterValue32Bit]
    omega
  refine ⟨h.fabric, h.writes, hss, ?_⟩
  intro key' so'
  obtain ⟨o, ht⟩ := h.windows key' so'
  refine ⟨o, ?_⟩
  simp only [GroupNode.receive, GroupNode.setGroups, hse, FabricGroups.updateMessageCounter]
  by_cases hkey : key' = key
  · subst hkey
    by_cases hs : so' = r
    · subst hs
      simp only [update_self, ← append_assoc]
      exact ht.receive hv
    · simpa [update_of_ne hs] using ht
  · simpa [update_of_ne hkey] using ht

theorem derived {w : Nat} {e : KeySetWrite} (he : s.writes[w]? = some e) : Protected (GroupNode.trim
      { s.setGroups e.fabric
          ((s.groups e.fabric).setKeySet e.keySet e.previousEntry) with
        writes := s.writes.eraseIdx w }) := by
  have hf := (h.writes e (mem_of_getElem? he)).1
  apply h.trim
  case hf => exact h.fabric
  case hw =>
    intro other ho
    exact h.writes other (mem_of_mem_eraseIdx ho)
  case hs => exact h.sessions
  case hrc => rfl
  case hr =>
    intro key o
    simp only [setGroups, hf]
    exact (s.groups 0).reception_setKeySet e.keySet e.previousEntry key o

theorem keySetRemove (g : Nat) (st : List GroupKeySet) : Protected (GroupNode.trim
      { s.setGroups s.fabric ((s.groups s.fabric).removeGroupKeySet g) with
        groupKeySets := st }) := by
  apply h.trim
  case hf => exact h.fabric
  case hw => exact h.writes
  case hs => exact h.sessions
  case hrc => rfl
  case hr =>
    intro key o
    simp only [setGroups, h.fabric]
    exact (s.groups 0).reception_removeGroupKeySet g key o

theorem step {e : GroupEvent} (hg : keepsFabric e)
    (hstep : s.step d i oi e = some t) : Protected t := by
  obtain ⟨u, hnx, rfl⟩ := Option.map_eq_some_iff.mp hstep
  cases e with
  | keySetWrite k =>
    obtain ⟨-, rfl⟩ := of_enabled hnx
    exact h.beginWrite k (s.store k)
  | derived write =>
    obtain ⟨entry, he, rfl⟩ := Option.map_eq_some_iff.mp hnx
    exact h.derived he
  | keySetRemove g =>
    obtain ⟨-, rfl⟩ := of_enabled hnx
    exact h.keySetRemove g _
  | replaceFabric => cases hg
  | closeSession se =>
    cases hnx
    refine h.trim h.fabric h.writes ?_ rfl (fun _ _ => .inl rfl)
    intro other ho
    exact h.sessions other (mem_of_mem_eraseIdx ho)
  | receive key o c =>
    obtain ⟨-, rfl⟩ := of_enabled hnx
    have hr := h.receive key o c
    exact hr.trim hr.fabric hr.writes hr.sessions rfl
      (fun _ _ => .inl rfl)

end

end Protected

end GroupNode

open GroupNode in
/-- While the fabric object is kept, a counter that was accepted under a key and from a source is
accepted again, since the key was last in no key set, only if the counter has advanced by more than
2^31 in between. A window may be older than that: it has seen `older` before. -/
theorem group_counters_are_not_replayed (derivation : KeyDerivation)
    (identityProtectionKey operationalIdentityProtectionKey : Nat) (events : List GroupEvent)
    (s : GroupNode) (hrun : Run (guarded (step derivation identityProtectionKey
        operationalIdentityProtectionKey) (fun _ event => keepsFabric event))
      (new identityProtectionKey operationalIdentityProtectionKey) events s) (key source : Nat) :
    ∃ older, Tracked ((s.groups s.fabric).reception key source)
        (older ++ s.received key source) ∧
      ∀ before between after counter, s.received key source =
        before ++ (counter, true) :: between ++ (counter, true) :: after →
      ∃ top, unwrappedMaximum (encryptedWithRollover.construct none) none
          (counters (older ++ before ++ (counter, true) :: between)) = some top ∧
        unwrappedPosition (windowAfter (older ++ before))
          (unwrappedMaximum (encryptedWithRollover.construct none) none
            (counters (older ++ before))) counter + 2 ^ 31 < top := by
  have hp : Protected s := by
    refine guarded_invariant (I := Protected) ?_ hrun protected_new
    intro s event t hg hstep h
    exact h.step hg hstep
  obtain ⟨older, ht⟩ := hp.windows key source
  rw [← hp.fabric] at ht
  refine ⟨older, ht, ?_⟩
  intro before between after counter hr
  have hj := ht.judged
  rw [hr, ← append_assoc, ← append_assoc] at hj
  exact hj.accepted_again

def singleKeySet (groupKeySetId epochKey : Nat) : GroupKeySet :=
  ⟨groupKeySetId, some epochKey, some 1, none, none, none, none, 0, some 0⟩

/-- The key moves from the key set 1 to the key set 2 and its window moves with it: the message
is refused the second time. -/
theorem group_counters_are_not_replayed_moved_key :
    ∃ s : GroupNode, s.received 5 9 = [(7, true), (7, false)] ∧
      ∃ older, Tracked ((s.groups s.fabric).reception 5 9) (older ++ s.received 5 9) ∧
        ∀ before between after counter,
        s.received 5 9 = before ++ (counter, true) :: between ++ (counter, true) :: after →
        ∃ top, unwrappedMaximum (encryptedWithRollover.construct none) none
            (counters (older ++ before ++ (counter, true) :: between)) = some top ∧
          unwrappedPosition (windowAfter (older ++ before))
            (unwrappedMaximum (encryptedWithRollover.construct none) none
              (counters (older ++ before))) counter + 2 ^ 31 < top :=
  ⟨_, by decide, group_counters_are_not_replayed ⟨id, id⟩ 100 100
    [.keySetWrite (singleKeySet 1 5), .derived 0, .receive 5 9 7, .keySetWrite (singleKeySet 2 5),
      .derived 0, .keySetRemove 1, .receive 5 9 7] _ (run_of_exec rfl) 5 9⟩

/-- The new fabric object has no windows. The key is in the key set 1 all the time, and the message
is accepted twice. -/
theorem replaced_fabric_reopens_window : ∃ s : GroupNode, exec (step ⟨id, id⟩ 100 100) (new 100 100)
        [.keySetWrite (singleKeySet 1 5), .derived 0, .receive 5 9 7, .replaceFabric, .derived 0,
          .closeSession 0, .receive 5 9 7] = some s ∧ s.received 5 9 = [(7, true), (7, true)] :=
  ⟨_, rfl, by decide⟩

end MatterJs.Groups
