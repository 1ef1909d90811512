import MatterJs.Transaction.LockSafety
import MatterJs.Foundation.Acyclic

/-!
# Who waits for whom

The graph of `waitingOn` has no cycle, in any use of the transactions: an edge is only added after
the search for a deadlock has found no way back. An edge goes when the transaction it leads to
returns to shared, provided that no listener of `onShared` ends the emission before its turn.
-/
namespace MatterJs.Transaction

open TransitionSystem IndexedList Relation Cycles List Function Option

/-- The listener returns nothing, so that the next one is called. -/
def Listener.isQuiet : Listener → Bool
  | .waiter _ _ => true
  | .other quiet _ => quiet

/-- No request of the transaction starts to wait, and those that wait do so for fewer. -/
structure Tx.Shrinks (tx tx' : Tx) : Prop where
  others : ∀ (k : Nat) (request' : Request), tx'.requests[k]? = some request' →
    request'.stage = .waiting → ∃ request : Request, tx.requests[k]? = some request ∧
      request.stage = .waiting ∧ request'.others ⊆ request.others
  waitingOn : ∀ k, tx'.waitingOn = some k → tx.waitingOn = some k ∧
    ∀ request : Request, tx.requests[k]? = some request → request.stage = .waiting →
      ∃ request' : Request, tx'.requests[k]? = some request' ∧ request'.stage = .waiting

theorem Tx.Shrinks.of_same {tx tx' : Tx} (hr : tx'.requests = tx.requests)
    (hw : tx'.waitingOn = tx.waitingOn) : tx.Shrinks tx' := by
  refine ⟨?_, ?_⟩
  · rw [hr]
    exact fun k e hk hs => ⟨e, hk, hs, List.Subset.refl _⟩
  · rw [hr, hw]
    exact fun k hk => ⟨hk, fun e hq hs => ⟨e, hq, hs⟩⟩

namespace System

variable {s s' : System} {t u k p r : Nat} {s'' : System}

def Waits (s : System) (t u : Nat) : Prop := u ∈ (s.tx t).waitsFor

theorem waits_iff : s.Waits t u ↔ ∃ (k : Nat) (ru : Request), (s.tx t).waitingOn = some k ∧
    (s.tx t).requests[k]? = some ru ∧ ∃ n, (u, n) ∈ ru.others := by
  unfold Waits Tx.waitsFor
  constructor
  · intro h
    split at h
    · rename_i ru hq
      obtain ⟨k, hk, hr⟩ := bind_eq_some_iff.mp hq
      obtain ⟨⟨u', n⟩, hm, rfl⟩ := mem_map.mp h
      exact ⟨k, ru, hk, hr, n, hm⟩
    · cases h
  · rintro ⟨k, ru, hk, hr, n, hm⟩
    have hb : (s.tx t).waitingOn.bind (fun k => (s.tx t).requests[k]?) = some ru :=
      bind_eq_some_iff.mpr ⟨k, hk, hr⟩
    rw [hb]
    exact mem_map_of_mem hm

/-! ### Steps that add no edge -/

structure Shrinks (s s' : System) : Prop where
  count : s'.count = s.count
  txs : ∀ t, (s.tx t).Shrinks (s'.tx t)
  locks : ∀ r u, s'.lockedBy r = some u → s.lockedBy r = some u ∨ u < s.count

theorem Shrinks.refl (s : System) : Shrinks s s :=
  ⟨rfl, fun _ => .of_same rfl rfl, fun _ _ h => .inl h⟩

theorem Shrinks.trans (h : Shrinks s s') (h' : Shrinks s' s'') : Shrinks s s'' := by
  refine ⟨h'.count.trans h.count, fun t => ⟨?_, ?_⟩, ?_⟩
  · intro k r'' hk hs
    obtain ⟨re', hk', hs', hsub'⟩ := (h'.txs t).others k r'' hk hs
    obtain ⟨e, hk, hs, hu⟩ := (h.txs t).others k re' hk' hs'
    exact ⟨e, hk, hs, List.Subset.trans hsub' hu⟩
  · intro k hk
    obtain ⟨hk', hkp'⟩ := (h'.txs t).waitingOn k hk
    obtain ⟨hk, hp⟩ := (h.txs t).waitingOn k hk'
    refine ⟨hk, ?_⟩
    intro e hr hs
    obtain ⟨re', hr', hs'⟩ := hp e hr hs
    exact hkp' re' hr' hs'
  · intro r u hl
    rcases h'.locks r u hl with hl' | ht
    · exact h.locks r u hl'
    · exact .inr (h.count ▸ ht)

variable {tx : Tx} {rq r' : Request} {rs os : List Nat} {q : Bool}

/-- What is true of the transactions as they were is to be seen of one only. -/
theorem forall_setTx {P : Nat → Tx → Prop} (hs : P t tx) (ho : ∀ u, P u (s.tx u))
    (u : Nat) : P u ((s.setTx t tx).tx u) := by
  by_cases hu : u = t
  · rw [hu, setTx_self]
    exact hs
  · rw [setTx_of_ne s hu]
    exact ho u

theorem shrinks_of_tx (h : (s.tx t).Shrinks tx) : Shrinks s (s.setTx t tx) :=
  ⟨rfl, forall_setTx (P := fun u tx => (s.tx u).Shrinks tx) h (fun _ => .of_same rfl rfl),
    fun _ _ h => .inl h⟩

/-- What is not about waiting may change freely. -/
theorem shrinks_setTx (hr : tx.requests = (s.tx t).requests)
    (hw : tx.waitingOn = (s.tx t).waitingOn) : Shrinks s (s.setTx t tx) :=
  shrinks_of_tx (.of_same hr hw)

/-- A request changes in such a way that it does not start to wait. If it was waiting and does not
any more, the transaction is not `waitingOn`. -/
theorem shrinks_setRequest {w : Option Nat} (hk : (s.tx t).requests[k]? = some rq)
    (hs : r'.stage = .waiting → rq.stage = .waiting ∧ r'.others ⊆ rq.others)
    (ho : w = none ∨ (w = (s.tx t).waitingOn ∧ (rq.stage = .waiting → r'.stage = .waiting))) :
    Shrinks s (s.setTx t { (s.tx t).setRequest k r' with waitingOn := w }) := by
  refine shrinks_of_tx ⟨?_, ?_⟩
  · intro i r'' hi hw
    rcases getElem?_set_cases hi with ⟨rfl, rfl⟩ | ⟨-, hi⟩
    · obtain ⟨hwas, hu⟩ := hs hw
      exact ⟨rq, hk, hwas, hu⟩
    · exact ⟨r'', hi, hw, List.Subset.refl _⟩
  · intro i hi
    rcases ho with hn | ⟨hm, hp⟩
    · rw [hn] at hi
      cases hi
    · refine ⟨hm ▸ hi, ?_⟩
      intro r'' hi' hw
      by_cases hik : k = i
      · subst hik
        obtain rfl := mem_unique hk hi'
        exact ⟨r', List.getElem?_set_self (List.getElem?_eq_some_iff.mp hk).1, hp hw⟩
      · exact ⟨r'', (List.getElem?_set_ne hik).trans hi', hw⟩

theorem shrinks_addRequest (hr : tx.requests = (s.tx t).requests ++ [rq])
    (hwo : tx.waitingOn = (s.tx t).waitingOn) (hs : rq.stage ≠ .waiting) :
    Shrinks s (s.setTx t tx) := by
  refine shrinks_of_tx ⟨?_, ?_⟩
  · intro i re' hi hw
    rw [hr] at hi
    rcases getElem?_concat_cases hi with ho | ⟨-, rfl⟩
    · exact ⟨re', ho, hw, List.Subset.refl _⟩
    · exact absurd hw hs
  · intro i hi
    refine ⟨hwo ▸ hi, ?_⟩
    intro re' hi' hw
    refine ⟨re', ?_, hw⟩
    rw [hr]
    exact getElem?_concat_left hi'

section

variable (s)

theorem shrinks_takeLocks (ht : t < s.count) (rs : List Nat) : Shrinks s (s.takeLocks t rs) := by
  refine ⟨rfl, (Shrinks.refl s).txs, ?_⟩
  intro r u hl
  rw [takeLocks_lockedBy] at hl
  split_ifs at hl
  · exact .inr (Option.some.inj hl ▸ ht)
  · exact .inl hl

theorem shrinks_releaseLocks (t : Nat) (rs : List Nat) : Shrinks s (s.releaseLocks t rs) := by
  refine ⟨rfl, (Shrinks.refl s).txs, ?_⟩
  intro r u hl
  simp only [releaseLocks] at hl
  split_ifs at hl
  exact .inl hl

theorem shrinks_wake (t k u : Nat) : Shrinks s (s.setTx t ((s.tx t).wake k u)) := by
  unfold Tx.wake
  cases hk : (s.tx t).requests[k]? with
  | none => exact shrinks_setTx rfl rfl
  | some e =>
    dsimp only
    split_ifs with ho hw
    · refine shrinks_setRequest hk ?_ (.inl rfl)
      intro hr
      cases hr
    · refine shrinks_setRequest hk ?_ (.inl rfl)
      intro hw'
      exact absurd hw' hw
    · refine shrinks_setRequest hk ?_ (.inr ⟨rfl, id⟩)
      intro hw'
      exact ⟨hw', filter_sublist.subset⟩

theorem shrinks_emit (u : Nat) (ls : List Listener) : Shrinks s (s.emit u ls) := by
  induction ls generalizing s with
  | nil => exact .refl s
  | cons l ls ih =>
    cases l with
    | waiter t k =>
      refine Shrinks.trans (.trans (shrinks_setTx (s := s) (t := u) ?_ ?_)
        (shrinks_wake _ t k u)) (ih _)
      · rfl
      · rfl
    | other q once =>
      have hr : Shrinks s (if once then
          s.setTx u { s.tx u with listeners := (s.tx u).listeners.erase (.other q once) }
          else s) := by
        split_ifs
        · exact shrinks_setTx rfl rfl
        · exact .refl s
      cases q with
      | true => exact hr.trans (ih _)
      | false => exact hr

theorem shrinks_reset (t : Nat) : Shrinks s (s.reset t) := by
  have hr : Shrinks s (s.released t) :=
    (shrinks_releaseLocks s t (s.resourceSet (s.tx t).resources)).trans (shrinks_setTx rfl rfl)
  exact hr.trans (shrinks_emit ..)

end

/-! ### The graph has no cycle -/

structure Wired (s : System) : Prop where
  waiting : ∀ t k, (s.tx t).waitingOn = some k →
    ∃ request : Request, (s.tx t).requests[k]? = some request ∧ request.stage = .waiting
  others : ∀ (t k : Nat) (request : Request), (s.tx t).requests[k]? = some request →
    request.stage = .waiting → ∀ o ∈ request.others, o.1 < s.count
  locks : ∀ r u, s.lockedBy r = some u → u < s.count
  acyclic : Acyclic s.Waits

theorem initial_wired (c : Nat) (f : Nat → Nat) (i : Nat → Bool) : (initial c f i).Wired := by
  have hn : ∀ a b, ¬ (initial c f i).Waits a b := by
    intro a b h
    cases h
  refine ⟨fun _ _ h => (by cases h), fun _ _ _ h => (by cases h), fun _ _ h => (by cases h), ?_⟩
  intro a hc
  obtain ⟨b, he, -⟩ := TransGen.head'_iff.mp hc
  exact hn a b he

theorem Wired.of_shrinks (h : s.Wired) (hs : Shrinks s s') : s'.Wired := by
  refine ⟨?_, ?_, ?_, ?_⟩
  · intro t k hk
    obtain ⟨hd, hp⟩ := (hs.txs t).waitingOn k hk
    obtain ⟨e, hr, ht⟩ := h.waiting t k hd
    exact hp e hr ht
  · intro t k re' hk ht o ho
    obtain ⟨e, hr, hwas, hu⟩ := (hs.txs t).others k re' hk ht
    rw [hs.count]
    exact h.others t k e hr hwas o (hu ho)
  · intro r u hl
    rw [hs.count]
    rcases hs.locks r u hl with hd | hlt
    · exact h.locks r u hd
    · exact hlt
  · -- An edge of the new graph is one of the old graph.
    refine h.acyclic.mono ?_
    intro a b he
    obtain ⟨k, re', hk, hr', n, hm⟩ := waits_iff.mp he
    obtain ⟨hd, hp⟩ := (hs.txs a).waitingOn k hk
    obtain ⟨e, hr, ht⟩ := h.waiting a k hd
    obtain ⟨r'', hr'', hs''⟩ := hp e hr ht
    obtain rfl := mem_unique hr' hr''
    obtain ⟨re₁, hr₁, -, hu⟩ := (hs.txs a).others k re' hr' hs''
    exact waits_iff.mpr ⟨k, re₁, hd, hr₁, n, hu hm⟩

theorem Wired.waits_lt (h : s.Wired) (he : s.Waits t u) : u < s.count := by
  obtain ⟨k, e, hk, hr, n, hm⟩ := waits_iff.mp he
  obtain ⟨re', hr', hs⟩ := h.waiting t k hk
  obtain rfl := mem_unique hr hr'
  exact h.others t k e hr hs (u, n) hm

theorem mem_blockedBy : u ∈ s.blockedBy t rs ↔ u ≠ t ∧ ∃ r ∈ rs, s.lockedBy r = some u := by
  simp only [blockedBy, mem_dedup, mem_filterMap, filter_eq_some_iff, bne_iff_ne]
  constructor
  · rintro ⟨r, hr, hl, hn⟩
    exact ⟨hn, r, hr, hl⟩
  · rintro ⟨hn, r, hr, hl⟩
    exact ⟨r, hr, hl, hn⟩

/-- The search finds a deadlock exactly when one of the transactions that block leads back. -/
theorem Wired.detectDeadlock_iff (h : s.Wired) (t : Nat) (rs : List Nat) :
    s.detectDeadlock t (s.blockedBy t rs) ↔ ∃ b ∈ s.blockedBy t rs, ReflTransGen s.Waits b t := by
  have hc : ∀ v ∈ List.range s.count, (s.tx v).waitsFor ⊆ List.range s.count := by
    intro v _ u hu
    exact mem_range.mpr (h.waits_lt hu)
  have hn : s.blockedBy t rs ⊆ List.range s.count := by
    intro u hu
    obtain ⟨-, r, -, hl⟩ := mem_blockedBy.mp hu
    exact mem_range.mpr (h.locks r u hl)
  exact DepthFirst.search_iff hc hn (by rw [length_range]; omega)

theorem acquireLocks_deadlock_iff :
    s.acquireLocks t rs = .deadlock ↔ s.detectDeadlock t (s.blockedBy t rs) := by
  simp only [acquireLocks]
  split_ifs with hb hd
  · rw [hb]
    simp [detectDeadlock, DepthFirst.search]
  · simp [hd]
  all_goals simp [hd]

theorem acquireLocks_wait (h : s.acquireLocks t rs = .wait os) : os = s.blockedBy t rs ∧
    (s.tx t).waitingOn = none ∧ s.detectDeadlock t (s.blockedBy t rs) = false := by
  simp only [acquireLocks] at h
  split_ifs at h with hb hd ha hw
  refine ⟨(Outcome.wait.inj h).symm, ?_, ?_⟩
  · simpa using hw
  · simpa using hd

theorem waitFor_self (s : System) (t k : Nat) (rq : Request) (os : List Nat) :
    ((s.waitFor t k rq os).tx t).waitingOn = some k ∧
    ((s.waitFor t k rq os).tx t).requests = (s.tx t).requests.set k { rq with
      stage := .waiting
      others := os.map (fun u => (u, (s.tx u).resets)) } := by
  simp only [waitFor, update_self, true_and]
  split_ifs <;> rfl

theorem waitFor_of_ne (s : System) (k : Nat) (rq : Request) (os : List Nat)
    (hu : u ≠ t) : ((s.waitFor t k rq os).tx u).waitingOn = (s.tx u).waitingOn ∧
      ((s.waitFor t k rq os).tx u).requests = (s.tx u).requests := by
  simp only [waitFor, update_of_ne hu]
  split_ifs <;> exact ⟨rfl, rfl⟩

theorem Wired.waitFor (h : s.Wired) (hk : (s.tx t).requests[k]? = some rq)
    (hwait : s.acquireLocks t rq.resources = .wait os) : (s.waitFor t k rq os).Wired := by
  obtain ⟨rfl, hn, hd⟩ := acquireLocks_wait hwait
  have hlt := (List.getElem?_eq_some_iff.mp hk).1
  have hsl := waitFor_self s t k rq (s.blockedBy t rq.resources)
  have ht : ∀ {u}, u ≠ t → _ ∧ _ := fun {u} hu =>
    waitFor_of_ne s k rq (s.blockedBy t rq.resources) (u := u) hu
  refine ⟨?_, ?_, h.locks, ?_⟩
  · intro u i hi
    by_cases hu : u = t
    · subst hu
      rw [hsl.1] at hi
      cases hi
      rw [hsl.2]
      exact ⟨_, List.getElem?_set_self hlt, rfl⟩
    · rw [(ht hu).1] at hi
      rw [(ht hu).2]
      exact h.waiting u i hi
  · intro u i re' hi hs o ho
    by_cases hu : u = t
    · subst hu
      rw [hsl.2] at hi
      rcases getElem?_set_cases hi with ⟨-, rfl⟩ | ⟨-, hi⟩
      · obtain ⟨v, hv, rfl⟩ := mem_map.mp ho
        obtain ⟨-, r, -, hl⟩ := mem_blockedBy.mp hv
        exact h.locks r v hl
      · exact h.others u i re' hi hs o ho
    · rw [(ht hu).2] at hi
      exact h.others u i re' hi hs o ho
  · -- The new edges start from a transaction that the search has not come back to.
    have hp : ∀ b ∈ s.blockedBy t rq.resources, ¬ ReflTransGen s.Waits b t := by
      intro b hb hpt
      have hf := (h.detectDeadlock_iff t rq.resources).mpr ⟨b, hb, hpt⟩
      rw [hd] at hf
      cases hf
    refine (h.acyclic.addEdges hp).mono ?_
    intro a b he
    obtain ⟨i, re', hi, hr', n, hm⟩ := waits_iff.mp he
    by_cases ha : a = t
    · subst ha
      rw [hsl.1] at hi
      cases hi
      rw [hsl.2, List.getElem?_set_self hlt] at hr'
      cases hr'
      obtain ⟨v, hv, hq⟩ := mem_map.mp hm
      have hvb : v = b := congrArg Prod.fst hq
      exact .inr ⟨rfl, hvb ▸ hv⟩
    · rw [(ht ha).1] at hi
      rw [(ht ha).2] at hr'
      exact .inl (waits_iff.mpr ⟨i, re', hi, hr', n, hm⟩)

theorem Wired.change (h : s.Wired) (ht : t < s.count) (hc : Change q t s s') : s'.Wired := by
  cases hc with
  | own st e pr => exact h.of_shrinks (shrinks_setTx rfl rfl)
  | takeLocks hfree => exact h.of_shrinks (shrinks_takeLocks s ht _)
  | addRequest hs =>
    refine h.of_shrinks (shrinks_addRequest rfl rfl ?_)
    rw [hs]
    decide
  | setRequest hk hwas hs hw =>
    refine h.of_shrinks (shrinks_setRequest hk (fun he => absurd he hs) ?_)
    rcases hw with hn | hm
    · exact .inl hn
    · exact .inr ⟨hm, fun he => absurd he hwas⟩
  | waitFor hk hs hwait => exact h.waitFor hk hwait
  | reset => exact h.of_shrinks (shrinks_reset s t)
  | listen once => exact h.of_shrinks (shrinks_setTx rfl rfl)

theorem Change.count (hc : Change q t s s') : s'.count = s.count := by
  cases hc with
  | reset => exact (shrinks_reset s t).count
  | _ => rfl

theorem Wired.changes (h : s.Wired) (ht : t < s.count) (hh : Changes q t s s') : s'.Wired := by
  have hb : s'.Wired ∧ s'.count = s.count := by
    induction hh with
    | refl => exact ⟨h, rfl⟩
    | tail _ hc ih =>
      refine ⟨ih.1.change ?_ hc, hc.count.trans ih.2⟩
      rw [ih.2]
      exact ht
  exact hb.1

variable {i : Nat → Bool} {f : Nat → Nat}

theorem run_wired {c : Nat} {e : List TxEvent} (hu : Run step (initial c f i) e s) : s.Wired := by
  refine run_invariant (I := Wired) ?_ hu (initial_wired c f i)
  intro s event s' hs h
  unfold step at hs
  split_ifs at hs with ht
  exact h.changes ht (act_changes hs)

/-! ### Edges go when the transaction returns to shared -/

theorem wake_keeps (tx : Tx) (k o : Nat) :
    (tx.wake k o).listeners = tx.listeners ∧ (tx.wake k o).resets = tx.resets := by
  unfold Tx.wake
  split
  · dsimp only
    split_ifs <;> exact ⟨rfl, rfl⟩
  · exact ⟨rfl, rfl⟩

/-- The requests wait for fewer transactions, and the one that is woken not for the other. -/
theorem wake_others {ot i : Nat} (hi : (tx.wake k ot).requests[i]? = some r') : ∃ rq,
    tx.requests[i]? = some rq ∧ r'.others ⊆ rq.others ∧ (i = k → ∀ o ∈ r'.others, o.1 ≠ ot) := by
  cases hk : tx.requests[k]? with
  | none =>
    simp only [Tx.wake, hk] at hi
    refine ⟨r', hi, List.Subset.refl _, ?_⟩
    rintro rfl
    rw [hk] at hi
    cases hi
  | some rq =>
    have hr : ∃ r'', (tx.wake k ot).requests = tx.requests.set k r'' ∧
        r''.others = rq.others.filter (·.1 != ot) := by
      simp only [Tx.wake, hk]
      split_ifs
      · exact ⟨_, rfl, rfl⟩
      · exact ⟨_, rfl, rfl⟩
      · exact ⟨_, rfl, rfl⟩
    obtain ⟨r'', hs, ht⟩ := hr
    rw [hs] at hi
    rcases getElem?_set_cases hi with ⟨rfl, rfl⟩ | ⟨hik, hi⟩
    · refine ⟨rq, hk, ?_, ?_⟩
      · rw [ht]
        exact filter_sublist.subset
      · intro _ o ho
        rw [ht] at ho
        simpa using (mem_filter.mp ho).2
    · exact ⟨r', hi, List.Subset.refl _, fun he => absurd he hik⟩

/-- What the emission for `u` leaves alone. -/
structure Emission (u : Nat) (s s' : System) : Prop where
  listeners : ∀ v, v ≠ u → (s'.tx v).listeners = (s.tx v).listeners
  fewer : (s'.tx u).listeners ⊆ (s.tx u).listeners
  resets : ∀ v, (s'.tx v).resets = (s.tx v).resets
  others : ∀ (t k : Nat) (request' : Request), (s'.tx t).requests[k]? = some request' →
    ∃ request, (s.tx t).requests[k]? = some request ∧ request'.others ⊆ request.others

theorem Emission.refl (u : Nat) (s : System) : Emission u s s :=
  ⟨fun _ _ => rfl, List.Subset.refl _, fun _ => rfl, fun _ _ r' h => ⟨r', h, List.Subset.refl _⟩⟩

theorem Emission.trans (h : Emission u s s') (h' : Emission u s' s'') : Emission u s s'' := by
  refine ⟨?_, List.Subset.trans h'.fewer h.fewer, ?_, ?_⟩
  · intro v hv
    exact (h'.listeners v hv).trans (h.listeners v hv)
  · intro v
    exact (h'.resets v).trans (h.resets v)
  · intro t k r'' hk
    obtain ⟨re', hk', hs'⟩ := h'.others t k r'' hk
    obtain ⟨e, hk, hs⟩ := h.others t k re' hk'
    exact ⟨e, hk, List.Subset.trans hs' hs⟩

section

variable (s)

theorem emission_remove (u : Nat) (l : Listener) :
    Emission u s (s.setTx u { s.tx u with listeners := (s.tx u).listeners.erase l }) := by
  refine ⟨?_, ?_, forall_setTx (P := fun v tx => tx.resets = (s.tx v).resets) rfl (fun _ => rfl),
    ?_⟩
  · intro v hv
    rw [setTx_of_ne s hv]
  · rw [setTx_self]
    exact erase_subset
  · intro t k re' hk
    refine ⟨re', ?_, List.Subset.refl _⟩
    by_cases ht : t = u
    · rw [ht, setTx_self] at hk
      rw [ht]
      exact hk
    · rwa [setTx_of_ne s ht] at hk

theorem emission_wake (t k u : Nat) : Emission u s (s.setTx t ((s.tx t).wake k u)) := by
  have he := forall_setTx (s := s) (t := t)
    (P := fun v tx => tx.listeners = (s.tx v).listeners ∧ tx.resets = (s.tx v).resets)
    (wake_keeps (s.tx t) k u) (fun _ => ⟨rfl, rfl⟩)
  refine ⟨fun v _ => (he v).1, ?_, fun v => (he v).2, ?_⟩
  · rw [(he u).1]
    exact List.Subset.refl _
  · intro v i re' hi
    by_cases hv : v = t
    · rw [hv, setTx_self] at hi
      obtain ⟨e, hr, hs, -⟩ := wake_others hi
      exact ⟨e, hv ▸ hr, hs⟩
    · rw [setTx_of_ne s hv] at hi
      exact ⟨re', hi, List.Subset.refl _⟩

theorem emission_emit (u : Nat) (ls : List Listener) : Emission u s (s.emit u ls) := by
  induction ls generalizing s with
  | nil => exact .refl u s
  | cons l ls ih =>
    cases l with
    | waiter t k =>
      exact ((emission_remove s u (.waiter t k)).trans (emission_wake _ t k u)).trans (ih _)
    | other q once =>
      have hr : Emission u s (if once then
          s.setTx u { s.tx u with listeners := (s.tx u).listeners.erase (.other q once) }
          else s) := by
        split_ifs
        · exact emission_remove ..
        · exact .refl u s
      cases q with
      | true => exact hr.trans (ih _)
      | false => exact hr

/-- Where no listener ends the emission, every waiter hears of it. -/
theorem emit_clears (u : Nat) {ls : List Listener}
    (hqt : ∀ l ∈ ls, l.isQuiet) (hm : .waiter t k ∈ ls)
    (hk : ((s.emit u ls).tx t).requests[k]? = some r') : ∀ o ∈ r'.others, o.1 ≠ u := by
  induction ls generalizing s with
  | nil => cases hm
  | cons i ls ih =>
    have hq' : ∀ l ∈ ls, l.isQuiet :=
      fun l hl => hqt l (mem_cons_of_mem _ hl)
    by_cases hh : i = .waiter t k
    · -- This is the turn of the waiter; later on its request only waits for less.
      subst hh
      obtain ⟨e, hr, hs⟩ := (emission_emit _ u ls).others t k r' hk
      rw [setTx_self] at hr
      obtain ⟨-, -, -, hc⟩ := wake_others hr
      intro o ho
      exact hc rfl o (hs ho)
    · have ht : .waiter t k ∈ ls := by
        rcases mem_cons.mp hm with he | ht
        · exact absurd he.symm hh
        · exact ht
      cases i with
      | waiter t' k' => exact ih _ hq' ht hk
      | other q once =>
        have hq : q := hqt (.other q once) (mem_cons_self ..)
        subst hq
        exact ih _ hq' ht hk

end

/-- Who waits is a listener of the transactions it waits for, which have locks and have not been
reset since. -/
structure Linked (s : System) : Prop where
  linked : ∀ (t k : Nat) (request : Request), (s.tx t).requests[k]? = some request →
    request.stage = .waiting → ∀ o ∈ request.others,
      .waiter t k ∈ (s.tx o.1).listeners ∧ (s.tx o.1).resets = o.2 ∧ ∃ r, s.lockedBy r = some o.1
  quiet : ∀ u, ∀ l ∈ (s.tx u).listeners, l.isQuiet

theorem initial_linked (c : Nat) (f : Nat → Nat) (i : Nat → Bool) : (initial c f i).Linked :=
  ⟨fun _ _ _ h => (by cases h), fun _ _ h => (by cases h)⟩

section
variable (h : s.Linked)
include h

theorem Linked.of_shrinks (hs : Shrinks s s') (hls : ∀ u, (s.tx u).listeners ⊆ (s'.tx u).listeners)
    (hqt : ∀ u, ∀ l ∈ (s'.tx u).listeners, l ∈ (s.tx u).listeners ∨ l.isQuiet)
    (hrs : ∀ u, (s'.tx u).resets = (s.tx u).resets)
    (hlo : ∀ r u, s.lockedBy r = some u → s'.lockedBy r = some u) : s'.Linked := by
  refine ⟨?_, ?_⟩
  · intro t k re' hk ht o ho
    obtain ⟨e, hr, hwas, hu⟩ := (hs.txs t).others k re' hk ht
    obtain ⟨hi, he, r, hc⟩ := h.linked t k e hr hwas o (hu ho)
    exact ⟨hls o.1 hi, (hrs o.1).trans he, r, hlo r o.1 hc⟩
  · intro u l hl
    rcases hqt u l hl with hd | hq
    · exact h.quiet u l hd
    · exact hq

/-- A transaction that keeps its listeners. -/
theorem Linked.setTx (hs : Shrinks s (s.setTx t tx)) (hls : tx.listeners = (s.tx t).listeners)
    (hr : tx.resets = (s.tx t).resets) : (s.setTx t tx).Linked := by
  have hm := forall_setTx (s := s)
    (P := fun u tx => tx.listeners = (s.tx u).listeners ∧ tx.resets = (s.tx u).resets)
    ⟨hls, hr⟩ (fun _ => ⟨rfl, rfl⟩)
  refine h.of_shrinks hs ?_ ?_ (fun u => (hm u).2) (fun _ _ hc => hc)
  · intro u
    rw [(hm u).1]
    exact List.Subset.refl _
  · intro u l hl
    rw [(hm u).1] at hl
    exact .inl hl

theorem Linked.takeLocks (ht : t < s.count)
    (hfree : s.lockableSync t rs) : (s.takeLocks t rs).Linked := by
  refine h.of_shrinks (shrinks_takeLocks s ht rs) (fun _ => List.Subset.refl _)
    (fun _ _ hl => .inl hl) (fun _ => rfl) ?_
  intro r u hc
  by_cases hu : u = t
  · rw [hu] at hc ⊢
    rw [takeLocks_lockedBy, hc]
    split_ifs <;> rfl
  · exact ((frame_takeLocks hfree).locks r u hu).mpr hc

theorem Linked.listen (once : Bool) :
    (s.setTx t { s.tx t with
      listeners := (s.tx t).listeners ++ [.other true once] }).Linked := by
  refine h.of_shrinks (shrinks_setTx rfl rfl) ?_ ?_ ?_ (fun _ _ hc => hc)
  · exact forall_setTx (P := fun u tx => (s.tx u).listeners ⊆ tx.listeners)
      (subset_append_left _ _) (fun _ => List.Subset.refl _)
  · refine forall_setTx (P := fun u tx => ∀ l ∈ tx.listeners, l ∈ (s.tx u).listeners ∨
      l.isQuiet) ?_ (fun _ _ hl => .inl hl)
    intro l hl
    rcases mem_concat_cases hl with ho | rfl
    · exact .inl ho
    · exact .inr rfl
  · exact forall_setTx (P := fun u tx => tx.resets = (s.tx u).resets) rfl (fun _ => rfl)

end

theorem waitFor_listeners (s : System) (t k : Nat) (rq : Request) (os : List Nat)
    (u : Nat) : ((s.waitFor t k rq os).tx u).listeners
      = if u ∈ os ∧ (s.tx u).status ≠ .readOnly then (s.tx u).listeners ++ [.waiter t k]
        else (s.tx u).listeners := by
  by_cases hu : u = t
  · subst hu
    simp only [waitFor, update_self]
    split_ifs <;> rfl
  · simp only [waitFor, update_of_ne hu]
    split_ifs <;> rfl

theorem waitFor_resets (s : System) (t k : Nat) (rq : Request) (os : List Nat)
    (u : Nat) : ((s.waitFor t k rq os).tx u).resets = (s.tx u).resets := by
  by_cases hu : u = t
  · subst hu
    simp only [waitFor, update_self]
    split_ifs <;> rfl
  · simp only [waitFor, update_of_ne hu]
    split_ifs <;> rfl

section
variable (h : s.Linked)
include h

/-- A transaction that may only read has no locks, so that the others can be listened to. -/
theorem Linked.waitFor (hr : ∀ r u, u ≠ t → s.lockedBy r = some u → (s.tx u).status ≠ .readOnly)
    (hwait : s.acquireLocks t rq.resources = .wait os) : (s.waitFor t k rq os).Linked := by
  obtain ⟨rfl, -, -⟩ := acquireLocks_wait hwait
  have hp : ∀ u, (s.tx u).listeners
      ⊆ ((s.waitFor t k rq (s.blockedBy t rq.resources)).tx u).listeners := by
    intro u
    rw [waitFor_listeners]
    split_ifs
    · exact subset_append_left _ _
    · exact List.Subset.refl _
  have hd : ∀ (u i : Nat) (re' : Request), (s.tx u).requests[i]? = some re' →
      re'.stage = .waiting → ∀ o ∈ re'.others,
        .waiter u i ∈ ((s.waitFor t k rq (s.blockedBy t rq.resources)).tx o.1).listeners ∧
        ((s.waitFor t k rq (s.blockedBy t rq.resources)).tx o.1).resets = o.2 ∧
        ∃ r, s.lockedBy r = some o.1 := by
    intro u i re' hi hs o ho
    obtain ⟨hls, hrs, hc⟩ := h.linked u i re' hi hs o ho
    rw [waitFor_resets]
    exact ⟨hp o.1 hls, hrs, hc⟩
  refine ⟨?_, ?_⟩
  · intro u i re' hi hs o ho
    by_cases hu : u = t
    · subst hu
      rw [(waitFor_self ..).2] at hi
      rcases getElem?_set_cases hi with ⟨hik, rfl⟩ | ⟨-, hi⟩
      · obtain ⟨v, hv, rfl⟩ := mem_map.mp ho
        obtain ⟨hn, r, -, hc⟩ := mem_blockedBy.mp hv
        rw [waitFor_listeners, waitFor_resets, if_pos ⟨hv, hr r v hn hc⟩]
        refine ⟨?_, rfl, r, hc⟩
        rw [hik]
        exact mem_append_right _ (mem_singleton_self _)
      · exact hd u i re' hi hs o ho
    · rw [(waitFor_of_ne s k rq _ hu).2] at hi
      exact hd u i re' hi hs o ho
  · intro u l hl
    rw [waitFor_listeners] at hl
    split_ifs at hl
    · rcases mem_concat_cases hl with hd | rfl
      · exact h.quiet u l hd
      · rfl
    · exact h.quiet u l hl

theorem Linked.reset (u : Nat) : (s.reset u).Linked := by
  have hs := shrinks_reset s u
  have he : Emission u (s.released u) (s.reset u) := by
    exact emission_emit ..
  refine ⟨?_, ?_⟩
  · intro t k re' hk hst o ho
    obtain ⟨e, hr, hwas, hu⟩ := (hs.txs t).others k re' hk hst
    obtain ⟨hls, hrs, r, hc⟩ := h.linked t k e hr hwas o (hu ho)
    have hn : o.1 ≠ u := by
      intro hq
      rw [hq] at hls
      rw [reset_eq] at hk
      exact emit_clears (s.released u) u (h.quiet u) hls hk o ho hq
    have ht : (s.released u).tx o.1 = s.tx o.1 := setTx_of_ne _ hn _
    refine ⟨?_, ?_, r, ?_⟩
    · rw [he.listeners o.1 hn, ht]
      exact hls
    · rw [he.resets, ht]
      exact hrs
    · exact ((frame_reset s u).locks r o.1 hn).mpr hc
  · intro v l hl
    by_cases hv : v = u
    · subst hv
      have hl' := he.fewer hl
      rw [released, setTx_self] at hl'
      exact h.quiet v l hl'
    · rw [he.listeners v hv, released, setTx_of_ne _ hv] at hl
      exact h.quiet v l hl

theorem Linked.change (ht : t < s.count) (hr : ∀ r u, u ≠ t → s.lockedBy r = some u →
    (s.tx u).status ≠ .readOnly) (hc : Change true t s s') : s'.Linked := by
  cases hc with
  | own status e pr => exact h.setTx (shrinks_setTx rfl rfl) rfl rfl
  | takeLocks hfree => exact h.takeLocks ht hfree
  | addRequest hs =>
    refine h.setTx (shrinks_addRequest rfl rfl ?_) rfl rfl
    rw [hs]
    decide
  | setRequest hk hwas hs hw =>
    refine h.setTx (shrinks_setRequest hk (fun he => absurd he hs) ?_) rfl rfl
    rcases hw with hn | hm
    · exact .inl hn
    · exact .inr ⟨hm, fun he => absurd he hwas⟩
  | waitFor hk hs hwait => exact h.waitFor hr hwait
  | reset => exact h.reset t
  | listen once => exact h.listen once

/-- The locks of the others and their status stay as they are throughout a step. -/
theorem Linked.changes (ht : t < s.count) (hr : ∀ r u, u ≠ t → s.lockedBy r = some u →
    (s.tx u).status ≠ .readOnly) (hh : Changes true t s s') : s'.Linked := by
  have hb : s'.Linked ∧ s'.count = s.count ∧ Frame s s' t := by
    induction hh with
    | refl => exact ⟨h, rfl, .refl s t⟩
    | @tail s₁ s₂ _ hc ih =>
      obtain ⟨hl, hn, hf⟩ := ih
      refine ⟨hl.change ?_ ?_ hc, hc.count.trans hn, hf.trans hc.frame⟩
      · rw [hn]
        exact ht
      · intro r u hu hlc
        have hs : (s₁.tx u).status = (s.tx u).status :=
          congrArg View.status (hf.views u hu)
        rw [hs]
        exact hr r u hu ((hf.locks r u hu).mp hlc)
  exact hb.1

end

/-! ### The result -/

/-- Orderly use, with listeners that return nothing. -/
def undisturbed (s : System) (event : TxEvent) : Bool := s.orderly event && event.quiet

theorem run_linked {c : Nat} {es : List TxEvent}
    (hu : Run (guarded step (·.undisturbed ·)) (initial c f i) es s) :
    s.Sound ∧ s.Linked := by
  refine guarded_invariant (I := fun s => s.Sound ∧ s.Linked) ?_ hu
    ⟨initial_sound c f i, initial_linked c f i⟩
  rintro s e s' hg ha ⟨hs, hl⟩
  obtain ⟨ho, hq⟩ := (Bool.and_eq_true _ _).mp hg
  unfold step at ha
  split_ifs at ha with ht
  have hc := act_changes ha
  rw [hq] at hc
  refine ⟨hs.act ho ha, hl.changes ht ?_ hc⟩
  intro r u _ hlc hst
  exact hs.not_locked (View.not_holds_of_status (.inr (.inl hst))) r hlc

/-- The graph has no cycle, and a deadlock is reported exactly when the edges of the caller would
close one. In undisturbed use, an edge leads to a transaction that has not been reset since, and
that is shared only where its reset is still to come. -/
theorem waitGraph_acyclic {count : Nat} {reference : Nat → Nat} {isReadOnly : Nat → Bool}
    {events : List TxEvent} (hrun : Run step (initial count reference isReadOnly) events s) :
    Acyclic s.Waits ∧
    (∀ t resources, s.acquireLocks t resources = .deadlock ↔
      ∃ a, TransGen (addEdges s.Waits t (s.blockedBy t resources)) a a) ∧
    (Run (guarded step (·.undisturbed ·)) (initial count reference isReadOnly) events s →
      ∀ (t k : Nat) (request : Request), (s.tx t).waitingOn = some k →
        (s.tx t).requests[k]? = some request → ∀ o ∈ request.others,
        (s.tx o.1).resets = o.2 ∧
        ((s.tx o.1).status = .shared →
          ∃ p ∈ (s.tx o.1).processes, ∃ committed, p.pc = .resetting committed)) := by
  have hw := run_wired hrun
  refine ⟨hw.acyclic, ?_, ?_⟩
  · intro t resources
    rw [acquireLocks_deadlock_iff, hw.detectDeadlock_iff, addEdges_cycle_iff hw.acyclic]
  · intro hu t k request hk hr o ho
    obtain ⟨hn, hl⟩ := run_linked hu
    obtain ⟨re', hr', ht⟩ := hw.waiting t k hk
    obtain rfl := mem_unique hr hr'
    obtain ⟨-, hrs, r, hlc⟩ := hl.linked t k request hr ht o ho
    refine ⟨hrs, ?_⟩
    intro hs
    by_contra hnn
    refine hn.not_locked (View.not_holds_of_shared hs ?_) r hlc
    intro p hp committed hc
    exact hnn ⟨p, hp, committed, hc⟩

/-- Two transactions have a lock each, and one asks for that of the other. -/
def crossed : List TxEvent :=
  [.addResourcesSync 0 [7], .beginSync 0, .addResourcesSync 1 [8], .beginSync 1,
    .addResources 1 [7]]

theorem waitGraph_acyclic_crossed :
    ∃ s, exec step (initial 2 id (fun _ => false)) crossed = some s ∧
    s.Waits 1 0 ∧ Acyclic s.Waits ∧ s.acquireLocks 0 [8] = .deadlock ∧
    (∃ a, TransGen (addEdges s.Waits 0 (s.blockedBy 0 [8])) a a) ∧
    (∃ request : Request, (s.tx 1).requests[0]? = some request ∧
      ∀ o ∈ request.others, (s.tx o.1).resets = o.2) := by
  obtain ⟨s, hx, hg, he, hd, hw, request, hr⟩ : ∃ s,
      exec step (initial 2 id (fun _ => false)) crossed = some s ∧
      exec (guarded step (·.undisturbed ·)) (initial 2 id (fun _ => false)) crossed = some s ∧
      s.Waits 1 0 ∧ s.acquireLocks 0 [8] = .deadlock ∧ (s.tx 1).waitingOn = some 0 ∧
      ∃ request, (s.tx 1).requests[0]? = some request :=
    ⟨_, rfl, rfl, by unfold Waits; decide, by decide, by decide, _, rfl⟩
  obtain ⟨ha, hi, hf⟩ := waitGraph_acyclic (run_of_exec hx)
  refine ⟨s, hx, he, ha, hd, (hi 0 [8]).mp hd, request, hr, ?_⟩
  intro o ho
  exact (hf (run_of_exec hg) 1 0 request hw hr o ho).1

/-- A listener returns something before the turn of the waiter. The edge is still there when the
other transaction has been rolled back and is shared, with nothing in progress. -/
theorem waitGraph_stale : ∃ s, exec step (initial 2 id (fun _ => false))
      [.addResourcesSync 0 [7], .beginSync 0, .onShared 0 false true, .addResourcesSync 1 [7],
        .begin 1, .rollback 0, .proceed 0 0 true false, .proceed 0 0 true false,
        .proceed 0 0 true false] = some s ∧
    s.Waits 1 0 ∧ (s.tx 0).status = .shared ∧ (s.tx 0).view.quiescent = true ∧
    (s.tx 0).resets = 1 ∧ s.lockedBy 7 = none ∧ (s.tx 1).requests.map (·.others) = [[(0, 0)]] :=
  ⟨_, rfl, by unfold Waits; decide, by decide, by decide, by decide, by decide, by decide⟩

/-- No wake-up is lost. In undisturbed use, a request that waits is a listener of every transaction
it waits for, and each of them has a lock to release. -/
theorem waiter_is_listener {count : Nat} {events : List TxEvent}
    (hrun : Run (guarded step (·.undisturbed ·)) (initial count f i) events s)
    {t k : Nat} {request : Request} (hr : (s.tx t).requests[k]? = some request)
    (hw : request.stage = .waiting) : ∀ o ∈ request.others,
      .waiter t k ∈ (s.tx o.1).listeners ∧ ∃ r, s.lockedBy r = some o.1 := by
  intro o ho
  obtain ⟨hl, -, hr⟩ := (run_linked hrun).2.linked t k request hr hw o ho
  exact ⟨hl, hr⟩

theorem waiter_is_listener_one : ∃ s, exec (guarded step (·.undisturbed ·))
      (initial 2 id (fun _ => false))
      [.addResourcesSync 0 [7], .beginSync 0, .addResourcesSync 1 [7], .begin 1] = some s ∧
    .waiter 1 0 ∈ (s.tx 0).listeners := by
  refine exec_and_of_run (P := fun s => ∃ request : Request,
    (s.tx 1).requests[0]? = some request ∧ request.stage = .waiting ∧ (0, 0) ∈ request.others)
    ⟨_, rfl, _, rfl, rfl, .head _⟩ ?_
  rintro s hu ⟨request, hr, hw, ho⟩
  exact (waiter_is_listener hu hr hw _ ho).1

end System

end MatterJs.Transaction
