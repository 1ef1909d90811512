import MatterJs.Commissioning.FailsafeContext

/-! The outcome of a failsafe context: it is commissioned or rolled back, never both. -/
namespace MatterJs.Failsafe

open TransitionSystem IndexedList List Option

/-- The effects that settle what becomes of the context. -/
def Effect.decides : Effect → Bool
  | .persisted | .commissioned | .rolledBack => true
  | .removedFabric | .restoredFabric => false

/-- Nothing is removed or restored after the fabrics were persisted. -/
def Kept (effects : List Effect) : Prop :=
  ∀ before after, effects = before ++ .persisted :: after →
    .removedFabric ∉ after ∧ .restoredFabric ∉ after

variable {es : List Effect}

theorem kept_of_not_persisted (h : .persisted ∉ es) : Kept es := by
  intro b after he
  exact absurd (he ▸ by simp) h

/-- An effect may follow if it removes nothing, or if nothing was persisted before it. -/
theorem Kept.append {e : Effect} (h : Kept es)
    (he : e.decides ∨ .persisted ∉ es) : Kept (es ++ [e]) := by
  intro b after hq
  rcases eq_nil_or_concat after with rfl | ⟨rest, last, rfl⟩
  · simp
  · rw [concat_eq_append, ← cons_append, ← append_assoc] at hq
    obtain ⟨hi, hl⟩ := append_inj' hq rfl
    obtain rfl : e = last := by simpa using hl
    have hs := h b rest hi
    rcases he with hd | hn
    · cases e <;> simp_all [Effect.decides]
    · exact absurd (hi ▸ by simp) hn

namespace Context

variable (s : Context)

/-- A call of `completeCommission` is storing the fabrics, and the timer is still there. -/
def persisting : Bool :=
  s.failsafe.isSome && s.completions.contains .persisting

/-- The fabrics are being stored, or were stored. -/
def settled : Bool :=
  s.completions.contains .persisting || s.effects.contains .persisted

/-- An AddNOC or UpdateNOC has put its fabric into the fabric manager and has not returned. -/
def installed : Bool :=
  s.noc == some .added || s.noc == some .replaced

/-- The calls come in an order in which none of them finds another one half done:
`completeCommission` neither during the teardown nor while a command may still undo its fabric,
the teardown not while the fabrics are being stored, no installation after that. -/
def orderly : Event → Bool
  | .completeCommission => s.lifecycle != .destroying && !s.installed
  | .close => s.lifecycle != .active || !s.persisting
  | .constructed => s.waiting == 0 || !s.persisting
  | .install => !s.settled
  | _ => true

variable {s} {t : Context} {d : Destruction}

theorem persisting_eq_false :
    s.persisting = false ↔ (s.failsafe.isSome → .persisting ∉ s.completions) := by
  simp [persisting]

/-- What keeps the outcome exclusive. -/
structure Exclusive (s : Context) : Prop where
  undecided : s.failsafe.isSome → ∀ e ∈ s.effects, e.decides = false
  unarmed : s.lifecycle = .constructing →
    s.failsafe = none ∧ s.completions = [] ∧ ∀ e ∈ s.effects, e.decides = false
  stopping : s.destruction = some .stopping →
    s.lifecycle = .destroying ∧ s.failsafe.isSome ∧ .persisting ∉ s.completions
  rolling : ∀ d, s.destruction = some d → d ≠ .stopping → .rolledBack ∈ s.effects
  rolledBack : .rolledBack ∈ s.effects → s.failsafe = none ∧ .persisting ∉ s.completions ∧
      .commissioned ∉ s.effects ∧ .persisted ∉ s.effects
  once : s.effects.count .rolledBack ≤ 1
  completing : ∀ timer, s.failsafe = some timer → .persisting ∈ s.completions → timer.completed
  completed : ∀ c ∈ s.completions, c ≠ .persisting → s.failsafe = none
  undoable : s.installed → .persisting ∉ s.completions ∧ .persisted ∉ s.effects
  kept : Kept s.effects

theorem exclusive_new (f : Option Nat) : Exclusive (new f) where
  undecided := by simp [new]
  unarmed := by simp [new]
  stopping := by simp [new]
  rolling := by simp [new]
  rolledBack := by simp [new]
  once := by simp [new]
  completing := by simp [new]
  completed := by simp [new]
  undoable := by simp [new, installed]
  kept := kept_of_not_persisted (by simp [new])

namespace Exclusive

section
variable (h : Exclusive s)
include h

/-- The construction ends, or a call of `completeCommission` ends or goes on without storing
anything. -/
theorem progress (hl : t.lifecycle = s.lifecycle ∨ t.lifecycle ≠ .constructing ∧
    s.lifecycle ≠ .destroying) (hf : t.failsafe.map (·.completed) = s.failsafe.map (·.completed))
    (hd : t.destruction = s.destruction) (hcm : ∀ c ∈ t.completions, c ∈ s.completions ∨
    c ≠ .persisting ∧ ∃ c' ∈ s.completions, c' ≠ .persisting) (he : t.effects = s.effects)
    (hnoc : t.installed → s.installed) : Exclusive t := by
  have hsm : t.failsafe.isSome = s.failsafe.isSome := by
    simpa using congrArg Option.isSome hf
  have hnn : t.failsafe = none ↔ s.failsafe = none := by
    rw [← not_isSome_iff_eq_none, ← not_isSome_iff_eq_none, hsm]
  have hp : .persisting ∈ t.completions → .persisting ∈ s.completions := by
    intro hm
    rcases hcm _ hm with ho | ⟨hne, -⟩
    · exact ho
    · exact absurd rfl hne
  constructor
  · rw [hsm, he]
    exact h.undecided
  · intro hcn
    rcases hl with hsa | ⟨hne, -⟩
    · obtain ⟨hu, hem, heff⟩ := h.unarmed (hsa ▸ hcn)
      refine ⟨hnn.mpr hu, ?_, he ▸ heff⟩
      apply eq_nil_iff_forall_not_mem.mpr
      intro c hc
      rcases hcm c hc with ho | ⟨-, c', ho, -⟩
      · simp [hem] at ho
      · simp [hem] at ho
    · exact absurd hcn hne
  · intro hs
    obtain ⟨hds, ha, hn⟩ := h.stopping (hd ▸ hs)
    refine ⟨?_, hsm.trans ha, fun hm => hn (hp hm)⟩
    rcases hl with hsa | ⟨-, hne⟩
    · exact hsa.trans hds
    · exact absurd hds hne
  · rw [hd, he]
    exact h.rolling
  · rw [he, hnn]
    intro hr
    obtain ⟨hu, hn, hrs⟩ := h.rolledBack hr
    exact ⟨hu, fun hm => hn (hp hm), hrs⟩
  · rw [he]
    exact h.once
  · intro timer ht hm
    rw [ht, map_some] at hf
    obtain ⟨o, ho, hco⟩ := map_eq_some_iff.mp hf.symm
    rw [← hco]
    exact h.completing o ho (hp hm)
  · intro c hc hne
    rw [hnn]
    rcases hcm c hc with ho | ⟨-, c', ho, hne'⟩
    · exact h.completed c ho hne
    · exact h.completed c' ho hne'
  · intro hi
    obtain ⟨hn, hpr⟩ := h.undoable (hnoc hi)
    exact ⟨fun hm => hn (hp hm), he ▸ hpr⟩
  · rw [he]
    exact h.kept

/-- The parts of the context that the exclusivity rests on are the same. -/
theorem congr (hl : t.lifecycle = s.lifecycle)
    (hf : t.failsafe.map (·.completed) = s.failsafe.map (·.completed))
    (hd : t.destruction = s.destruction) (hm : t.completions = s.completions)
    (he : t.effects = s.effects) (hn : t.installed → s.installed) : Exclusive t :=
  h.progress (.inl hl) hf hd (fun _ hc => .inl (hm ▸ hc))
    he hn

/-- Removing or restoring a fabric is harmless as long as none was persisted. -/
theorem undo_note {ee : Effect}
    (hf : ee.decides = false) (hp : .persisted ∉ s.effects) : Exclusive (s.note ee) := by
  have hm : ∀ e, e.decides → (e ∈ s.effects ++ [ee] ↔ e ∈ s.effects) := by
    intro e he
    have hn : e ≠ ee := by
      rintro rfl
      simp [hf] at he
    simp [hn]
  have ha : (∀ e ∈ s.effects, e.decides = false) → ∀ e ∈ s.effects ++ [ee], e.decides = false := by
    intro ho e he
    rcases mem_concat_cases he with he | rfl
    · exact ho e he
    · exact hf
  constructor
  · intro hs
    exact ha (h.undecided hs)
  · intro hc
    obtain ⟨hnn, hem, ho⟩ := h.unarmed hc
    exact ⟨hnn, hem, ha ho⟩
  · exact h.stopping
  · intro d hd hn
    exact mem_append_left _ (h.rolling d hd hn)
  · intro hr
    simp only [note, hm _ (rfl : Effect.rolledBack.decides)] at hr
    obtain ⟨hnn, ht, hcm, -⟩ := h.rolledBack hr
    refine ⟨hnn, ht, ?_, ?_⟩
    · simpa [note, hm _ (rfl : Effect.commissioned.decides)] using hcm
    · simpa [note, hm _ (rfl : Effect.persisted.decides)] using hp
  · have hn : ee ≠ .rolledBack := by
      rintro rfl
      simp [Effect.decides] at hf
    simpa [note, hn] using h.once
  · exact h.completing
  · exact h.completed
  · intro hi
    refine ⟨(h.undoable hi).1, ?_⟩
    simpa only [note, hm _ (rfl : Effect.persisted.decides)] using hp
  · exact h.kept.append (.inr hp)

theorem beginDestruction (hq : s.failsafe.isSome → .persisting ∉ s.completions)
    (hl : s.lifecycle ≠ .destroying) : Exclusive s.beginDestruction := by
  unfold Context.beginDestruction
  cases hf : s.failsafe with
  | none =>
    exact h.progress (.inr ⟨by simp, hl⟩) (by rw [hf]) rfl
      (fun c hc => .inl hc) rfl id
  | some timer =>
    have hs : s.failsafe.isSome := by simp [hf]
    have hd := h.undecided hs
    exact {
      undecided := fun _ => hd
      unarmed := by simp
      stopping := fun _ => ⟨rfl, rfl, hq hs⟩
      rolling := by simp
      rolledBack := fun hr => absurd (hd _ hr) (by simp [Effect.decides])
      once := h.once
      completing := fun _ _ hm => absurd hm (hq hs)
      completed := by
        intro c hc hn
        simp [h.completed c hc hn] at hf
      undoable := h.undoable
      kept := h.kept }

theorem construct (hq : s.waiting = 0 ∨ (s.failsafe.isSome → .persisting ∉ s.completions))
    (hl : s.lifecycle ≠ .destroying) : Exclusive s.construct := by
  unfold Context.construct
  split
  · exact h.progress (.inr ⟨by simp, hl⟩) rfl rfl (fun c hc => .inl hc) rfl id
  · rename_i hw
    exact h.beginDestruction (hq.resolve_left hw) hl

theorem close (hq : s.lifecycle = .active → s.failsafe.isSome → .persisting ∉ s.completions) :
    Exclusive s.close := by
  unfold Context.close
  split
  · exact h.congr rfl rfl rfl rfl rfl id
  · exact h.congr rfl rfl rfl rfl rfl id
  · rename_i ha
    exact h.beginDestruction (hq ha) (by simp [ha])
  · exact h
  · exact h

/-- The timer fires or is made to expire. A completed timer does nothing, and while the fabrics
are being stored it is completed. -/
theorem expire {m o : FailsafeTimer}
    (ho : s.failsafe = some o) (hcm : m.completed = o.completed) : Exclusive (s.expire m) := by
  unfold Context.expire
  split
  · exact h
  · rename_i hr
    have hn : .persisting ∉ s.completions := by
      intro hm
      exact hr (hcm.trans (h.completing o ho hm))
    apply close
    · have hsm : s.failsafe.isSome := by simp [ho]
      exact {
        undecided := fun _ => h.undecided hsm
        unarmed := fun hcn => by simp [(h.unarmed hcn).1] at ho
        stopping := fun hs => ⟨(h.stopping hs).1, rfl, hn⟩
        rolling := h.rolling
        rolledBack := fun hl => by simp [(h.rolledBack hl).1] at ho
        once := h.once
        completing := fun _ _ hm => absurd hm hn
        completed := fun c hc he => by simp [h.completed c hc he] at ho
        undoable := h.undoable
        kept := h.kept }
    · exact fun _ _ => hn

theorem reArm {m : FailsafeTimer} {f : Option Nat}
    {e : Bool} (ht : s.failsafe = some m) : Exclusive (s.reArm m f e) := by
  unfold Context.reArm
  split
  · exact h
  · split
    · exact h
    · split
      · exact h.expire ht rfl
      · exact h.congr rfl (by simp [ht]) rfl rfl rfl id

theorem commission {st : List Effect} (c : List Completion) (hs : st = [] ∨ st = [.persisted])
    (hr : .rolledBack ∉ s.effects) (ht : s.destruction ≠ some .stopping)
    (hl : s.lifecycle ≠ .constructing) (hi : s.installed = false) :
    Exclusive { s with
      failsafe := none
      completions := c
      effects := s.effects ++ st ++ [.commissioned] } := by
  have hn : .rolledBack ∉ s.effects ++ st ++ [Effect.commissioned] := by
    rcases hs with rfl | rfl <;> simp [hr]
  exact {
    undecided := by simp
    unarmed := fun hc => absurd hc hl
    stopping := fun hp => absurd hp ht
    rolling := fun d hd he => absurd (h.rolling d hd he) hr
    rolledBack := fun hm => absurd hm hn
    once := Nat.le_trans (Nat.le_of_eq (count_eq_zero.mpr hn)) (Nat.zero_le 1)
    completing := by simp
    completed := fun _ _ _ => rfl
    undoable := fun hin => absurd hin (by simpa [installed] using hi)
    kept := by
      apply Kept.append _ (.inl rfl)
      rcases hs with rfl | rfl
      · simpa using h.kept
      · exact h.kept.append (.inl rfl) }

theorem completeCommission (hl : s.lifecycle ≠ .destroying)
    (hi : s.installed = false) : Exclusive s.completeCommission := by
  unfold Context.completeCommission
  cases hf : s.failsafe with
  | none => exact h
  | some timer =>
    have hsm : s.failsafe.isSome := by simp [hf]
    have hd := h.undecided hsm
    have ha : s.lifecycle ≠ .constructing := by
      intro hn
      simp [(h.unarmed hn).1] at hf
    have hs : s.destruction ≠ some .stopping :=
      fun hst => hl (h.stopping hst).1
    have hr : .rolledBack ∉ s.effects :=
      fun hm => absurd (hd _ hm) (by simp [Effect.decides])
    dsimp only
    split
    · exact {
        undecided := fun _ => hd
        unarmed := fun hn => absurd hn ha
        stopping := fun hst => absurd hst hs
        rolling := h.rolling
        rolledBack := fun hm => absurd hm hr
        once := h.once
        completing := by
          intro t ht _
          obtain rfl : timer.complete = t := by simpa using ht
          rfl
        completed := by
          intro c hc he
          rcases mem_append.mp hc with hc | hc
          · simp [h.completed c hc he] at hf
          · exact absurd (mem_singleton.mp hc) he
        undoable := fun hin => absurd hin (by simpa [installed] using hi)
        kept := h.kept }
    · have := h.commission (s.completions ++ [.emitting]) (.inl rfl) hr
        hs ha hi
      simpa [Context.commission, note] using this

theorem rollback (hs : s.destruction = some .stopping) (hd : d ≠ .stopping) :
    Exclusive { s.note .rolledBack with failsafe := none, destruction := some d } := by
  obtain ⟨hds, hsm, hn⟩ := h.stopping hs
  have hc := h.undecided hsm
  have hnn : ∀ e : Effect, e.decides → e ∉ s.effects := by
    intro e he hm
    simp [hc e hm] at he
  exact {
    undecided := by simp
    unarmed := by simp [note, hds]
    stopping := by simp [hd]
    rolling := by simp [note]
    rolledBack := fun _ =>
      ⟨rfl, hn, by simp [note, hnn .commissioned rfl], by simp [note, hnn .persisted rfl]⟩
    once := by simp [note, count_eq_zero.mpr (hnn .rolledBack rfl)]
    completing := by simp
    completed := fun _ _ _ => rfl
    undoable := fun _ => ⟨hn, by simp [note, hnn .persisted rfl]⟩
    kept := h.kept.append (.inl rfl) }

/-- Once the rollback has begun, its later steps change only where it waits. -/
theorem moveOn {d : Option Destruction} {l : Lifecycle}
    (hr : .rolledBack ∈ s.effects) (hd : d ≠ some .stopping) (hl : l ≠ .constructing) :
    Exclusive { s with destruction := d, lifecycle := l } :=
  { h with
    unarmed := fun hc => absurd hc hl
    stopping := fun hs => absurd hs hd
    rolling := fun _ _ _ => hr }

theorem deleteFabric (hp : .persisted ∉ s.effects) : Exclusive s.deleteFabric := by
  unfold Context.deleteFabric
  split
  · exact h.undo_note rfl hp
  · exact h

end

end Exclusive

theorem deleteFabric_moved (s : Context) (d : Option Destruction) :
    { s.deleteFabric with destruction := d } = { s with destruction := d }.deleteFabric := by
  unfold Context.deleteFabric
  split
  · rfl
  · rfl

section
variable (h : Exclusive s)
include h

variable {f : Bool}

theorem Exclusive.finishRollback (hr : .rolledBack ∈ s.effects)
    (hl : s.lifecycle ≠ .constructing) : Exclusive (s.finishRollback f) := by
  unfold Context.finishRollback
  split
  · rw [deleteFabric_moved]
    exact (h.moveOn hr (by simp) hl).deleteFabric (h.rolledBack hr).2.2.2
  · exact h.moveOn hr (by simp) hl

theorem Exclusive.destruct (hd : s.destruction = some d) : Exclusive (s.destruct f d) := by
  by_cases hs : d = .stopping
  · subst hs
    simp only [Context.destruct]
    split
    · rw [deleteFabric_moved]
      have hrl := h.rollback hd (by simp : Destruction.revoking ≠ .stopping)
      exact hrl.deleteFabric (hrl.rolledBack (by simp [note])).2.2.2
    · exact h.rollback hd (by simp)
  · have hr := h.rolling d hd hs
    have hp := (h.rolledBack hr).2.2.2
    have hl : s.lifecycle ≠ .constructing := by
      intro hc
      have := (h.unarmed hc).2.2 _ hr
      simp [Effect.decides] at this
    cases d with
    | stopping => exact absurd rfl hs
    | revoking => exact h.moveOn hr (by simp) hl
    | closingPase => exact h.moveOn hr (by simp) hl
    | closingSessions f => exact h.moveOn hr (by simp) hl
    | restoringNetwork f =>
      simp only [Context.destruct]
      split
      · exact (h.undo_note rfl hp).moveOn (mem_append_left _ hr) (by simp)
          hl
      · exact h.finishRollback hr hl
    | restoringFabric f => exact h.finishRollback hr hl
    | deleting => exact h.moveOn hr (by simp) hl
    | restoringBreadcrumb => exact h.moveOn hr (by simp) (by simp)

theorem Exclusive.install (hs : s.settled = false) : Exclusive (s.install f) := by
  have hu : .persisting ∉ s.completions ∧ .persisted ∉ s.effects := by
    simpa [settled] using hs
  have ha : Exclusive { s with noc := some .added } :=
    { h with undoable := fun _ => hu }
  unfold Context.install
  split
  · exact { h with undoable := fun _ => hu }
  · refine ha.congr rfl ?_ rfl rfl rfl id
    cases s.failsafe <;> rfl

theorem Exclusive.forget : Exclusive { s with noc := none } :=
  h.congr rfl rfl rfl rfl rfl (by simp [installed])

theorem Exclusive.undo {noc : Noc} (hn : s.noc = some noc) : Exclusive (s.undo noc) := by
  cases noc with
  | building f => exact h.forget
  | added => exact (h.undo_note rfl (h.undoable (by simp [installed, hn])).2).forget
  | replaced => exact (h.undo_note rfl (h.undoable (by simp [installed, hn])).2).forget

end

theorem mem_of_awaits {call : Nat} {c : Completion} (h : s.awaits call c) : c ∈ s.completions := by
  simp only [awaits, beq_iff_eq] at h
  exact mem_of_getElem? h

section
variable (h : Exclusive s)
include h

/-- The fabrics are stored, and the context is commissioned. -/
theorem Exclusive.persisted {call : Nat} (ha : s.awaits call .persisting) :
    Exclusive { (s.note .persisted).commission with
      completions := s.completions.set call .emitting } := by
  have hm := mem_of_awaits ha
  have hr : .rolledBack ∉ s.effects := fun hr => (h.rolledBack hr).2.1 hm
  have hs : s.destruction ≠ some .stopping := fun ht => (h.stopping ht).2.2 hm
  have har : s.lifecycle ≠ .constructing := by
    intro hc
    simp [(h.unarmed hc).2.1] at hm
  have hi : s.installed = false := by
    by_contra hn
    exact (h.undoable (by simpa using hn)).1 hm
  exact h.commission (s.completions.set call .emitting) (.inr rfl) hr hs har
    hi

/-- A call of `completeCommission` fails, or goes on after the commissioning. -/
theorem Exclusive.settle {o : List Completion}
    (hc : ∀ c ∈ o, c ∈ s.completions ∨ c ≠ .persisting ∧ ∃ c' ∈ s.completions, c' ≠ .persisting) :
    Exclusive { s with completions := o } :=
  h.progress (.inl rfl) rfl rfl hc rfl id

theorem Exclusive.drop (call : Nat) :
    Exclusive { s with completions := s.completions.eraseIdx call } :=
  h.settle (fun _ hc => .inl (mem_of_mem_eraseIdx hc))

theorem Exclusive.step {e : Event} (ho : s.orderly e) (hs : s.step e = some t) : Exclusive t := by
  cases e with
  | arm =>
    obtain ⟨hn, rfl⟩ := of_enabled hs
    obtain ⟨hnn, he, hdc⟩ := h.unarmed hn
    have hl : .rolledBack ∉ s.effects :=
      fun hm => absurd (hdc _ hm) (by simp [Effect.decides])
    exact {
      undecided := fun _ => hdc
      unarmed := by simp
      stopping := fun hst => by simp [(h.stopping hst).1] at hn
      rolling := h.rolling
      rolledBack := fun hm => absurd hm hl
      once := h.once
      completing := by simp [he]
      completed := by simp [he]
      undoable := h.undoable
      kept := h.kept }
  | crash =>
    obtain ⟨hn, rfl⟩ := of_enabled hs
    refine h.construct (.inr ?_) (by simp [hn])
    simp [(h.unarmed hn).1]
  | constructed =>
    obtain ⟨har, rfl⟩ := of_enabled hs
    refine h.construct ?_ (by simp [har])
    simpa [orderly, persisting_eq_false] using ho
  | extend a z =>
    simp only [Context.step] at hs
    split at hs
    · cases hs
    · cases hs
    · cases hs
      exact h
    · rename_i ht _ _
      cases hs
      exact h.reArm ht
  | timer =>
    simp only [Context.step] at hs
    split at hs
    · cases hs
    · rename_i ht
      obtain ⟨-, rfl⟩ := of_enabled hs
      exact h.expire ht rfl
  | maxTimer =>
    simp only [Context.step] at hs
    split at hs
    · cases hs
    · rename_i ht
      obtain ⟨-, rfl⟩ := of_enabled hs
      exact h.expire ht rfl
  | closedByPeer =>
    obtain ⟨-, rfl⟩ := of_enabled hs
    split
    · exact h
    · rename_i hr
      refine h.close ?_
      intro _ hsm hm
      obtain ⟨timer, ht⟩ := isSome_iff_exists.mp hsm
      exact hr (by simp [ht, h.completing timer ht hm])
  | close =>
    cases hs
    refine h.close ?_
    intro hac
    simpa [orderly, hac, persisting_eq_false] using ho
  | completeCommission =>
    cases hs
    simp only [orderly, Bool.and_eq_true, bne_iff_ne, Bool.not_eq_true'] at ho
    exact h.completeCommission ho.1 ho.2
  | persisted call =>
    obtain ⟨ha, rfl⟩ := of_enabled hs
    exact h.persisted ha
  | persistFailed call =>
    obtain ⟨-, rfl⟩ := of_enabled hs
    exact h.drop call
  | emitted call =>
    obtain ⟨ha, rfl⟩ := of_enabled hs
    refine h.settle ?_
    intro c hc
    rcases mem_or_eq_of_mem_set hc with hc | rfl
    · exact .inl hc
    · exact .inr ⟨by simp, .emitting, mem_of_awaits ha, by simp⟩
  | emitFailed call =>
    obtain ⟨-, rfl⟩ := of_enabled hs
    exact h.drop call
  | paseClosed call =>
    obtain ⟨ha, rfl⟩ := of_enabled hs
    refine (h.drop call).close ?_
    intro _ hsm
    simp [h.completed _ (mem_of_awaits ha) (by simp)] at hsm
  | createCertificateSigningRequest i =>
    cases hs
    exact h.congr rfl rfl rfl rfl rfl id
  | build fi f =>
    obtain ⟨-, rfl⟩ := of_enabled hs
    exact h.congr rfl rfl rfl rfl rfl (by simp [installed])
  | install =>
    simp only [Context.step] at hs
    split at hs
    · cases hs
      exact h.install (by simpa [orderly] using ho)
    · cases hs
  | nocReturned =>
    simp only [Context.step] at hs
    split at hs
    · cases hs
    · cases hs
      exact h.forget
  | nocFailed =>
    obtain ⟨noc, hnoc, rfl⟩ := map_eq_some_iff.mp hs
    exact h.undo hnoc
  | advance found =>
    obtain ⟨d, hd, rfl⟩ := map_eq_some_iff.mp hs
    exact h.destruct hd
  | rollbackFailed =>
    simp only [Context.step] at hs
    split at hs
    · cases hs
    · cases hs
    · rename_i d hne hd
      cases hs
      exact h.moveOn (h.rolling d hd hne) (by simp) (by simp)

end

end Context

/-- In every orderly run the context is commissioned or rolled back, not both, it is rolled back
at most once, and nothing is removed or restored after its fabrics were persisted. -/
theorem failsafe_outcome_is_exclusive (fabric : Option Nat) (events : List Event) (s : Context)
    (h : Run (guarded Context.step (·.orderly ·)) (Context.new fabric)
      events s) : ¬ (.commissioned ∈ s.effects ∧ .rolledBack ∈ s.effects) ∧
      s.effects.count .rolledBack ≤ 1 ∧ Kept s.effects := by
  have he : s.Exclusive := by
    refine guarded_invariant (I := Context.Exclusive) ?_ h (Context.exclusive_new fabric)
    intro s event t ho ht hs
    exact hs.step ho ht
  refine ⟨?_, he.once, he.kept⟩
  rintro ⟨hc, hr⟩
  exact (he.rolledBack hr).2.2.1 hc

/-- A fabric is added and stored, and the context is commissioned. -/
theorem failsafe_outcome_is_exclusive_commissioned : ∃ s : Context, s.effects =
    [.persisted, .commissioned] ∧ s.lifecycle = .destroyed ∧ ¬ (.commissioned ∈ s.effects ∧
    .rolledBack ∈ s.effects) ∧ s.effects.count .rolledBack ≤ 1 ∧ Kept s.effects :=
  ⟨_, by rfl, by rfl, failsafe_outcome_is_exclusive none
    [.arm, .constructed, .extend none false, .createCertificateSigningRequest false,
      .build 1 false, .install, .nocReturned, .completeCommission, .persisted 0, .emitted 0,
      .paseClosed 0] _ (run_of_exec rfl)⟩

/-- The commissioning window is revoked while the fabrics are being stored: the context is
commissioned, then rolled back, and the fabric that was stored is removed. -/
theorem close_while_persisting : ∃ s, exec Context.step (Context.new none)
        [.arm, .constructed, .createCertificateSigningRequest false, .build 1 false, .install,
          .nocReturned, .completeCommission, .close, .persisted 0, .advance true] = some s ∧
      s.effects = [.persisted, .commissioned, .rolledBack, .removedFabric] :=
  ⟨_, rfl, rfl⟩

end MatterJs.Failsafe
