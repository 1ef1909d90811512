import Mathlib.Algebra.Order.Ring.Nat
import MatterJs.Client.BatchSettlement

/-!
# The end of the batches

The calls are numbered. The events of the batches themselves, which no caller is involved in, lower
a measure, so that they come to an end, and they do so only when every command has settled.
-/
namespace MatterJs.Client

open TransitionSystem List Option Prod

namespace ClientInteraction

variable {P D : Type} {s t : ClientInteraction P D} {e : Event P D}

/-! ### The numbers of the calls -/

/-- A call has a number of its own, whether it still connects or its command was queued. -/
structure Numbered (s : ClientInteraction P D) : Prop where
  distinct : (s.connecting.map fst ++ s.commands.map (·.id)).Nodup
  bounded : ∀ id ∈ s.connecting.map fst ++ s.commands.map (·.id), id < s.calls

theorem Numbered.of_eq (h : Numbered s) (hl : t.calls = s.calls)
    (hc : t.connecting = s.connecting) (hm : t.commands = s.commands) : Numbered t := by
  refine ⟨?_, ?_⟩
  · rw [hc, hm]
    exact h.distinct
  · rw [hc, hm, hl]
    exact h.bounded

theorem Numbered.connectionFailed (h : Numbered s) (id : Nat) :
    Numbered { s with connecting := s.connecting.filter (·.1 ≠ id) } := by
  have hp : ((s.connecting.filter (·.1 ≠ id)).map fst ++
      s.commands.map (·.id)).Sublist (s.connecting.map fst ++ s.commands.map (·.id)) :=
    (filter_sublist.map _).append (List.Sublist.refl _)
  exact ⟨h.distinct.sublist hp, fun id hi => h.bounded id (hp.subset hi)⟩

theorem produce_calls (ba : List (Batch P)) : (s.produce ba).calls = s.calls ∧
    (s.produce ba).connecting = s.connecting ∧ (s.produce ba).commands = s.commands := by
  unfold produce
  split
  · exact ⟨rfl, rfl, rfl⟩
  · split <;> exact ⟨rfl, rfl, rfl⟩

/-- The events of the batches themselves, which no caller is involved in. -/
def isInternal : Event P D → Bool
  | .timer | .execute _ | .send _ | .respond _ _ | .failToSend _ | .fail _ | .finish => true
  | _ => false

theorem internal_calls [DecidableEq P] (hs : s.step e = some t) (hi : isInternal e) :
    t.calls = s.calls ∧ t.connecting = s.connecting ∧ t.commands = s.commands := by
  cases happens_of_step hs with
  | timer _ => exact produce_calls _
  | execute _ _ _ =>
    unfold execute
    simp only
    split
    · exact produce_calls _
    · exact ⟨rfl, rfl, rfl⟩
  | send _ _ => exact ⟨rfl, rfl, rfl⟩
  | respond _ _ => exact ⟨rfl, rfl, rfl⟩
  | failToSend _ _ => exact ⟨rfl, rfl, rfl⟩
  | fail _ _ => exact ⟨rfl, rfl, rfl⟩
  | finish _ _ _ => exact produce_calls _
  | _ => cases hi

theorem Numbered.enqueue (h : Numbered s) {call : Nat × P} (hcl : call ∈ s.connecting) :
    Numbered ({ s with connecting := s.connecting.filter (·.1 ≠ call.1) }.enqueue
      call.1 call.2) := by
  have hs := h.connectionFailed call.1
  unfold ClientInteraction.enqueue
  split
  · exact hs
  · have hm : call.1 ∈ s.connecting.map fst := mem_map_of_mem hcl
    refine ⟨?_, ?_⟩
    · rw [map_append, ← append_assoc, nodup_append]
      refine ⟨hs.distinct, by simp, ?_⟩
      intro id hi o ho
      obtain rfl : o = call.1 := by simpa using ho
      rintro rfl
      rcases mem_append.mp hi with hc | hcm
      · obtain ⟨left, hf, hsm⟩ := mem_map.mp hc
        exact absurd hsm (by simpa using (mem_filter.mp hf).2)
      · exact (nodup_append.mp h.distinct).2.2 _ hm _ hcm rfl
    · intro id hi
      rw [map_append, ← append_assoc] at hi
      rcases mem_append.mp hi with hl | hn
      · exact hs.bounded id hl
      · obtain rfl : id = call.1 := by simpa using hn
        exact h.bounded call.1 (mem_append_left _ hm)

theorem Numbered.step [DecidableEq P] (h : Numbered s) (hs : s.step e = some t) : Numbered t := by
  by_cases hi : isInternal e
  · obtain ⟨hl, hc, hcm⟩ := internal_calls hs hi
    exact h.of_eq hl hc hcm
  cases happens_of_step hs with
  | @invoke path =>
    refine ⟨?_, ?_⟩
    · have hp : ((s.connecting ++ [(s.calls, path)]).map fst ++ s.commands.map (·.id)).Perm
          (s.calls :: (s.connecting.map fst ++ s.commands.map (·.id))) := by
        simp
      refine hp.nodup_iff.mpr (nodup_cons.mpr ⟨?_, h.distinct⟩)
      intro hm
      exact absurd (h.bounded _ hm) (Nat.lt_irrefl _)
    · intro id hd
      simp only [map_append, map_cons, map_nil, append_assoc, mem_append, mem_singleton] at hd
      have ho := h.bounded id
      simp only [mem_append] at ho
      rcases hd with hd | rfl | hd
      · exact Nat.lt_succ_of_lt (ho (.inl hd))
      · exact Nat.lt_succ_self _
      · exact Nat.lt_succ_of_lt (ho (.inr hd))
  | connected hm => exact h.enqueue hm
  | connectionFailed => exact h.connectionFailed _
  | abort _ => exact h.of_eq rfl rfl rfl
  | close => exact h.of_eq rfl rfl rfl
  | _ => exact absurd rfl hi

/-! ### The end of all events -/

/-- What is left to do with a batch that is not executing yet. -/
def batchWeight (batch : Batch P) : Nat :=
  3 * batch.length + 3

variable (b : List (Batch P))

def batchesWeight : Nat :=
  (b.map batchWeight).sum

/-- What is left to do at most. -/
def weight (s : ClientInteraction P D) : Nat :=
  (if s.timerRunning then 1 else 0) + 6 * s.pendingCommands.length +
    (s.queue.map (fun task => batchesWeight (task.batch :: task.later))).sum +
    (s.executing.toList.map (fun execution =>
      1 + 2 * execution.unsent.length + execution.awaiting.length +
        batchesWeight execution.later)).sum

theorem weight_produce (s : ClientInteraction P D) (b : List (Batch P)) :
    (s.produce b).weight ≤ s.weight + batchesWeight b := by
  unfold produce
  split
  · exact Nat.le_add_right _ _
  · split
    · exact Nat.le_add_right _ _
    · simp only [weight, map_append, map_cons, map_nil, sum_append, sum_cons, sum_nil]
      omega

theorem batchesWeight_eq : batchesWeight b = 3 * b.flatten.length + 3 * b.length := by
  induction b with
  | nil => rfl
  | cons batch b ih =>
    simp only [batchesWeight, map_cons, sum_cons, batchWeight, flatten_cons,
      List.length_append, length_cons] at ih ⊢
    omega

variable {m : Nat}

theorem length_messages_le (hm : 0 < m) {g : Batch P} (hg : g ≠ []) :
    (messages m g).length ≤ g.length := by
  unfold messages
  split
  · exact length_slices_le hm _ g
  · exact length_pos_iff.mpr hg

theorem weight_execute (ha : 0 < m) {task : Task P}
    {queue : List (Task P)} (hi : s.executing = none) (hq : s.queue = task :: queue) :
    (s.execute m task queue).weight < s.weight := by
  have hw : s.weight = { s with queue := queue }.weight + batchWeight task.batch +
      batchesWeight task.later := by
    simp only [weight, hi, hq, map_cons, sum_cons, batchesWeight]
    omega
  have hf : (task.batch.filter (fun c => !s.aborted.contains c.id)).length ≤
      task.batch.length := length_filter_le _ _
  unfold execute
  simp only
  split
  · have hp := weight_produce { s with queue := queue } task.later
    have : 0 < batchWeight task.batch := Nat.succ_pos _
    omega
  · next hs =>
    have hm := length_messages_le ha
      (fun he => hs (isEmpty_iff.mpr he))
    rw [hw]
    simp only [weight, hi, batchWeight, toList_some, map_nil,
      map_cons, sum_nil, sum_cons, length_nil]
    omega

variable [DecidableEq P]

theorem length_place_le (c : Command P) (b : List (Batch P)) :
    (place c b).length ≤ b.length + 1 := by
  induction b with
  | nil => exact Nat.le_refl _
  | cons batch b ih =>
    unfold place
    split
    · simpa using ih
    · simp

theorem length_partitionBatch_le (c : List (Command P)) :
    (partitionBatch c).length ≤ c.length := by
  induction c using List.reverseRecOn with
  | nil => exact Nat.le_refl _
  | append_singleton c o ih =>
    rw [partitionBatch, foldl_append, foldl_cons, foldl_nil, ← partitionBatch, List.length_append]
    exact Nat.le_trans (length_place_le o _) (Nat.succ_le_succ ih)

theorem weight_flushBatch (h : s.timerRunning) :
    ({ s with timerRunning := false }.flushBatch).weight < s.weight := by
  have hp := weight_produce { s with timerRunning := false, pendingCommands := [] }
    (partitionBatch s.pendingCommands)
  have hb := batchesWeight_eq (partitionBatch s.pendingCommands)
  rw [(partitionBatch_perm s.pendingCommands).length_eq] at hb
  have hc := length_partitionBatch_le s.pendingCommands
  refine Nat.lt_of_le_of_lt hp ?_
  simp only [weight, h, length_nil, if_true, Bool.false_eq_true, if_false]
  omega

/-- Each event of the batches themselves leaves less to do. -/
theorem weight_internal {v : Event P D} (hs : s.step v = some t)
    (hn : isInternal v) : t.weight < s.weight := by
  -- what an executing batch has left
  have hf {e after : Execution P} {settled : List (Nat × Outcome D)}
      {sent : List (Message P)} (he : s.executing = some e)
      (hl : after.later = e.later)
      (hls : 2 * after.unsent.length + after.awaiting.length <
        2 * e.unsent.length + e.awaiting.length) :
      weight { s with executing := some after, settled, sent } < s.weight := by
    simp only [weight, he, hl, toList_some, map_cons, map_nil, sum_cons, sum_nil]
    omega
  cases happens_of_step hs with
  | timer hr => exact weight_flushBatch hr
  | execute hd hq ha => exact weight_execute ha hd hq
  | send he hm =>
    obtain ⟨hi, _⟩ := List.getElem?_eq_some_iff.mp hm
    refine hf he rfl ?_
    simp only [List.length_eraseIdx_of_lt hi, List.length_append, List.length_singleton]
    omega
  | respond he hm =>
    obtain ⟨hi, _⟩ := List.getElem?_eq_some_iff.mp hm
    refine hf he rfl ?_
    simp only [List.length_eraseIdx_of_lt hi]
    omega
  | failToSend he hi =>
    refine hf he rfl ?_
    simp only [List.length_eraseIdx_of_lt hi]
    omega
  | fail he hi =>
    refine hf he rfl ?_
    simp only [List.length_eraseIdx_of_lt hi]
    omega
  | finish he _ _ =>
    refine Nat.lt_of_le_of_lt (weight_produce _ _) ?_
    simp only [weight, he, toList_some, toList_none, map_cons, map_nil, sum_cons, sum_nil]
    omega
  | _ => cases hn

/-- The events of the batches themselves, as long as there are any. -/
def internalStep (s : ClientInteraction P D) (event : Event P D) :
    Option (ClientInteraction P D) :=
  if isInternal event then s.step event else none

theorem length_internal_run {e : List (Event P D)}
    (hu : Run internalStep s e t) : e.length ≤ s.weight := by
  induction hu with
  | refl => exact Nat.zero_le _
  | stepL hs _ ih =>
    unfold internalStep at hs
    split at hs
    · next hi =>
      have := weight_internal hs hi
      simp only [length_cons]
      omega
    · cases hs

/-- A client on which no such event can happen has settled all its commands. -/
theorem Accounted.all_settled (h : Accounted [] s)
    (hd : ∀ e, internalStep s e = none) {c : Command P}
    (hc : c ∈ s.commands) : c.id ∈ settledIds s.settled := by
  have hn : ∀ e : Event P D, isInternal e → s.step e = none := by
    intro e hi
    simpa [internalStep, hi] using hd e
  have hp : s.pendingCommands = [] := by
    by_contra hne
    have hr := h.timer hne
    simpa [ClientInteraction.step, hr] using hn .timer rfl
  have hx : s.executing = none := by
    cases he : s.executing with
    | none => rfl
    | some x =>
      cases hu : x.unsent with
      | cons m me =>
        simpa [ClientInteraction.step, he, hu] using hn (.send 0) rfl
      | nil =>
        cases ha : x.awaiting with
        | cons m me =>
          simpa [ClientInteraction.step, he, ha] using hn (.fail 0) rfl
        | nil =>
          simpa [ClientInteraction.step, he, hu, ha] using hn .finish rfl
  have hq : s.queue = [] := by
    cases hq : s.queue with
    | nil => rfl
    | cons task queue =>
      simpa [ClientInteraction.step, hx, hq] using hn (.execute 1) rfl
  rcases h.placed c hc with hs | ⟨group, hg, hm⟩
  · exact hs
  · simp only [held, hp, hx, hq, toList_none, flatMap_nil, append_nil, mem_singleton] at hg
    rw [hg] at hm
    cases hm

end ClientInteraction

end MatterJs.Client
