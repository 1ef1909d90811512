import Mathlib.Data.List.Perm.Basic
import MatterJs.Client.BatchProgress

/-!
# The messages of the batches

No message has a path twice or more paths than the peer takes, and commands with the same path are
sent in the order of the calls, provided that a flush waits for the batches of earlier flushes that
share a path with it.
-/
namespace MatterJs.Client

open TransitionSystem IndexedList List Option

variable {P D : Type} {bt : Batch P}

/-- Commands with the same path are in the order of their calls. -/
def Before (a b : Command P) : Prop :=
  a.path = b.path → a.id < b.id

def PathsDistinct (batch : Batch P) : Prop :=
  (batch.map (·.path)).Nodup

theorem PathsDistinct.sublist {bt part : Batch P} (h : PathsDistinct bt)
    (hp : part.Sublist bt) : PathsDistinct part :=
  List.Nodup.sublist (hp.map _) h

theorem PathsDistinct.pairwise (h : PathsDistinct bt) : bt.Pairwise Before := by
  refine (pairwise_map.mp h).imp ?_
  intro a b hn he
  exact absurd he hn

theorem flatten_sublist {α : Type} {part wh : List (List α)} (h : part.Sublist wh) :
    part.flatten.Sublist wh.flatten := by
  induction h with
  | slnil => exact List.Sublist.refl _
  | cons list _ ih => exact ih.trans (sublist_append_right list _)
  | cons_cons list _ ih => exact ih.append_left list

/-! ### The batches of a flush -/

section Partition

variable [DecidableEq P]

/-- A path that a batch has, the batches before it have as well. -/
def Layered (batches : List (Batch P)) : Prop :=
  batches.Pairwise (fun batch later => ∀ command ∈ later, command.path ∈ batch.map (·.path))

variable {bs : List (Batch P)}

theorem mem_place {cm o : Command P} (hb : bt ∈ place cm bs) (ho : o ∈ bt) :
    o = cm ∨ ∃ old ∈ bs, o ∈ old := by
  have hm : o ∈ (place cm bs).flatten := mem_flatten.mpr ⟨bt, hb, ho⟩
  rw [(place_perm cm bs).mem_iff, mem_append, mem_singleton] at hm
  rcases hm with hl | hn
  · exact .inr (mem_flatten.mp hl)
  · exact .inl hn

theorem layered_place (h : Layered bs) (cm : Command P) : Layered (place cm bs) := by
  induction bs with
  | nil => exact pairwise_singleton _ _
  | cons ba bs ih =>
    obtain ⟨hf, hs⟩ := pairwise_cons.mp h
    unfold place
    split
    · next hc =>
      refine pairwise_cons.mpr ⟨?_, ih hs⟩
      intro later hl o ho
      rcases mem_place hl ho with rfl | ⟨old, hd, hm⟩
      · simpa using hc
      · exact hf old hd o hm
    · refine pairwise_cons.mpr ⟨?_, hs⟩
      intro later hl o ho
      rw [map_append]
      exact mem_append_left _ (hf later hl o ho)

theorem ordered_place {cm : Command P} (hl : Layered bs) (h : bs.flatten.Pairwise Before)
    (hs : ∀ o ∈ bs.flatten, Before o cm) : (place cm bs).flatten.Pairwise Before := by
  induction bs with
  | nil => exact pairwise_singleton _ _
  | cons ba bs ih =>
    obtain ⟨hf, hrs⟩ := pairwise_cons.mp hl
    obtain ⟨hba, ht, hc⟩ := pairwise_append.mp h
    unfold place
    split
    · rw [flatten_cons]
      refine pairwise_append.mpr ⟨hba, ih hrs ht (fun o hm => hs o (mem_append_right _ hm)), ?_⟩
      intro a ha b hb
      rw [(place_perm cm bs).mem_iff, mem_append, mem_singleton] at hb
      rcases hb with hd | rfl
      · exact hc a ha b hd
      · exact hs a (mem_append_left _ ha)
    · next hn =>
      rw [flatten_cons, append_assoc]
      refine pairwise_append.mpr ⟨hba, ?_, ?_⟩
      · refine pairwise_cons.mpr ⟨?_, ht⟩
        -- the batches after this one do not have the path either
        intro o ho hp
        obtain ⟨later, hlt, hm⟩ := mem_flatten.mp ho
        have := hf later hlt o hm
        rw [← hp] at this
        exact absurd (by simpa using this) hn
      · intro a ha b hb
        rcases mem_cons.mp hb with rfl | hd
        · exact hs a (mem_append_left _ ha)
        · exact hc a ha b hd

variable (c : List (Command P))

theorem partitionBatch_append (cm : Command P) :
    partitionBatch (c ++ [cm]) = place cm (partitionBatch c) := by
  rw [partitionBatch, foldl_append, foldl_cons, foldl_nil, ← partitionBatch]

theorem layered_partitionBatch : Layered (partitionBatch c) := by
  induction c using List.reverseRecOn with
  | nil => exact List.Pairwise.nil
  | append_singleton c co ih =>
    rw [partitionBatch_append]
    exact layered_place ih co

/-- The batches keep the order of the commands with the same path. -/
theorem ordered_partitionBatch {c : List (Command P)} (h : c.Pairwise Before) :
    (partitionBatch c).flatten.Pairwise Before := by
  induction c using List.reverseRecOn with
  | nil => exact List.Pairwise.nil
  | append_singleton c co ih =>
    obtain ⟨hc, _, hl⟩ := pairwise_append.mp h
    rw [partitionBatch_append]
    refine ordered_place (layered_partitionBatch c) (ih hc) ?_
    intro o ho
    rw [(partitionBatch_perm c).mem_iff] at ho
    exact hl o ho co mem_cons_self

theorem pathsDistinct_place (cm : Command P) (h : ∀ ba ∈ bs, PathsDistinct ba) :
    ∀ ba ∈ place cm bs, PathsDistinct ba := by
  induction bs with
  | nil =>
    intro ba hb
    obtain rfl := mem_singleton.mp hb
    exact nodup_singleton _
  | cons first bs ih =>
    obtain ⟨hf, hs⟩ := forall_mem_cons.mp h
    unfold place
    split
    · exact forall_mem_cons.mpr ⟨hf, ih hs⟩
    · next hc =>
      refine forall_mem_cons.mpr ⟨?_, hs⟩
      unfold PathsDistinct
      rw [map_append, nodup_append]
      refine ⟨hf, nodup_singleton _, ?_⟩
      intro path hp o ho
      obtain rfl : o = cm.path := by simpa using ho
      rintro rfl
      exact hc (by simpa using hp)

theorem pathsDistinct_partitionBatch : ∀ ba ∈ partitionBatch c, PathsDistinct ba := by
  induction c using List.reverseRecOn with
  | nil => simp [partitionBatch]
  | append_singleton c co ih =>
    rw [partitionBatch_append]
    exact pathsDistinct_place co ih

end Partition

/-! ### The division into messages -/

namespace ClientInteraction

variable {s t : ClientInteraction P D} {mo m : List (Batch P)}

/-- No batch has a path twice, and no message is longer than the peer takes. -/
structure Divided (moving : List (Batch P)) (s : ClientInteraction P D) : Prop where
  moving : ∀ batch ∈ moving, PathsDistinct batch
  queued : ∀ task ∈ s.queue, ∀ batch ∈ task.batch :: task.later, PathsDistinct batch
  later : ∀ execution, s.executing = some execution → ∀ batch ∈ execution.later, PathsDistinct batch
  unsent : ∀ execution, s.executing = some execution → PathsDistinct execution.unsent.flatten
  limited : ∀ execution, s.executing = some execution →
    ∀ message ∈ execution.unsent, message.length ≤ execution.maxPathsPerInvoke
  sent : ∀ message ∈ s.sent, PathsDistinct message.commands ∧
    message.commands.length ≤ message.maxPathsPerInvoke

variable {bs : List (Batch P)}

theorem Divided.produce (h : Divided bs s) : Divided [] (s.produce bs) := by
  unfold ClientInteraction.produce
  split
  · exact h
  · split
    · exact ⟨by simp, h.queued, h.later, h.unsent, h.limited, h.sent⟩
    · next ba later _ =>
      refine ⟨by simp, ?_, h.later, h.unsent, h.limited, h.sent⟩
      intro a ht
      rcases mem_concat_cases ht with ho | rfl
      · exact h.queued a ho
      · exact h.moving

theorem Divided.flushBatch [DecidableEq P] (h : Divided [] s) : Divided [] s.flushBatch := by
  apply Divided.produce
  exact ⟨pathsDistinct_partitionBatch _, h.queued, h.later, h.unsent, h.limited, h.sent⟩

variable {q : List (Task P)}

variable {a : Task P}

theorem Divided.execute (h : Divided [] s) {mppi : Nat} (ha : 0 < mppi)
    (hu : s.queue = a :: q) : Divided [] (s.execute mppi a q) := by
  have hq : ∀ o ∈ a :: q, ∀ ba ∈ o.batch :: o.later, PathsDistinct ba := hu ▸ h.queued
  obtain ⟨ht, ho⟩ := forall_mem_cons.mp hq
  obtain ⟨hb, hl⟩ := forall_mem_cons.mp ht
  unfold ClientInteraction.execute
  simp only
  split
  · apply Divided.produce
    exact ⟨hl, ho, h.later, h.unsent, h.limited, h.sent⟩
  · refine ⟨by simp, ho, ?_, ?_, ?_, h.sent⟩
    · intro e he
      cases he
      exact hl
    · intro e he
      cases he
      rw [flatten_messages ha]
      exact hb.sublist filter_sublist
    · intro e he me hm
      cases he
      exact length_le_of_mem_messages hm

variable {b : Execution P}

/-- What happens to the messages of a batch that is executing. -/
theorem Divided.progress (h : Divided [] s) (af : Execution P)
    (hb : s.executing = some b) (hl : af.later = b.later)
    (ha : af.maxPathsPerInvoke = b.maxPathsPerInvoke) (hu : af.unsent.Sublist b.unsent)
    (se : List (Nat × Outcome D)) : Divided [] { s with executing := some af, settled := se } := by
  refine ⟨by simp, h.queued, ?_, ?_, ?_, h.sent⟩
  · intro e he
    cases he
    rw [hl]
    exact h.later b hb
  · intro e he
    cases he
    exact (h.unsent b hb).sublist (flatten_sublist hu)
  · intro e he me hm
    cases he
    rw [ha]
    exact h.limited b hb me (hu.subset hm)

variable {e : Execution P} {l o : List (Command P)}

variable {ms : Batch P}

theorem Divided.send (h : Divided [] s) (he : s.executing = some e) {ie : Nat}
    (hm : e.unsent[ie]? = some ms) :
    Divided [] { s with
      executing := some { e with
        unsent := e.unsent.eraseIdx ie
        awaiting := e.awaiting ++ [ms] }
      sent := s.sent ++ [⟨e.maxPathsPerInvoke, ms⟩] } := by
  have hmem := mem_of_getElem? hm
  have hs := h.progress { e with
      unsent := e.unsent.eraseIdx ie
      awaiting := e.awaiting ++ [ms] } he rfl rfl
    (eraseIdx_sublist _ _) s.settled
  refine ⟨by simp, hs.queued, hs.later, hs.unsent, hs.limited, ?_⟩
  intro o ho
  rcases mem_concat_cases ho with hl | rfl
  · exact h.sent o hl
  · exact ⟨(h.unsent e he).sublist (sublist_flatten_of_mem hmem), h.limited e he ms hmem⟩

variable {ev : Event P D}

theorem Divided.step [DecidableEq P] (h : Divided [] s)
    (hs : s.step ev = some t) : Divided [] t := by
  have hsm : ∀ u : ClientInteraction P D, u.queue = s.queue → u.executing = s.executing →
      u.sent = s.sent → Divided [] u := by
    intro u hq hx hn
    exact ⟨by simp, hq ▸ h.queued, hx ▸ h.later, hx ▸ h.unsent, hx ▸ h.limited, hn ▸ h.sent⟩
  cases happens_of_step hs with
  | connected _ =>
    unfold enqueue
    split <;> exact hsm _ rfl rfl rfl
  | timer _ => exact Divided.flushBatch (hsm _ rfl rfl rfl)
  | execute _ hq ha => exact h.execute ha hq
  | send he hm => exact h.send he hm
  | respond he _ =>
    refine h.progress _ he ?_ ?_ ?_ _
    exacts [rfl, rfl, List.Sublist.refl _]
  | failToSend he _ =>
    refine h.progress _ he ?_ ?_ ?_ _
    exacts [rfl, rfl, eraseIdx_sublist _ _]
  | fail he _ =>
    refine h.progress _ he ?_ ?_ ?_ _
    exacts [rfl, rfl, List.Sublist.refl _]
  | finish he _ _ =>
    apply Divided.produce
    exact ⟨h.later _ he, h.queued, by simp, by simp, by simp, h.sent⟩
  | _ => exact hsm _ rfl rfl rfl

/-! ### The order of the calls -/

/-- The commands sent and those on their way to be sent, in their order. -/
def front (s : ClientInteraction P D) : List (Command P) :=
  s.sent.flatMap (·.commands) ++ s.executing.toList.flatMap (·.unsent.flatten) ++
    s.queue.flatMap (·.batch)

/-- The commands that each flush has not passed on to the mutex yet. -/
def lines (moving : List (Batch P)) (s : ClientInteraction P D) : List (List (Command P)) :=
  s.executing.toList.map (·.later.flatten) ++ s.queue.map (·.later.flatten) ++ [moving.flatten]

def Apart (l other : List (Command P)) : Prop :=
  ∀ a ∈ l, ∀ b ∈ other, a.path ≠ b.path

/-- Along each line, up to the commands that wait for the timer, commands with the same path are in
the order of their calls. -/
structure Ordered (moving : List (Batch P)) (s : ClientInteraction P D) : Prop where
  line : ∀ l ∈ s.lines moving, (s.front ++ l ++ s.pendingCommands).Pairwise Before
  apart : (s.lines moving).Pairwise Apart
  bounded : ∀ l ∈ s.lines moving, ∀ command ∈ s.front ++ l ++ s.pendingCommands,
    command.id < s.calls
  ahead : ∀ l ∈ s.lines moving, ∀ command ∈ s.front ++ l ++ s.pendingCommands,
    ∀ call ∈ s.connecting, command.path = call.2 → command.id < call.1

/-- A batch may stand before a line that it has no path in common with. -/
theorem pairwise_insert {st bt rest : List (Command P)} (hn : (st ++ l ++ rest).Pairwise Before)
    (ht : (st ++ bt ++ rest).Pairwise Before) (hc : ∀ a ∈ bt, ∀ b ∈ l, Before a b) :
    (st ++ bt ++ l ++ rest).Pairwise Before := by
  simp only [append_assoc, pairwise_append, mem_append] at *
  obtain ⟨hs, ⟨hl, hr, hlr⟩, hsl⟩ := hn
  obtain ⟨-, ⟨hb, -, hbr⟩, hsb⟩ := ht
  refine ⟨hs, ⟨hb, ⟨hl, hr, hlr⟩, ?_⟩, ?_⟩
  · rintro a ha b (hb' | hb')
    · exact hc a ha b hb'
    · exact hbr a ha b hb'
  · rintro a ha b (hb' | hb' | hb')
    · exact hsb a ha b (.inl hb')
    · exact hsl a ha b (.inl hb')
    · exact hsl a ha b (.inr hb')

theorem pairwise_replace {st md rest : List (Command P)} (h : (st ++ md ++ rest).Pairwise Before)
    (hp : o.Perm md) (ho : o.Pairwise Before) : (st ++ o ++ rest).Pairwise Before := by
  simp only [append_assoc, pairwise_append, mem_append, hp.mem_iff] at *
  exact ⟨h.1, ⟨ho, h.2.1.2.1, h.2.1.2.2⟩, h.2.2⟩

theorem apart_nil (l : List (Command P)) : Apart l [] := by
  intro a _ b hb
  cases hb

theorem Apart.mono {part : List (Command P)} (h : Apart l o)
    (hp : ∀ cm ∈ part, cm ∈ o) : Apart l part :=
  fun a ha b hb => h a ha b (hp b hb)

/-- The lines are rearranged in order, without a new command. -/
theorem Ordered.rearrange (h : Ordered mo s)
    (hl : ∀ l ∈ t.lines m, (t.front ++ l ++ t.pendingCommands).Pairwise Before ∧
      ∀ cm ∈ t.front ++ l ++ t.pendingCommands,
        ∃ old ∈ s.lines mo, cm ∈ s.front ++ old ++ s.pendingCommands)
    (ha : (t.lines m).Pairwise Apart) (hcl : t.calls = s.calls)
    (hn : t.connecting = s.connecting) : Ordered m t := by
  refine ⟨fun l hm => (hl l hm).1, ha, ?_, ?_⟩
  · intro l hm cm hc
    obtain ⟨old, ho, hi⟩ := (hl l hm).2 cm hc
    rw [hcl]
    exact h.bounded old ho cm hi
  · intro l hm cm hc call hca
    obtain ⟨old, ho, hi⟩ := (hl l hm).2 cm hc
    rw [hn] at hca
    exact h.ahead old ho cm hi call hca

theorem Ordered.move (h : Ordered mo s) (hf : t.front.Sublist s.front)
    (hp : t.pendingCommands.Sublist s.pendingCommands)
    (hl : ∀ l ∈ t.lines m, ∃ old ∈ s.lines mo, l.Sublist old) (ha : (t.lines m).Pairwise Apart)
    (hcl : t.calls = s.calls) (hc : t.connecting = s.connecting) : Ordered m t := by
  refine h.rearrange (fun l hn => ?_) ha hcl hc
  obtain ⟨old, ho, hs⟩ := hl l hn
  have hpr := (hf.append hs).append hp
  exact ⟨(h.line old ho).sublist hpr, fun co hm => ⟨old, ho, hpr.subset hm⟩⟩

/-- The next batch of a flush takes its place after those that are on their way. -/
theorem Ordered.produce (h : Ordered bs s) : Ordered [] (s.produce bs) := by
  unfold ClientInteraction.produce
  split
  · exact h
  · next ba later =>
    have hm : (ba :: later).flatten ∈ s.lines (ba :: later) := by simp [lines]
    split
    · refine h.move (List.Sublist.refl _) (List.Sublist.refl _) ?_ ?_ rfl rfl
      · intro l hln
        rcases mem_concat_cases hln with hd | rfl
        · exact ⟨l, mem_append_left _ hd, List.Sublist.refl _⟩
        · exact ⟨_, hm, nil_sublist _⟩
      · obtain ⟨hd, _, _⟩ := pairwise_append.mp h.apart
        refine pairwise_append.mpr ⟨hd, pairwise_singleton _ _, ?_⟩
        intro l _ last hls
        obtain rfl := mem_singleton.mp hls
        exact apart_nil l
    · have hf : front { s with queue := s.queue ++ [⟨ba, later⟩] } = s.front ++ ba := by
        simp [front]
      have hl : lines [] { s with queue := s.queue ++ [⟨ba, later⟩] } =
          (s.executing.toList.map (·.later.flatten) ++
            s.queue.map (·.later.flatten)) ++ [later.flatten] ++ [[]] := by
        simp [lines]
      obtain ⟨hd, _, hcr⟩ := pairwise_append.mp h.apart
      refine h.rearrange ?_ ?_ rfl rfl
      · intro l he
        rw [hf]
        rw [hl, append_assoc, mem_append] at he
        rcases he with ho | hw
        · have hm' : l ∈ s.lines (ba :: later) := mem_append_left _ ho
          have hfr : (s.front ++ ba ++ s.pendingCommands).Sublist
              (s.front ++ (ba :: later).flatten ++ s.pendingCommands) :=
            ((List.Sublist.refl _).append (sublist_append_left _ _)).append
              (List.Sublist.refl _)
          refine ⟨pairwise_insert (h.line l hm') ((h.line _ hm).sublist hfr) ?_, ?_⟩
          · intro a ha b hb hp
            refine absurd hp.symm (hcr l ho _ mem_cons_self b hb a ?_)
            exact mem_append_left _ ha
          · intro co hc
            simp only [mem_append] at hc
            rcases hc with ((hi | hi) | hi) | hi
            · exact ⟨l, hm', by simp [hi]⟩
            · exact ⟨_, hm, by simp [hi]⟩
            · exact ⟨l, hm', by simp [hi]⟩
            · exact ⟨l, hm', by simp [hi]⟩
        · have hs : (s.front ++ ba ++ l ++ s.pendingCommands).Sublist
              (s.front ++ (ba :: later).flatten ++ s.pendingCommands) := by
            rw [append_assoc s.front]
            refine ((List.Sublist.refl _).append ?_).append (List.Sublist.refl _)
            refine (List.Sublist.refl _).append ?_
            rcases mem_cons.mp hw with rfl | hn
            · exact List.Sublist.refl _
            · obtain rfl := mem_singleton.mp hn
              exact nil_sublist _
          exact ⟨(h.line _ hm).sublist hs, fun co hc => ⟨_, hm, hs.subset hc⟩⟩
      · rw [hl]
        refine pairwise_append.mpr ⟨pairwise_append.mpr ⟨hd,
          pairwise_singleton _ _, ?_⟩, pairwise_singleton _ _, ?_⟩
        · intro l he last hls
          obtain rfl := mem_singleton.mp hls
          refine (hcr l he _ mem_cons_self).mono ?_
          intro co hc
          exact mem_append_right _ hc
        · intro l _ last hls
          obtain rfl := mem_singleton.mp hls
          exact apart_nil l

/-- The batches of a flush have no path in common with a batch that an earlier flush has not passed
on to the mutex, and a call connects after those before it with the same path. -/
def keepsOrder [DecidableEq P] (s : ClientInteraction P D) : Event P D → Bool
  | .timer =>
    (s.lines []).all (fun l => l.all (fun command =>
      s.pendingCommands.all (fun pending => command.path ≠ pending.path)))
  | .connected id =>
    s.connecting.all (fun call => s.connecting.all (fun other =>
      call.1 ≠ id || call.2 ≠ other.2 || id ≤ other.1))
  | _ => true

theorem Ordered.flushBatch [DecidableEq P] (h : Ordered [] s)
    (he : s.keepsOrder .timer) : Ordered [] s.flushBatch := by
  have hpr := partitionBatch_perm s.pendingCommands
  have hn : ([] : List (Command P)) ∈ s.lines [] := by simp [lines]
  have hq : (s.front ++ s.pendingCommands).Pairwise Before := by simpa using h.line _ hn
  obtain ⟨hf, hp, hcr⟩ := pairwise_append.mp hq
  have hw : (s.front ++ (partitionBatch s.pendingCommands).flatten).Pairwise Before := by
    refine pairwise_append.mpr ⟨hf, ordered_partitionBatch hp, ?_⟩
    intro a ha b hb
    exact hcr a ha b (hpr.mem_iff.mp hb)
  have hl : ∀ l ∈ lines (partitionBatch s.pendingCommands) { s with pendingCommands := [] },
      l ∈ s.lines [] ∨ l = (partitionBatch s.pendingCommands).flatten := by
    intro l hln
    rcases mem_append.mp hln with ho | hs
    · exact .inl (mem_append_left _ ho)
    · exact .inr (mem_singleton.mp hs)
  refine Ordered.produce (h.rearrange ?_ ?_ rfl rfl)
  · intro l hln
    rcases hl l hln with ho | rfl
    · have hpa : (s.front ++ l ++ []).Sublist (s.front ++ l ++ s.pendingCommands) :=
        (List.Sublist.refl _).append (nil_sublist _)
      exact ⟨(h.line l ho).sublist hpa, fun co hc =>
        ⟨l, ho, hpa.subset hc⟩⟩
    · -- each command of the new line was pending before
      refine ⟨by simpa [front] using hw, fun co hc => ⟨[], hn, ?_⟩⟩
      rw [append_nil] at hc ⊢
      exact (hpr.append_left s.front).mem_iff.mp hc
  · obtain ⟨ho, _, _⟩ := pairwise_append.mp h.apart
    refine pairwise_append.mpr ⟨ho, pairwise_singleton _ _, ?_⟩
    intro l hln last hs a ha b hb
    obtain rfl := mem_singleton.mp hs
    have hall := all_eq_true.mp he l (mem_append_left _ hln)
    have hc := all_eq_true.mp hall a ha
    simpa using all_eq_true.mp hc b (hpr.mem_iff.mp hb)

theorem Apart.symm (h : Apart l o) : Apart o l :=
  fun a ha b hb he => h b hb a ha he.symm

/-- The flush whose batch is through comes last among the lines. -/
theorem apart_rotate {os : List (List (Command P))}
    (h : ([l] ++ os ++ [[]]).Pairwise Apart) : (os ++ [l]).Pairwise Apart := by
  obtain ⟨hl, _, _⟩ := pairwise_append.mp h
  obtain ⟨hf, ho⟩ := pairwise_cons.mp hl
  refine pairwise_append.mpr ⟨ho, pairwise_singleton _ _, ?_⟩
  intro o ht last hs
  obtain rfl := mem_singleton.mp hs
  exact (hf o ht).symm

namespace Ordered

section
variable (h : Ordered [] s)
include h

theorem execute {mppi : Nat} (hm : 0 < mppi)
    (hi : s.executing = none) (hq : s.queue = a :: q) : Ordered [] (s.execute mppi a q) := by
  have hl : s.lines [] = [a.later.flatten] ++ q.map (·.later.flatten) ++ [[]] := by
    simp [lines, hi, hq]
  have hf : s.front = s.sent.flatMap (·.commands) ++ (a.batch ++ q.flatMap (·.batch)) := by
    simp [front, hi, hq]
  have ha := h.apart
  rw [hl] at ha
  unfold ClientInteraction.execute
  simp only
  split
  · refine produce (h.move ?_ (List.Sublist.refl _) ?_ ?_ rfl rfl)
    · rw [hf]
      simp only [front, hi, toList_none, flatMap_nil, append_nil]
      exact (List.Sublist.refl _).append (sublist_append_right _ _)
    · intro l hn
      refine ⟨l, ?_, List.Sublist.refl _⟩
      rw [hl]
      simp only [lines, hi, mem_append] at hn ⊢
      tauto
    · simpa [lines, hi] using apart_rotate ha
  · refine h.move ?_ (List.Sublist.refl _) ?_ ?_ rfl rfl
    · rw [hf]
      simp only [front, toList_some, flatMap_cons, flatten_messages hm, append_assoc]
      exact (List.Sublist.refl _).append (filter_sublist.append (List.Sublist.refl _))
    · intro l hn
      refine ⟨l, ?_, List.Sublist.refl _⟩
      rw [hl]
      simpa [lines] using hn
    · simpa [lines] using ha

/-- The messages of a batch have no path in common, so that they may be sent in any order. -/
theorem send (he : s.executing = some e) (hd : PathsDistinct e.unsent.flatten)
    {ie : Nat} (hm : e.unsent[ie]? = some ms) :
    Ordered [] { s with
      executing := some { e with
        unsent := e.unsent.eraseIdx ie
        awaiting := e.awaiting ++ [ms] }
      sent := s.sent ++ [⟨e.maxPathsPerInvoke, ms⟩] } := by
  have hp : (ms ++ (e.unsent.eraseIdx ie).flatten).Perm
      e.unsent.flatten := by
    obtain ⟨hi, rfl⟩ := List.getElem?_eq_some_iff.mp hm
    simpa using (List.getElem_cons_eraseIdx_perm hi).flatten
  have hc : (ms ++ (e.unsent.eraseIdx ie).flatten).Pairwise Before :=
    PathsDistinct.pairwise ((hp.map Command.path).nodup_iff.mpr hd)
  have hb : ∀ l : List (Command P), s.front ++ l ++ s.pendingCommands =
      s.sent.flatMap (·.commands) ++ e.unsent.flatten ++
        (s.queue.flatMap (·.batch) ++ l ++ s.pendingCommands) := by
    simp [front, he]
  have ha : ∀ l : List (Command P), front { s with
      executing := some { e with
        unsent := e.unsent.eraseIdx ie
        awaiting := e.awaiting ++ [ms] }
      sent := s.sent ++ [⟨e.maxPathsPerInvoke, ms⟩] } ++ l ++ s.pendingCommands =
      s.sent.flatMap (·.commands) ++ (ms ++ (e.unsent.eraseIdx ie).flatten) ++
        (s.queue.flatMap (·.batch) ++ l ++ s.pendingCommands) := by
    simp [front]
  refine h.rearrange ?_ (by simpa [lines, he] using h.apart) rfl rfl
  intro l hl
  have ho : l ∈ s.lines [] := by simpa [lines, he] using hl
  rw [ha]
  refine ⟨pairwise_replace (hb l ▸ h.line l ho) hp hc, ?_⟩
  intro co hcm
  refine ⟨l, ho, ?_⟩
  rw [hb]
  simpa only [mem_append, ← hp.mem_iff] using hcm

/-- A batch that loses messages or commands. -/
theorem progress (af : Execution P)
    (hb : s.executing = some b) (hl : af.later = b.later) (hu : af.unsent.Sublist b.unsent)
    (se : List (Nat × Outcome D)) : Ordered [] { s with executing := some af, settled := se } := by
  refine h.move ?_ (List.Sublist.refl _) ?_ ?_ rfl rfl
  · simp only [front, hb, toList_some, flatMap_cons, flatMap_nil, append_nil]
    exact ((List.Sublist.refl _).append (flatten_sublist hu)).append (List.Sublist.refl _)
  · intro l hn
    exact ⟨l, by simpa [lines, hb, hl] using hn, List.Sublist.refl _⟩
  · simpa [lines, hb, hl] using h.apart

theorem finish (he : s.executing = some e) : Ordered [] (s.finish e) := by
  have hl : s.lines [] = [e.later.flatten] ++ s.queue.map (·.later.flatten) ++ [[]] := by
    simp [lines, he]
  have ha := h.apart
  rw [hl] at ha
  refine produce (h.move ?_ (List.Sublist.refl _) ?_ ?_ rfl rfl)
  · simp only [front, he, toList_none, flatMap_nil, append_nil]
    exact (sublist_append_left _ _).append (List.Sublist.refl _)
  · intro l hn
    refine ⟨l, ?_, List.Sublist.refl _⟩
    rw [hl]
    simp only [lines, mem_append] at hn ⊢
    tauto
  · simpa [lines] using apart_rotate ha

theorem connecting {cl : List (Nat × P)}
    (hcl : ∀ call ∈ cl, call ∈ s.connecting) : Ordered [] { s with connecting := cl } := by
  refine ⟨h.line, h.apart, h.bounded, ?_⟩
  intro l hl co hc call ha
  exact h.ahead l hl co hc call (hcl call ha)

/-- The command of a call is queued behind those with the same path. -/
theorem enqueue {id : Nat} {path : P} (hn : id < s.calls)
    (hf : ∀ l ∈ s.lines [], ∀ cm ∈ s.front ++ l ++ s.pendingCommands, cm.path = path → cm.id < id)
    (haf : ∀ call ∈ s.connecting, path = call.2 → id < call.1) :
    Ordered [] (s.enqueue id path) := by
  unfold ClientInteraction.enqueue
  split
  · exact h
  · next cr ncr _ =>
    refine ⟨?_, h.apart, ?_, ?_⟩
    · intro l hl
      have ho := h.line l hl
      rw [← append_assoc]
      refine pairwise_append.mpr ⟨ho, pairwise_singleton _ _, ?_⟩
      intro a ha b hb
      obtain rfl := mem_singleton.mp hb
      exact hf l hl a ha
    · intro l hl cm hc
      have hc' : cm ∈ s.front ++ l ++ (s.pendingCommands ++ [⟨id, cr, path⟩]) := hc
      rw [← append_assoc, mem_append, mem_singleton] at hc'
      rcases hc' with ho | rfl
      · exact h.bounded l hl cm ho
      · exact hn
    · intro l hl cm hc call hcl hp
      have hc' : cm ∈ s.front ++ l ++ (s.pendingCommands ++ [⟨id, cr, path⟩]) := hc
      rw [← append_assoc, mem_append, mem_singleton] at hc'
      rcases hc' with ho | rfl
      · exact h.ahead l hl cm ho call hcl hp
      · exact haf call hcl hp

theorem step [DecidableEq P] (hn : Numbered s) (hd : Divided [] s)
    (hs : s.step ev = some t) (hp : s.keepsOrder ev) : Ordered [] t := by
  cases happens_of_step hs with
  | invoke =>
    refine ⟨h.line, h.apart, ?_, ?_⟩
    · intro l hl co hc
      exact Nat.lt_succ_of_lt (h.bounded l hl co hc)
    · intro l hl co hc call hcl ht
      rcases mem_concat_cases hcl with hold | rfl
      · exact h.ahead l hl co hc call hold ht
      · exact h.bounded l hl co hc
  | @connected call hcl =>
    have hrs : Ordered [] { s with
        connecting := s.connecting.filter (·.1 ≠ call.1) } :=
      h.connecting (fun o ho => (mem_filter.mp ho).1)
    refine hrs.enqueue ?_ ?_ ?_
    · exact hn.bounded call.1
        (mem_append_left _ (mem_map_of_mem hcl))
    · intro l hl co hc ht
      exact h.ahead l hl co hc call hcl ht
    · intro o ho ht
      obtain ⟨hmem, hne⟩ := mem_filter.mp ho
      have hall := all_eq_true.mp (all_eq_true.mp hp call hcl) o hmem
      have hle : call.1 ≤ o.1 := by simpa [ht] using hall
      exact Nat.lt_of_le_of_ne hle (Ne.symm (by simpa using hne))
  | connectionFailed => exact h.connecting (fun o ho => (mem_filter.mp ho).1)
  | timer _ =>
    have hsm : Ordered [] { s with timerRunning := false } :=
      ⟨h.line, h.apart, h.bounded, h.ahead⟩
    exact hsm.flushBatch hp
  | execute hi hq ha => exact h.execute ha hi hq
  | send he hm => exact h.send he (hd.unsent _ he) hm
  | respond he _ =>
    refine h.progress _ he ?_ ?_ _
    exacts [rfl, List.Sublist.refl _]
  | failToSend he _ =>
    refine h.progress _ he ?_ ?_ _
    exacts [rfl, eraseIdx_sublist _ _]
  | fail he _ =>
    refine h.progress _ he ?_ ?_ _
    exacts [rfl, List.Sublist.refl _]
  | finish he _ _ => exact h.finish he
  | abort _ =>
    exact h.move (List.Sublist.refl _) filter_sublist
      (fun l hl => ⟨l, hl, List.Sublist.refl _⟩) h.apart rfl rfl
  | close =>
    exact h.move (List.Sublist.refl _) (nil_sublist _)
      (fun l hl => ⟨l, hl, List.Sublist.refl _⟩) h.apart rfl rfl

end

end Ordered

/-! ### The runs of a client -/

/-- The condition on an event: it neither mixes up the order of the calls nor removes a command that
has the ref of an aborted one. -/
def keeps [DecidableEq P] (s : ClientInteraction P D) (event : Event P D) : Bool :=
  s.keepsOrder event && s.keepsRef event

theorem accounted_initial : Accounted [] (initial : ClientInteraction P D) := by
  refine ⟨⟨by simp [initial, settledIds], by simp [initial]⟩, by simp [initial], ?_, ?_,
    by simp [initial], by simp [initial], by simp [initial]⟩
  · intro group hg co hc
    simp only [held, initial, toList_none, flatMap_nil, append_nil, mem_singleton] at hg
    simp [hg] at hc
  · intro group hg
    simp only [held, initial, toList_none, flatMap_nil, append_nil, mem_singleton] at hg
    rw [hg]
    exact nodup_nil

theorem ordered_initial : Ordered [] (initial : ClientInteraction P D) := by
  refine ⟨?_, ?_, ?_, ?_⟩ <;> simp [initial, lines, front]

/-- All that is known of a client along its runs. -/
structure Invariant (s : ClientInteraction P D) : Prop where
  accounted : Accounted [] s
  numbered : Numbered s
  divided : Divided [] s
  ordered : Ordered [] s

variable [DecidableEq P] {es : List (Event P D)}

theorem invariant_run (hu : Run (guarded step (·.keeps ·)) initial es s) : Invariant s := by
  refine run_invariant (I := Invariant) ?_ hu ?_
  · intro s ev t hs h
    obtain ⟨he, hs⟩ := guarded_eq_some.mp hs
    obtain ⟨ho, hf⟩ := Bool.and_eq_true_iff.mp he
    exact ⟨h.accounted.step hs hf, h.numbered.step hs, h.divided.step hs,
      h.ordered.step h.numbered h.divided hs ho⟩
  · refine ⟨accounted_initial, ⟨by simp [initial], by simp [initial]⟩, ?_, ordered_initial⟩
    exact ⟨by simp, by simp [initial], by simp [initial], by simp [initial], by simp [initial],
      by simp [initial]⟩

theorem accounted_internal_run (h : Accounted [] s) (hu : Run internalStep s es t) :
    Accounted [] t := by
  refine run_invariant (I := Accounted []) ?_ hu h
  intro s event t hs h
  unfold internalStep at hs
  split at hs
  · next hi =>
    refine h.step hs ?_
    cases event <;> first | rfl | cases hi
  · cases hs

end ClientInteraction

open ClientInteraction

/-- Every command settles once, with the response that carries its ref or with an error: the events
of the batches end, and then all have settled. No message has a path twice or more paths than the
peer takes, and commands with the same path are sent in the order of their calls. -/
theorem batched_commands_settle_in_order {P D : Type} [DecidableEq P] {events : List (Event P D)}
    {s : ClientInteraction P D}
    (hrun : Run (guarded step (·.keeps ·)) initial events s) :
    (s.commands.map (·.id)).Nodup ∧ (settledIds s.settled).Nodup ∧
    (∀ entry ∈ s.settled, ∃ command ∈ s.commands, command.id = entry.1 ∧ Carries command entry.2) ∧
    (∀ rest t, Run internalStep s rest t → rest.length ≤ s.weight ∧
      ((∀ event, internalStep t event = none) →
        ∀ command ∈ t.commands, command.id ∈ settledIds t.settled)) ∧
    (∀ message ∈ s.sent, PathsDistinct message.commands ∧
      message.commands.length ≤ message.maxPathsPerInvoke) ∧
    (s.sent.flatMap (·.commands)).Pairwise Before := by
  have h := invariant_run hrun
  refine ⟨?_, h.accounted.ledger.once, h.accounted.ledger.own, ?_, h.divided.sent, ?_⟩
  · exact (nodup_append.mp h.numbered.distinct).2.1
  · intro rest t hi
    refine ⟨length_internal_run hi, ?_⟩
    intro hd command hc
    exact (accounted_internal_run h.accounted hi).all_settled hd hc
  · have hl := h.ordered.line [] (by simp [lines])
    refine hl.sublist ?_
    simp only [front, append_assoc]
    exact sublist_append_left _ _

/-- Three commands with the same path, the third of which is flushed when the first has been
answered. -/
theorem batched_commands_settle_in_order_three :
    ∃ s : ClientInteraction Nat Nat, (s.sent.flatMap (·.commands)).map (·.id) = [0, 1, 2] ∧
      (s.sent.flatMap (·.commands)).Pairwise Before := by
  obtain ⟨s, he, hs⟩ : ∃ s : ClientInteraction Nat Nat,
      exec (guarded step (·.keeps ·)) initial
        [.invoke 7, .invoke 7, .connected 0, .connected 1, .timer, .execute 2, .send 0,
          .respond 0 [.status none 0], .finish, .invoke 7, .connected 2, .timer, .execute 2,
          .send 0, .fail 0, .finish, .execute 2, .send 0] = some s ∧
        (s.sent.flatMap (·.commands)).map (·.id) = [0, 1, 2] := ⟨_, rfl, by decide⟩
  exact ⟨s, hs, (batched_commands_settle_in_order (run_of_exec he)).2.2.2.2.2⟩

/-- The third command is flushed while the first is executing, and it is sent before the second,
which the first flush passes on to the mutex only then. -/
theorem later_flush_overtakes : ∃ s : ClientInteraction Nat Nat, exec step initial
        [.invoke 7, .invoke 7, .connected 0, .connected 1, .timer, .execute 2, .send 0, .invoke 7,
          .connected 2, .timer, .respond 0 [.status none 0], .finish, .execute 2, .send 0,
          .respond 0 [.status none 0], .finish, .execute 2, .send 0] = some s ∧
      (s.sent.flatMap (·.commands)).map (fun command => (command.id, command.path)) =
        [(0, 7), (2, 7), (1, 7)] :=
  ⟨_, rfl, by decide⟩

end MatterJs.Client
