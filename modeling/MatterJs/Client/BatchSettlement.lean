import MatterJs.Client.CommandBatching
import MatterJs.Foundation.TransitionSystem
import Mathlib.Data.List.Induction

/-!
# Every batched command settles

A command that was queued is settled or held in one of the places where the client keeps commands,
and it settles with the response that carries its ref, or with an error. The events that do not come
from a caller lower a measure, so that they end, and they end only when everything has settled.
-/
namespace MatterJs.Client

open TransitionSystem IndexedList List

variable {P D : Type} {w : List (Nat × Outcome D)} {k : List (Command P)}
  {id : Nat} {ot : Outcome D}

/-- An outcome that belongs to a command. -/
def Carries (command : Command P) (outcome : Outcome D) : Prop :=
  outcome = .rejected ∨
    ∃ entry, outcome = .resolved (some entry) ∧ entry.commandRef = some command.commandRef

def settledIds (w : List (Nat × Outcome D)) : List Nat :=
  w.map Prod.fst

/-- Each promise settled once, with an outcome that belongs to its command. -/
structure Ledger (k : List (Command P)) (w : List (Nat × Outcome D)) : Prop where
  once : (settledIds w).Nodup
  own : ∀ entry ∈ w, ∃ command ∈ k, command.id = entry.1 ∧ Carries command entry.2

/-! ### Settling -/

theorem mem_settle {o : Nat} : o ∈ settledIds (settle w id ot) ↔ o ∈ settledIds w ∨ o = id := by
  unfold settle settledIds
  split
  · next h =>
    have hi : id ∈ w.map Prod.fst := by simpa using h
    constructor
    · exact .inl
    · rintro (ho | rfl)
      · exact ho
      · exact hi
  · simp

variable {c : Command P}

theorem Ledger.settle (h : Ledger k w)
    (hc : c ∈ k) (hi : c.id = id) (hcr : Carries c ot) : Ledger k (settle w id ot) := by
  unfold MatterJs.Client.settle
  split
  · exact h
  · next hn =>
    refine ⟨?_, ?_⟩
    · rw [settledIds, map_append, nodup_append]
      refine ⟨h.once, by simp, ?_⟩
      intro other ho l hs
      simp only [map_cons, map_nil, mem_singleton] at hs
      rintro rfl
      exact hn (by simpa [hs] using ho)
    · intro entry he
      rcases mem_concat_cases he with hl | rfl
      · exact h.own entry hl
      · exact ⟨c, hc, hi, hcr⟩

theorem Ledger.mono {m : List (Command P)} (h : Ledger k w)
    (hm : ∀ c ∈ k, c ∈ m) : Ledger m w := by
  refine ⟨h.once, ?_⟩
  intro entry he
  obtain ⟨c, hc, hs⟩ := h.own entry he
  exact ⟨c, hm c hc, hs⟩

variable {g ms : Batch P} {mi : Nat}

theorem mem_settleAll {other : Nat} : other ∈ settledIds (settleAll w g ot) ↔
      other ∈ settledIds w ∨ ∃ c ∈ g, c.id = other := by
  induction g generalizing w with
  | nil => simp [settleAll]
  | cons c g ih =>
    rw [settleAll, foldl_cons, ← settleAll, ih, mem_settle]
    simp only [mem_cons, exists_eq_or_imp]
    tauto

theorem Ledger.settleAll (h : Ledger k w) (hg : ∀ c ∈ g, c ∈ k)
    (hc : ∀ c ∈ g, Carries c ot) : Ledger k (settleAll w g ot) := by
  induction g generalizing w with
  | nil => exact h
  | cons c g ih =>
    obtain ⟨hm, hs⟩ := forall_mem_cons.mp hg
    obtain ⟨hw, ho⟩ := forall_mem_cons.mp hc
    exact ih (h.settle hm rfl hw) hs ho

/-! ### Delivery of a response -/

/-- The refs of a group of commands are distinct, as they are the keys of a map. -/
def Keyed (g : List (Command P)) : Prop :=
  (g.map (·.commandRef)).Nodup

theorem Keyed.sublist {part : List (Command P)} (h : Keyed g) (hp : part.Sublist g) :
    Keyed part :=
  List.Nodup.sublist (hp.map _) h

theorem Keyed.eq (h : Keyed g) {a b : Command P} (ha : a ∈ g)
    (hb : b ∈ g) (hab : a.commandRef = b.commandRef) : a = b :=
  inj_on_of_nodup_map h ha hb hab

/-- What the delivery of entries leaves. -/
structure Delivered (k : List (Command P)) (g : Batch P) (entries : List (Entry D))
    (w : List (Nat × Outcome D)) (result : List (Nat × Outcome D) × Batch P) : Prop where
  ledger : Ledger k result.1
  kept : ∀ id ∈ settledIds w, id ∈ settledIds result.1
  part : result.2.Sublist g
  rest : ∀ command ∈ g, command ∈ result.2 ∨ command.id ∈ settledIds result.1
  unanswered : ∀ command ∈ result.2, ∀ entry ∈ entries, entry.commandRef ≠ some command.commandRef

theorem delivered {a : List Nat} (e : List (Entry D)) (hd : Ledger k w)
    (hg : ∀ c ∈ g, c ∈ k) (hy : Keyed g) (ha : ∀ id ∈ a, id ∈ settledIds w) :
    Delivered k g e w (deliver a w g e) := by
  induction e generalizing w g with
  | nil =>
    exact ⟨hd, fun _ h => h, List.Sublist.refl _, fun _ h => .inl h, by simp⟩
  | cons entry e ih =>
    unfold deliver
    split
    · next hnn =>
      obtain ⟨hl, hk, hp, hr, hu⟩ := ih hd hg hy ha
      refine ⟨hl, hk, hp, hr, ?_⟩
      intro c hc
      refine forall_mem_cons.mpr ⟨?_, hu c hc⟩
      have := find?_eq_none.mp hnn c (hp.subset hc)
      simpa [eq_comm] using this
    · next found hn =>
      have hm := mem_of_find?_eq_some hn
      have he : some found.commandRef = entry.commandRef := by
        simpa using find?_some hn
      -- the entry's command is settled, by it or by an abort before
      have hs : ∃ next, next = (if a.contains found.id then w
          else settle w found.id (.resolved (some entry))) ∧ Ledger k next ∧
          found.id ∈ settledIds next ∧ ∀ id ∈ settledIds w, id ∈ settledIds next := by
        refine ⟨_, rfl, ?_⟩
        split
        · next hb => exact ⟨hd, ha _ (by simpa using hb), fun _ h => h⟩
        · refine ⟨hd.settle (hg _ hm) rfl (.inr ⟨entry, rfl, he.symm⟩), ?_, ?_⟩
          · exact mem_settle.mpr (.inr rfl)
          · intro id hi
            exact mem_settle.mpr (.inl hi)
      obtain ⟨next, hx, hl', hf, hkp⟩ := hs
      rw [← hx]
      have hpr : (g.filter (·.commandRef ≠ found.commandRef)).Sublist
          g := filter_sublist
      obtain ⟨hl, hk, hp, hr, hu⟩ := ih hl' (fun c h => hg _ (hpr.subset h))
        (hy.sublist hpr) (fun id hi => hkp id (ha id hi))
      refine ⟨hl, fun id hi => hk id (hkp id hi), hp.trans hpr, ?_, ?_⟩
      · intro c hc
        by_cases hsm : c.commandRef = found.commandRef
        · obtain rfl := hy.eq hc hm hsm
          exact .inr (hk _ hf)
        · exact hr c (mem_filter.mpr ⟨hc, by simpa using hsm⟩)
      · intro c hc
        refine forall_mem_cons.mpr ⟨?_, hu c hc⟩
        have hne := (mem_filter.mp (hp.subset hc)).2
        rw [← he]
        intro hq
        simp [Option.some.inj hq] at hne

variable {cs : List (Command P)}

theorem exists_entry_invokeSingle (rs : List (Response D)) (h : c ∈ ms) :
    ∃ e ∈ invokeSingle ms rs, e.commandRef = some c.commandRef := by
  by_cases he : ((responseEntries ms rs).map (·.commandRef)).contains
      (some c.commandRef)
  · obtain ⟨e, hm, hf⟩ := mem_map.mp (by simpa using he)
    exact ⟨e, mem_append_left _ hm, hf⟩
  · refine ⟨⟨some c.commandRef, .status noCommandResponse⟩,
      mem_append_right _ (mem_filterMap.mpr ⟨c, h, ?_⟩), rfl⟩
    simp only [he]
    rfl

theorem allocateLoop_not_mem {used : List Nat} {r rs ref c n : Nat}
    (h : allocateLoop used r rs ref = some (c, n)) : c ∉ used := by
  induction rs generalizing ref with
  | zero => cases h
  | succ rs ih =>
    simp only [allocateLoop] at h
    generalize (if ref ≥ maxCommandRef then 1 else ref + 1) = following at h
    split at h
    · next hfree =>
      obtain ⟨rfl, _⟩ := Prod.mk.inj (Option.some.inj h)
      simpa using hfree
    · split at h
      · cases h
      · exact ih h

/-! ### The batches of a flush -/

section Partition

variable [DecidableEq P]

theorem place_perm (c : Command P) (bs : List (Batch P)) :
    (place c bs).flatten.Perm (bs.flatten ++ [c]) := by
  induction bs with
  | nil => exact List.Perm.refl _
  | cons batch bs ih =>
    unfold place
    split
    · simpa using List.Perm.append_left batch ih
    · simpa using List.Perm.append_left batch (perm_append_singleton c _).symm

/-- The batches have the commands of the queue between them. -/
theorem partitionBatch_perm (cs : List (Command P)) : (partitionBatch cs).flatten.Perm cs := by
  induction cs using List.reverseRecOn with
  | nil => exact List.Perm.refl _
  | append_singleton cs c ih =>
    rw [partitionBatch, foldl_append, foldl_cons, foldl_nil, ← partitionBatch]
    exact (place_perm c _).trans (List.Perm.append_right _ ih)

theorem keyed_of_mem_partitionBatch (h : Keyed cs) {batch : Batch P}
    (hb : batch ∈ partitionBatch cs) : Keyed batch := by
  have ha : Keyed (partitionBatch cs).flatten :=
    ((partitionBatch_perm cs).map Command.commandRef).nodup_iff.mpr h
  exact ha.sublist (sublist_flatten_of_mem hb)

theorem mem_partitionBatch : (∃ b ∈ partitionBatch cs, c ∈ b) ↔ c ∈ cs := by
  rw [← (partitionBatch_perm cs).mem_iff, mem_flatten]

end Partition

/-! ### The slices of a batch -/

theorem flatten_slices (hm : 0 < mi) (f : Nat)
    (g : Batch P) (hf : g.length ≤ f) : (slices mi f g).flatten = g := by
  induction f generalizing g with
  | zero =>
    obtain rfl := length_eq_zero_iff.mp (Nat.le_zero.mp hf)
    rfl
  | succ f ih =>
    cases g with
    | nil => rfl
    | cons c g =>
      rw [slices, flatten_cons, ih, take_append_drop]
      · rw [length_drop]
        omega
      · simp

theorem flatten_messages (hm : 0 < mi) (g : Batch P) : (messages mi g).flatten = g := by
  unfold messages
  split
  · exact flatten_slices hm _ g (Nat.le_refl _)
  · simp

theorem length_le_of_mem_slices {f : Nat} (h : ms ∈ slices mi f g) : ms.length ≤ mi := by
  induction f generalizing g with
  | zero => simp [slices] at h
  | succ f ih =>
    cases g with
    | nil => simp [slices] at h
    | cons c g =>
      rw [slices] at h
      · rcases mem_cons.mp h with rfl | h
        · exact length_take_le _ _
        · exact ih h
      · simp

theorem length_le_of_mem_messages (h : ms ∈ messages mi g) : ms.length ≤ mi := by
  unfold messages at h
  split at h
  · exact length_le_of_mem_slices h
  · next hl =>
    obtain rfl := mem_singleton.mp h
    omega

theorem length_slices_le (hm : 0 < mi) (f : Nat)
    (g : Batch P) : (slices mi f g).length ≤ g.length := by
  induction f generalizing g with
  | zero => simp [slices]
  | succ f ih =>
    cases g with
    | nil => simp [slices]
    | cons c g =>
      rw [slices, length_cons]
      · have hs := ih ((c :: g).drop mi)
        rw [length_drop] at hs
        simp only [length_cons] at hs ⊢
        omega
      · simp

/-! ### The places where commands are held -/

namespace ClientInteraction

/-- The groups of commands that the client holds. -/
def held (s : ClientInteraction P D) : List (Batch P) :=
  s.pendingCommands ::
    (s.executing.toList.flatMap (fun execution => execution.commands :: execution.later) ++
      s.queue.flatMap (fun task => task.batch :: task.later))

/-- The account of the commands, with further groups that are being moved. -/
structure Accounted (moving : List (Batch P)) (s : ClientInteraction P D) : Prop where
  ledger : Ledger s.commands s.settled
  aborted : ∀ id ∈ s.aborted, id ∈ settledIds s.settled
  known : ∀ g ∈ s.held ++ moving, ∀ command ∈ g, command ∈ s.commands
  keyed : ∀ g ∈ s.held ++ moving, Keyed g
  placed : ∀ command ∈ s.commands,
    command.id ∈ settledIds s.settled ∨ ∃ g ∈ s.held ++ moving, command ∈ g
  /-- A command that was not answered waits for a message, or one failed. -/
  answered : ∀ execution, s.executing = some execution → execution.failed = false →
    ∀ command ∈ execution.commands, ∃ message ∈ execution.unsent ++ execution.awaiting,
      command ∈ message
  timer : s.pendingCommands ≠ [] → s.timerRunning

variable {s : ClientInteraction P D}

/-- A group that consists of commands of another. -/
def Part (part g : Batch P) : Prop :=
  (∀ command ∈ part, command ∈ g) ∧ (Keyed g → Keyed part)

theorem Part.refl (g : Batch P) : Part g g :=
  ⟨fun _ h => h, fun h => h⟩

theorem Part.of_sublist {part g : Batch P} (h : part.Sublist g) : Part part g :=
  ⟨fun _ hm => h.subset hm, fun hk => hk.sublist h⟩

/-- A step of the client regroups commands, and settles those it no longer holds. -/
structure Regroups (s t : ClientInteraction P D) (moving moved : List (Batch P)) : Prop where
  commands : t.commands = s.commands
  ledger : Ledger s.commands s.settled → Ledger s.commands t.settled
  kept : ∀ id ∈ settledIds s.settled, id ∈ settledIds t.settled
  parts : ∀ g ∈ t.held ++ moved, ∃ old ∈ s.held ++ moving, Part g old
  places : ∀ g ∈ s.held ++ moving, ∀ command ∈ g,
    command.id ∈ settledIds t.settled ∨ ∃ new ∈ t.held ++ moved, command ∈ new

variable {t : ClientInteraction P D} {m b : List (Batch P)}

theorem mem_held_of_executing {e : Execution P} (h : s.executing = some e) (g : Batch P) :
    g ∈ s.held ++ [] ↔ g ∈ [e.commands] ∨ g ∈ s.pendingCommands ::
      (e.later ++ s.queue.flatMap (fun a => a.batch :: a.later)) := by
  simp only [held, h, Option.toList_some, flatMap_cons, mem_cons, mem_append]
  tauto

theorem mem_held_of_idle (h : s.executing = none) (g : Batch P) :
    g ∈ s.held ++ b ↔ g ∈ [] ∨ g ∈ s.pendingCommands ::
      (b ++ s.queue.flatMap (fun a => a.batch :: a.later)) := by
  simp only [held, h, mem_append, mem_cons]
  tauto

theorem Accounted.regroup (h : Accounted m s) (hr : Regroups s t m b)
    (hb : ∀ id ∈ t.aborted, id ∈ s.aborted ∨ id ∈ settledIds t.settled)
    (ha : ∀ x, t.executing = some x → x.failed = false →
      ∀ c ∈ x.commands, ∃ ms ∈ x.unsent ++ x.awaiting, c ∈ ms)
    (ht : t.pendingCommands ≠ [] → t.timerRunning) : Accounted b t where
  ledger := hr.commands ▸ hr.ledger h.ledger
  aborted := by
    intro id hi
    rcases hb id hi with ho | hn
    · exact hr.kept id (h.aborted id ho)
    · exact hn
  known := by
    intro g hg c hc
    obtain ⟨o, ho, hp⟩ := hr.parts g hg
    rw [hr.commands]
    exact h.known o ho c (hp.1 c hc)
  keyed := by
    intro g hg
    obtain ⟨o, ho, hp⟩ := hr.parts g hg
    exact hp.2 (h.keyed o ho)
  placed := by
    intro c hc
    rw [hr.commands] at hc
    rcases h.placed c hc with hs | ⟨g, hg, hm⟩
    · exact .inl (hr.kept _ hs)
    · exact hr.places g hg c hm
  answered := ha
  timer := ht

/-- A command that is filtered out was aborted, so it has settled. -/
theorem Accounted.remaining (h : Accounted m s) (hm : c ∈ g) :
    c.id ∈ settledIds s.settled ∨ c ∈ g.filter (fun c => !s.aborted.contains c.id) := by
  by_cases ha : c.id ∈ s.aborted
  · exact .inl (h.aborted _ ha)
  · exact .inr (mem_filter.mpr ⟨hm, by simpa using ha⟩)

/-- Some groups take the place of others. -/
theorem Regroups.replace (o n rest : List (Batch P)) (hc : t.commands = s.commands)
    (hl : Ledger s.commands s.settled → Ledger s.commands t.settled)
    (hkp : ∀ id ∈ settledIds s.settled, id ∈ settledIds t.settled)
    (hs : ∀ g, g ∈ s.held ++ m ↔ g ∈ o ∨ g ∈ rest)
    (ht : ∀ g, g ∈ t.held ++ b ↔ g ∈ n ∨ g ∈ rest)
    (hpr : ∀ g ∈ n, ∃ l ∈ o, Part g l) (hp : ∀ g ∈ o, ∀ c ∈ g,
      c.id ∈ settledIds t.settled ∨ ∃ new ∈ n, c ∈ new) : Regroups s t m b := by
  refine ⟨hc, hl, hkp, ?_, ?_⟩
  · intro g hg
    rcases (ht g).mp hg with hn | hrs
    · obtain ⟨l, ho, ha⟩ := hpr g hn
      exact ⟨l, (hs l).mpr (.inl ho), ha⟩
    · exact ⟨g, (hs g).mpr (.inr hrs), Part.refl g⟩
  · intro g hg c hm
    rcases (hs g).mp hg with ho | hrs
    · exact (hp g ho c hm).imp_right fun ⟨new, hn, hi⟩ =>
        ⟨new, (ht new).mpr (.inl hn), hi⟩
    · exact .inr ⟨g, (ht g).mpr (.inr hrs), hm⟩

section Steps

namespace Accounted

theorem produce {bs : List (Batch P)} (h : Accounted bs s) : Accounted [] (s.produce bs) := by
  unfold ClientInteraction.produce
  split
  · exact h
  · next batch later =>
    split
    · -- the mutex is closed: the batches are rejected
      refine h.regroup (.replace (batch :: later) [] s.held rfl ?_
        (fun id hi => mem_settleAll.mpr (.inl hi)) ?_ ?_ (by simp) ?_)
        (fun id hi => .inl hi) h.answered h.timer
      · intro hl
        refine hl.settleAll ?_ (fun c _ => .inl rfl)
        intro c hc
        obtain ⟨g, hg, hm⟩ := mem_flatten.mp hc
        exact h.known g (mem_append_right _ hg) c hm
      · intro g
        rw [mem_append, or_comm]
      · simp [held]
      · intro g hg c hm
        exact .inl (mem_settleAll.mpr (.inr ⟨c, mem_flatten.mpr ⟨g, hg, hm⟩, rfl⟩))
    · refine h.regroup (.replace [] [] (s.held ++ batch :: later) rfl id (fun _ hi => hi)
        (by simp) ?_ (by simp) (by simp)) (fun id hi => .inl hi) h.answered
        h.timer
      simp [held]

section
variable (h : Accounted [] s)
include h

theorem flushBatch [DecidableEq P] : Accounted [] { s with timerRunning := false }.flushBatch := by
  refine produce ?_
  refine h.regroup (.replace [s.pendingCommands] ([] :: partitionBatch s.pendingCommands)
    s.held.tail rfl id (fun _ hi => hi) (by simp [held]) ?_ ?_ ?_) (fun id hi => .inl hi)
    h.answered (fun hn => absurd rfl hn)
  · intro g
    simp only [held, tail_cons, mem_append, mem_cons]
    tauto
  · refine forall_mem_cons.mpr ⟨⟨_, mem_cons_self, Part.of_sublist (nil_sublist _)⟩, ?_⟩
    intro g hb
    refine ⟨_, mem_cons_self, ?_, fun hk => keyed_of_mem_partitionBatch hk hb⟩
    exact fun c hm => mem_partitionBatch.mp ⟨g, hb, hm⟩
  · intro g hg c hm
    obtain rfl := mem_singleton.mp hg
    obtain ⟨batch, hb, hc⟩ := mem_partitionBatch.mpr hm
    exact .inr ⟨batch, mem_cons_of_mem _ hb, hc⟩

theorem enqueue (n : Nat) (path : P) : Accounted [] (s.enqueue n path) := by
  unfold ClientInteraction.enqueue
  split
  · exact h
  · next r nc ha =>
    have hf := allocateLoop_not_mem ha
    have hh : ∀ g ∈ s.held, g = s.pendingCommands ∨
        g ∈ (s.executing.toList.flatMap (fun x => x.commands :: x.later) ++
          s.queue.flatMap (fun a => a.batch :: a.later)) :=
      fun g hg => mem_cons.mp hg
    refine ⟨?_, h.aborted, ?_, ?_, ?_, h.answered, fun _ => rfl⟩
    · exact h.ledger.mono (fun c hm => mem_append_left _ hm)
    · intro g hg c hc
      rw [append_nil] at hg
      rcases mem_cons.mp hg with rfl | ho
      · rcases mem_append.mp hc with hl | hn
        · exact mem_append_left _ (h.known _ (by simp [held]) c hl)
        · exact mem_append_right _ hn
      · exact mem_append_left _ (h.known g (mem_append_left _ (mem_cons_of_mem _ ho)) c hc)
    · intro g hg
      rw [append_nil] at hg
      rcases mem_cons.mp hg with rfl | ho
      · have hp : Keyed s.pendingCommands := h.keyed _ (by simp [held])
        unfold Keyed
        rw [map_append, nodup_append]
        refine ⟨hp, by simp, ?_⟩
        intro ref he other ho
        simp only [map_cons, map_nil, mem_singleton] at ho
        rintro rfl
        exact hf (ho ▸ he)
      · exact h.keyed g (mem_append_left _ (mem_cons_of_mem _ ho))
    · intro c hc
      rcases mem_append.mp hc with hl | hn
      · rcases h.placed c hl with hs | ⟨g, hg, hm⟩
        · exact .inl hs
        · rw [append_nil] at hg
          rcases hh g hg with rfl | ho
          · exact .inr ⟨s.pendingCommands ++ [⟨n, r, path⟩], by simp [held], mem_append_left _ hm⟩
          · exact .inr ⟨g, mem_append_left _ (mem_cons_of_mem _ ho), hm⟩
      · exact .inr ⟨s.pendingCommands ++ [⟨n, r, path⟩], by simp [held], mem_append_right _ hn⟩

theorem execute {mi : Nat} (ha : 0 < mi) {a : Task P} {q : List (Task P)}
    (hi : s.executing = none) (hq : s.queue = a :: q) : Accounted [] (s.execute mi a q) := by
  let rest := s.pendingCommands :: (a.later ++ q.flatMap (fun a => a.batch :: a.later))
  have hh : ∀ g, g ∈ s.held ++ [] ↔ g ∈ [a.batch] ∨ g ∈ rest := by
    simp only [mem_held_of_idle hi, hq, rest, nil_append, flatMap_cons,
      cons_append, mem_cons]
    tauto
  unfold ClientInteraction.execute
  simp only
  split
  · next hem =>
    refine produce (h.regroup (.replace [a.batch] [] rest rfl id (fun _ hd => hd)
      hh (mem_held_of_idle hi) (by simp) ?_) (fun id hd => .inl hd) h.answered h.timer)
    · intro g hg c hmem
      obtain rfl := mem_singleton.mp hg
      refine .inl ((h.remaining hmem).resolve_right ?_)
      rw [List.isEmpty_iff.mp hem]
      exact not_mem_nil
  · refine h.regroup (.replace [a.batch]
      [a.batch.filter (fun c => !s.aborted.contains c.id)] rest rfl id
      (fun _ hd => hd) hh (mem_held_of_executing (e := ⟨_, _, _, _, _, _⟩) rfl) ?_ ?_)
      (fun id hd => .inl hd) ?_ h.timer
    · intro g hg
      obtain rfl := mem_singleton.mp hg
      exact ⟨_, mem_cons_self, Part.of_sublist filter_sublist⟩
    · intro g hg c hmem
      obtain rfl := mem_singleton.mp hg
      exact (h.remaining hmem).imp_right fun hf => ⟨_, mem_cons_self, hf⟩
    · intro x he _ c hmem
      cases he
      have hl := flatten_messages ha
        (a.batch.filter (fun c => !s.aborted.contains c.id))
      rw [← hl] at hmem
      obtain ⟨m, hm, hn⟩ := mem_flatten.mp hmem
      exact ⟨m, by simpa using hm, hn⟩

/-- Moving the messages of a batch on leaves the commands where they are. -/
theorem progress {b : Execution P} (f : Execution P)
    (hb : s.executing = some b) (hc : f.commands = b.commands)
    (hl : f.later = b.later) (sent : List (Message P))
    (ha : f.failed = false → ∀ c ∈ f.commands, ∃ ms ∈ f.unsent ++ f.awaiting, c ∈ ms) :
    Accounted [] { s with executing := some f, sent := sent } := by
  refine h.regroup (.replace [] [] s.held rfl id (fun _ hi => hi) (by simp) ?_
    (by simp) (by simp)) (fun id hi => .inl hi) ?_ h.timer
  · simp [held, hb, hc, hl]
  · intro x he
    cases he
    exact ha

end

end Accounted

variable {i : Nat} {x : Execution P}

theorem mem_eraseIdx_or {α : Type} {list : List α} {a b : α} (h : a ∈ list)
    (hb : list[i]? = some b) : a = b ∨ a ∈ list.eraseIdx i := by
  obtain ⟨j, hj, rfl⟩ := getElem_of_mem h
  by_cases hs : j = i
  · subst hs
    left
    rw [getElem?_eq_getElem hj] at hb
    exact Option.some.inj hb
  · right
    exact mem_eraseIdx_iff_getElem.mpr ⟨j, hj, hs, rfl⟩

namespace Accounted

section
variable (h : Accounted [] s)
include h

section
variable (he : s.executing = some x)
include he

theorem send (hm : x.unsent[i]? = some ms) (sent : List (Message P)) :
    Accounted [] { s with
      executing := some { x with
        unsent := x.unsent.eraseIdx i
        awaiting := x.awaiting ++ [ms] }
      sent := sent } := by
  refine h.progress _ he ?_ ?_ sent ?_
  · rfl
  · rfl
  intro hf c hc
  obtain ⟨other, ho, hmem⟩ := h.answered x he hf c hc
  rcases mem_append.mp ho with hu | ha
  · rcases mem_eraseIdx_or hu hm with rfl | hl
    · exact ⟨other, by simp, hmem⟩
    · exact ⟨other, mem_append_left _ hl, hmem⟩
  · exact ⟨other, by simp [ha], hmem⟩

theorem respond (hm : x.awaiting[i]? = some ms) (rs : List (Response D)) :
    Accounted [] { s with
      settled := (deliver s.aborted s.settled x.commands
        (invokeSingle ms rs)).1
      executing := some { x with
        commands := (deliver s.aborted s.settled x.commands
          (invokeSingle ms rs)).2
        awaiting := x.awaiting.eraseIdx i } } := by
  have hg : x.commands ∈ s.held ++ [] := by simp [held, he]
  have hd := delivered (invokeSingle ms rs) h.ledger (h.known _ hg)
    (h.keyed _ hg) h.aborted
  refine h.regroup (.replace [x.commands]
    [(deliver s.aborted s.settled x.commands (invokeSingle ms rs)).2]
    _ rfl (fun _ => hd.ledger) hd.kept (mem_held_of_executing he)
    (mem_held_of_executing (e := ⟨_, _, _, _, _, _⟩) rfl) ?_ ?_) (fun id hi => .inl hi) ?_ h.timer
  · intro g hn
    obtain rfl := mem_singleton.mp hn
    exact ⟨_, mem_cons_self, Part.of_sublist hd.part⟩
  · intro g hl c hc
    obtain rfl := mem_singleton.mp hl
    exact (hd.rest c hc).symm.imp_right fun hlf => ⟨_, mem_cons_self, hlf⟩
  · intro after haf hf c hc
    cases haf
    obtain ⟨other, ho, hmem⟩ := h.answered x he hf c
      (hd.part.subset hc)
    rcases mem_append.mp ho with hu | ha
    · exact ⟨other, mem_append_left _ hu, hmem⟩
    · rcases mem_eraseIdx_or ha hm with rfl | hlf
      · -- the command had an entry in the chunk, so it is not left
        obtain ⟨entry, hen, href⟩ := exists_entry_invokeSingle rs hmem
        exact absurd href (hd.unanswered c hc entry hen)
      · exact ⟨other, mem_append_right _ hlf, hmem⟩

theorem finish (hu : x.unsent = []) (ha : x.awaiting = []) : Accounted [] (s.finish x) := by
  have hg : x.commands ∈ s.held ++ [] := by simp [held, he]
  have hr : ∀ c ∈ x.commands.filter
      (fun c => !s.aborted.contains c.id), c ∈ x.commands :=
    fun c hmem => (mem_filter.mp hmem).1
  refine produce (h.regroup (.replace [x.commands] [] _ rfl ?_
    (fun id hi => mem_settleAll.mpr (.inl hi)) (mem_held_of_executing he)
    (mem_held_of_idle rfl) (by simp) ?_) (fun id hi => .inl hi) ?_ h.timer)
  · intro hl
    refine hl.settleAll (fun c hmem => h.known _ hg _ (hr c hmem)) ?_
    intro c hmem
    cases hf : x.failed with
    | true => exact .inl rfl
    | false =>
      obtain ⟨m, hm, _⟩ := h.answered x he hf c
        (hr c hmem)
      simp [hu, ha] at hm
  · intro g ho c hc
    obtain rfl := mem_singleton.mp ho
    refine .inl (mem_settleAll.mpr ((h.remaining hc).imp_right ?_))
    exact fun hmem => ⟨c, hmem, rfl⟩
  · intro after haf
    cases haf

theorem fail (unsent awaiting : List (Batch P)) :
    Accounted [] { s with
      executing := some { x with
        unsent := unsent
        awaiting := awaiting
        failed := true } } := by
  refine h.progress _ he ?_ ?_ s.sent ?_
  · rfl
  · rfl
  · intro hf
    cases hf

end

/-- The command that an abort removes from the queue is the one that was aborted. -/
theorem abort (hc : c ∈ s.commands)
    (hf : ∀ o ∈ s.pendingCommands, o.commandRef = c.commandRef → o.id = c.id) :
    Accounted [] { s with
      aborted := s.aborted ++ [c.id]
      pendingCommands := s.pendingCommands.filter
        (·.commandRef ≠ c.commandRef)
      settled := settle s.settled c.id .rejected } := by
  refine h.regroup (.replace [s.pendingCommands]
    [s.pendingCommands.filter (·.commandRef ≠ c.commandRef)] s.held.tail rfl
    (fun hl => hl.settle hc rfl (.inl rfl))
    (fun id hi => mem_settle.mpr (.inl hi)) (by simp [held]) (by simp [held]) ?_ ?_) ?_
    h.answered ?_
  · intro g hn
    obtain rfl := mem_singleton.mp hn
    exact ⟨_, mem_cons_self, Part.of_sublist filter_sublist⟩
  · intro g ho o hm
    obtain rfl := mem_singleton.mp ho
    by_cases hs : o.commandRef = c.commandRef
    · exact .inl (mem_settle.mpr (.inr (hf o hm hs)))
    · exact .inr ⟨_, mem_cons_self, mem_filter.mpr ⟨hm, by simpa using hs⟩⟩
  · intro id hi
    rcases mem_append.mp hi with ho | hn
    · exact .inl ho
    · exact .inr (mem_settle.mpr (.inr (mem_singleton.mp hn)))
  · intro hne
    apply h.timer
    rintro he
    simp [he] at hne

theorem close :
    Accounted [] { s with
      timerRunning := false
      settled := settleAll s.settled s.pendingCommands .rejected
      pendingCommands := []
      closed := true } := by
  refine h.regroup (.replace [s.pendingCommands] [[]] s.held.tail rfl
    (fun hl => hl.settleAll (h.known _ (by simp [held])) (fun c _ => .inl rfl))
    (fun id hi => mem_settleAll.mpr (.inl hi)) (by simp [held]) (by simp [held]) ?_ ?_)
    (fun id hi => .inl hi) h.answered (fun he => absurd rfl he)
  · intro g hn
    obtain rfl := mem_singleton.mp hn
    exact ⟨_, mem_cons_self, Part.of_sublist (nil_sublist _)⟩
  · intro g ho c hm
    obtain rfl := mem_singleton.mp ho
    exact .inl (mem_settleAll.mpr (.inr ⟨c, hm, rfl⟩))

end

end Accounted

/-- The ref of a command that is aborted has not been given to another one that is queued. -/
def keepsRef (s : ClientInteraction P D) : Event P D → Bool
  | .abort id =>
    s.commands.all (fun command => command.id ≠ id || s.pendingCommands.all (fun other =>
        other.commandRef ≠ command.commandRef || other.id = command.id))
  | _ => true

/-- What each event does, and when. -/
inductive Happens [DecidableEq P] (s : ClientInteraction P D) :
    Event P D → ClientInteraction P D → Prop where
  | invoke {path : P} : Happens s (.invoke path)
      { s with calls := s.calls + 1, connecting := s.connecting ++ [(s.calls, path)] }
  | connected {call : Nat × P} : call ∈ s.connecting → Happens s (.connected call.1)
      ({ s with connecting := s.connecting.filter (·.1 ≠ call.1) }.enqueue
        call.1 call.2)
  | connectionFailed {id : Nat} : Happens s (.connectionFailed id)
      { s with connecting := s.connecting.filter (·.1 ≠ id) }
  | timer : s.timerRunning → Happens s .timer { s with timerRunning := false }.flushBatch
  | execute {maxPathsPerInvoke : Nat} {task : Task P} {queue : List (Task P)} :
      s.executing = none → s.queue = task :: queue → 0 < maxPathsPerInvoke →
      Happens s (.execute maxPathsPerInvoke) (s.execute maxPathsPerInvoke task queue)
  | send {execution : Execution P} {i : Nat} {message : Batch P} :
      s.executing = some execution → execution.unsent[i]? = some message →
      Happens s (.send i) { s with
        executing := some { execution with
          unsent := execution.unsent.eraseIdx i
          awaiting := execution.awaiting ++ [message] }
        sent := s.sent ++ [⟨execution.maxPathsPerInvoke, message⟩] }
  | respond {execution : Execution P} {i : Nat} {message : Batch P}
      {responses : List (Response D)} :
      s.executing = some execution → execution.awaiting[i]? = some message →
      Happens s (.respond i responses) { s with
        settled := (deliver s.aborted s.settled execution.commands
          (invokeSingle message responses)).1
        executing := some { execution with
          commands := (deliver s.aborted s.settled execution.commands
            (invokeSingle message responses)).2
          awaiting := execution.awaiting.eraseIdx i } }
  | failToSend {execution : Execution P} {i : Nat} :
      s.executing = some execution → i < execution.unsent.length →
      Happens s (.failToSend i) { s with
        executing := some { execution with
          unsent := execution.unsent.eraseIdx i
          failed := true } }
  | fail {execution : Execution P} {i : Nat} :
      s.executing = some execution → i < execution.awaiting.length →
      Happens s (.fail i) { s with
        executing := some { execution with
          awaiting := execution.awaiting.eraseIdx i
          failed := true } }
  | finish {execution : Execution P} : s.executing = some execution → execution.unsent = [] →
      execution.awaiting = [] → Happens s .finish (s.finish execution)
  | abort {command : Command P} : command ∈ s.commands → Happens s (.abort command.id) { s with
      aborted := s.aborted ++ [command.id]
      pendingCommands := s.pendingCommands.filter
        (·.commandRef ≠ command.commandRef)
      settled := settle s.settled command.id .rejected }
  | close : Happens s .close { s with
      timerRunning := false
      settled := settleAll s.settled s.pendingCommands .rejected
      pendingCommands := []
      closed := true }

variable {e : Event P D}

theorem happens_of_step [DecidableEq P] (hs : s.step e = some t) : Happens s e t := by
  cases e <;> simp only [ClientInteraction.step] at hs
  case invoke path =>
    split_ifs at hs
    cases hs
    exact .invoke
  case connected id =>
    split at hs <;> cases hs
    next call hf =>
    obtain rfl : call.1 = id := by simpa using find?_some hf
    exact .connected (mem_of_find?_eq_some hf)
  case connectionFailed id =>
    cases hs
    exact .connectionFailed
  case timer =>
    split_ifs at hs with hr
    cases hs
    exact .timer hr
  case execute mi =>
    split at hs
    · next hl hq =>
      split_ifs at hs with ha
      cases hs
      exact .execute hl hq ha
    · cases hs
  case abort id =>
    split at hs <;> cases hs
    next c hf =>
    obtain rfl : c.id = id := by simpa using find?_some hf
    exact .abort (mem_of_find?_eq_some hf)
  case close =>
    cases hs
    exact .close
  case send i =>
    split at hs
    · cases hs
    next x he =>
    split at hs <;> cases hs
    next m hm => exact .send he hm
  case respond i responses =>
    split at hs
    · cases hs
    next x he =>
    split at hs <;> cases hs
    next m hm => exact .respond he hm
  case failToSend i =>
    split at hs
    · cases hs
    next x he =>
    split_ifs at hs with hi
    cases hs
    exact .failToSend he hi
  case fail i =>
    split at hs
    · cases hs
    next x he =>
    split_ifs at hs with hi
    cases hs
    exact .fail he hi
  case finish =>
    split at hs
    · cases hs
    next x he =>
    split_ifs at hs with hd
    cases hs
    simp only [Bool.and_eq_true, List.isEmpty_iff] at hd
    exact .finish he hd.1 hd.2

theorem Accounted.step [DecidableEq P] (h : Accounted [] s)
    (ht : s.step e = some t) (hp : s.keepsRef e) : Accounted [] t := by
  have hs (calls : Nat) (connecting : List (Nat × P)) :
      Accounted [] { s with calls, connecting } :=
    ⟨h.ledger, h.aborted, h.known, h.keyed, h.placed, h.answered, h.timer⟩
  cases happens_of_step ht with
  | invoke => exact hs _ _
  | connected _ => exact Accounted.enqueue (hs s.calls _) _ _
  | connectionFailed => exact hs s.calls _
  | timer _ => exact h.flushBatch
  | execute hi hq hx => exact h.execute hx hi hq
  | send he hm => exact h.send he hm _
  | respond he hm => exact h.respond he hm _
  | failToSend he _ => exact h.fail he _ _
  | fail he _ => exact h.fail he _ _
  | finish he hu ha => exact h.finish he hu ha
  | abort hmem =>
    refine h.abort hmem ?_
    intro other ho hs
    have hl := all_eq_true.mp hp _ hmem
    simp only [ne_eq, not_true_eq_false, decide_false, Bool.false_or, all_eq_true] at hl
    simpa [hs] using hl other ho
  | close => exact h.close

end Steps

end ClientInteraction

end MatterJs.Client
