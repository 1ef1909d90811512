import MatterJs.Foundation.TransitionSystem

/-!
# The data read queue

A write hands its item to the pending read. The read goes on later: `attempt` looks at the abort
signal, and the `finally` block of `read` clears the pending read.
-/
namespace MatterJs.Util

open TransitionSystem IndexedList List Option

inductive ReadOutcome (T : Type)
  | returned (data : T)
  | aborted
  | refused (message : String)
  deriving DecidableEq

/-- A call of `read`. -/
structure DataRead (T : Type) where
  /-- The item its promise was resolved with. -/
  data : Option T := none
  /-- The state of the abort signal. The timeout sets it, too. -/
  aborted : Bool := false
  outcome : Option (ReadOutcome T) := none

structure DataReadQueue (T : Type) where
  queue : List T := []
  pendingRead : Option Nat := none
  closed : Bool := false
  reads : List (DataRead T) := []
  written : List T := []
  /-- The reads that were given an item, with the item. -/
  handed : List (Nat × T) := []

inductive QueueEvent (T : Type)
  | read
  | write (data : T)
  | abort (read : Nat)
  | close
  /-- A read goes on after its promise was resolved or its signal aborted. What happens between the
  look at the signal and the `finally` block might as well happen before or after both. -/
  | resume (read : Nat)

variable {T : Type}

namespace DataRead

/-- An aborted read throws even if it was handed an item. -/
def settled (read : DataRead T) : ReadOutcome T :=
  match read.aborted, read.data with
  | false, some data => .returned data
  | _, _ => .aborted

def isWaiting (read : DataRead T) : Bool :=
  read.data.isNone && !read.aborted && read.outcome.isNone

end DataRead

namespace DataReadQueue

variable (s : DataReadQueue T)

def refuse (message : String) : DataReadQueue T :=
  { s with reads := s.reads ++ [⟨none, false, some (.refused message)⟩] }

def read : DataReadQueue T :=
  if s.closed then s.refuse "Channel is closed"
  else
    match s.queue with
    | data :: queue =>
      { s with
        queue
        reads := s.reads ++ [⟨some data, false, some (.returned data)⟩]
        handed := s.handed ++ [(s.reads.length, data)] }
    | [] =>
      if s.pendingRead.isSome then s.refuse "Only one pending read is supported"
      else { s with pendingRead := some s.reads.length, reads := s.reads ++ [{}] }

def pending : Option (Nat × DataRead T) :=
  s.pendingRead.bind (fun index => s.reads[index]?.map (index, ·))

/-- After the end a write throws. -/
def write (data : T) : DataReadQueue T :=
  if s.closed then s
  else
    match s.pending with
    | some (index, read) =>
      { s with
        pendingRead := none
        reads := s.reads.set index { read with data := some data }
        written := s.written ++ [data]
        handed := s.handed ++ [(index, data)] }
    | none => { s with queue := s.queue ++ [data], written := s.written ++ [data] }

def close : DataReadQueue T :=
  if s.closed then s
  else
    match s.pending with
    | some (index, read) =>
      { s with
        closed := true
        pendingRead := none
        reads := s.reads.set index { read with aborted := true } }
    | none => { s with closed := true }

def step : QueueEvent T → Option (DataReadQueue T)
  | .read => some s.read
  | .write data => some (s.write data)
  | .abort index => s.reads[index]?.map (fun read =>
    { s with reads := s.reads.set index { read with aborted := true } })
  | .close => some s.close
  | .resume index => s.reads[index]?.bind (fun read =>
    if read.outcome = none ∧ (read.data ≠ none ∨ read.aborted) then
      some { s with
        pendingRead := none
        reads := s.reads.set index { read with outcome := some read.settled } }
    else none)

/-- No read is aborted between the write that hands it an item and its end, no item is handed to an
aborted read, and a read that is going to wait comes after the end of the others. -/
def undisturbed : QueueEvent T → Bool
  | .read =>
    s.closed || !s.queue.isEmpty || s.pendingRead.isSome || s.reads.all (·.outcome.isSome)
  | .write _ => s.pending.all (fun entry => !entry.2.aborted)
  | .abort index => s.reads[index]?.all (fun read => read.data.isNone || read.outcome.isSome)
  | _ => true

/-- What holds of a read, where `p` is the pending read and all but the read `k` have ended. -/
structure Good (p : Option Nat) (k i : Nat) (a : DataRead T) : Prop where
  returned : ∀ d, a.data = some d →
    a.outcome = none ∧ a.aborted = false ∨ a.outcome = some (.returned d)
  pending : p = some i → a.data = none ∧ a.outcome = none
  waiting : a.isWaiting → p = some i
  alone : a.outcome = none → i = k

structure Sound (s : DataReadQueue T) (k : Nat) : Prop where
  written : s.written = s.handed.map Prod.snd ++ s.queue
  nodup : (s.handed.map Prod.fst).Nodup
  handed : ∀ e ∈ s.handed, ∃ a, s.reads[e.1]? = some a ∧ a.data = some e.2
  pending : ∀ r, s.pendingRead = some r → s.queue = [] ∧ r < s.reads.length
  good : ∀ (i : Nat) a, s.reads[i]? = some a → Good s.pendingRead k i a

variable {s} {r k : Nat} {a b : DataRead T} {p : Option Nat} {c : Bool} {d : T}

theorem sound_new : ({} : DataReadQueue T).Sound 0 := by
  constructor <;> simp

section
variable (h : s.Sound k)
include h

theorem Sound.lt_length {e : Nat × T} (he : e ∈ s.handed) : e.1 < s.reads.length := by
  obtain ⟨a, ha, -⟩ := h.handed e he
  exact (List.getElem?_eq_some_iff.mp ha).1

/-- A read goes on, with the item it had or, if it is the pending one, with a new item. -/
theorem Sound.setRead (hr : s.reads[r]? = some a)
    (hp : p = s.pendingRead ∨ p = none ∧ ∀ i, s.pendingRead = some i → i = r)
    (hb : Good p k r b) {n : List T}
    (hn : n = [] ∧ b.data = a.data ∨ a.data = none ∧ s.queue = [] ∧ n = b.data.toList) :
    Sound { s with
      closed := c
      pendingRead := p
      reads := s.reads.set r b
      written := s.written ++ n
      handed := s.handed ++ n.map (r, ·) } k := by
  refine ⟨?_, ?_, fun e he => ?_, fun q hq => ?_, fun i x hx => ?_⟩
  · obtain ⟨rfl, -⟩ | ⟨-, hq, -⟩ := hn
    · simpa using h.written
    · simp [h.written, hq, Function.comp_def]
  · obtain ⟨rfl, -⟩ | ⟨ha, -, rfl⟩ := hn
    · simpa using h.nodup
    · have ho : ∀ x, (r, x) ∉ s.handed := by
        intro x hx
        obtain ⟨y, hy, hd⟩ := h.handed _ hx
        cases hr.symm.trans hy
        cases ha.symm.trans hd
      cases b.data <;> grind [nodup_append, h.nodup]
  · have := h.handed e
    grind
  · have := h.pending q
    grind
  · have := h.good i
    grind [Good]

section
variable {q : List T} (hq : s.queue = b.data.toList ++ q)
include hq

/-- A read is called, and takes the first item of the queue if there is one. -/
theorem Sound.concat (hp : ∀ r, p = some r → q = [] ∧ r < s.reads.length + 1)
    (hg : ∀ (i : Nat) a, s.reads[i]? = some a → Good p r i a) (hb : Good p r s.reads.length b) :
    Sound { s with
      queue := q
      pendingRead := p
      reads := s.reads ++ [b]
      handed := s.handed ++ b.data.toList.map (s.reads.length, ·) } r := by
  refine ⟨?_, ?_, fun e he => ?_, fun q hq => ?_, fun i a ha => ?_⟩
  · simp [h.written, hq, Function.comp_def]
  · have hn : ∀ x, (s.reads.length, x) ∉ s.handed :=
      fun x hx => Nat.lt_irrefl _ (h.lt_length hx)
    cases b.data <;> grind [nodup_append, h.nodup]
  · have := h.handed e
    grind
  · simpa using hp q hq
  · obtain ha | ⟨rfl, rfl⟩ := getElem?_concat_cases ha
    · exact hg i a ha
    · exact hb

theorem Sound.ended
    (ho : b.outcome ≠ none) (hr : ∀ d, b.data = some d → b.outcome = some (.returned d)) :
    Sound { s with
      queue := q
      reads := s.reads ++ [b]
      handed := s.handed ++ b.data.toList.map (s.reads.length, ·) } k := by
  refine h.concat hq (fun r hp => ?_) h.good ⟨fun d hd => .inr (hr d hd), fun hp => ?_, ?_, ?_⟩
  · have := h.pending r hp
    grind [append_eq_nil_iff]
  · exact absurd (h.pending _ hp).2 (Nat.lt_irrefl _)
  · simp [DataRead.isWaiting, ho]
  · exact fun hn => absurd hn ho

end

theorem Sound.read (hg : s.undisturbed .read) : ∃ k, s.read.Sound k := by
  have refused : ∀ m, (s.refuse m).Sound k := fun m => by
    simpa [refuse] using h.ended (b := ⟨none, false, some (.refused m)⟩) rfl (by simp) (by simp)
  unfold DataReadQueue.read
  by_cases hc : s.closed
  · rw [if_pos hc]
    exact ⟨k, refused _⟩
  · rw [if_neg hc]
    split
    · rename_i d q hq
      exact ⟨k, h.ended (b := ⟨some d, false, some (.returned d)⟩) hq (by simp) (by simp)⟩
    · rename_i hq
      split_ifs with hp
      · exact ⟨k, refused _⟩
      · have hf : ∀ a ∈ s.reads, a.outcome.isSome := by
          simpa [undisturbed, hc, hq, hp] using hg
        have hw := h.concat (b := {}) (p := some s.reads.length) (r := s.reads.length)
          (q := s.queue) rfl (by grind) (fun i a ha => ?_) ⟨by simp, by simp, by simp, by simp⟩
        · exact ⟨s.reads.length, by simpa using hw⟩
        · have ho := isSome_iff_ne_none.mp (hf a (mem_of_getElem? ha))
          refine ⟨(h.good i a ha).returned, fun hi => ?_, ?_, fun hn => absurd hn ho⟩
          · grind
          · simp [DataRead.isWaiting, ho]

end

theorem pending_eq_some (h : s.pending = some (r, a)) :
    s.pendingRead = some r ∧ s.reads[r]? = some a := by
  obtain ⟨i, hi, hm⟩ := bind_eq_some_iff.mp h
  obtain ⟨x, hx, he⟩ := map_eq_some_iff.mp hm
  cases he
  exact ⟨hi, hx⟩

theorem Sound.pending_eq_none (h : s.Sound k) (hn : s.pending = none) : s.pendingRead = none := by
  cases hp : s.pendingRead with
  | none => rfl
  | some r => simp [DataReadQueue.pending, hp, (h.pending r hp).2] at hn

theorem Sound.step (h : s.Sound k) {event : QueueEvent T} {t : DataReadQueue T}
    (hg : s.undisturbed event) (hs : s.step event = some t) : ∃ k, t.Sound k := by
  cases event with
  | read =>
    cases hs
    exact h.read hg
  | write d =>
    cases hs
    unfold DataReadQueue.write
    split_ifs with hc
    · exact ⟨k, h⟩
    · split
      · rename_i r a he
        obtain ⟨hp, ha⟩ := pending_eq_some he
        have hna : a.aborted = false := by simpa [undisturbed, he] using hg
        have hr := h.good r a ha
        refine ⟨k, h.setRead (n := [d]) ha (.inr ⟨rfl, by grind⟩) ?_
          (.inr ⟨(hr.pending hp).1, (h.pending r hp).1, rfl⟩)⟩
        grind [Good, DataRead.isWaiting]
      · rename_i hn
        have hp := h.pending_eq_none hn
        refine ⟨k, ?_, h.nodup, h.handed, fun r hr => ?_, h.good⟩
        · rw [h.written, append_assoc]
        · cases hp.symm.trans hr
  | abort r =>
    obtain ⟨a, ha, rfl⟩ := map_eq_some_iff.mp hs
    have hg : a.data = none ∨ a.outcome ≠ none := by
      simpa [undisturbed, ha, isSome_iff_ne_none] using hg
    have hr := h.good r a ha
    have hb : Good s.pendingRead k r { a with aborted := true } := by
      grind [Good, DataRead.isWaiting]
    have hs := h.setRead (c := s.closed) (n := []) ha (.inl rfl) hb (.inl ⟨rfl, rfl⟩)
    exact ⟨k, by simpa using hs⟩
  | close =>
    cases hs
    unfold DataReadQueue.close
    split_ifs with hc
    · exact ⟨k, h⟩
    · split
      · rename_i r a he
        obtain ⟨hp, ha⟩ := pending_eq_some he
        have hr := h.good r a ha
        have hb : Good none k r { a with aborted := true } := by grind [Good, DataRead.isWaiting]
        have hs := h.setRead (c := true) (n := []) ha (.inr ⟨rfl, by grind⟩) hb (.inl ⟨rfl, rfl⟩)
        exact ⟨k, by simpa using hs⟩
      · exact ⟨k, h.written, h.nodup, h.handed, h.pending, h.good⟩
  | resume r =>
    obtain ⟨a, ha, ht⟩ := bind_eq_some_iff.mp hs
    obtain ⟨⟨ho, hd⟩, rfl⟩ := of_enabled ht
    have hr := h.good r a ha
    -- the pending read has not ended either
    have hp : ∀ i, s.pendingRead = some i → i = r := by
      intro i hi
      have hx := h.good i _ (getElem?_eq_getElem (h.pending i hi).2)
      exact (hx.alone (hx.pending hi).2).trans (hr.alone ho).symm
    have hb : Good none k r { a with outcome := some a.settled } := by
      grind [Good, DataRead.isWaiting, DataRead.settled]
    have hs := h.setRead (c := s.closed) (n := []) ha (.inr ⟨rfl, hp⟩) hb (.inl ⟨rfl, rfl⟩)
    exact ⟨k, by simpa using hs⟩

/-- Every item that is written is handed to one read, in the order of the writes, or in the queue. A
read returns the item it was handed, and a read that waits is the pending one. -/
theorem items_are_not_lost (events : List (QueueEvent T)) (s : DataReadQueue T)
    (h : Run (guarded step (·.undisturbed ·)) {} events s) :
    s.written = s.handed.map Prod.snd ++ s.queue ∧ (s.handed.map Prod.fst).Nodup ∧
      (∀ e ∈ s.handed, ∃ read, s.reads[e.1]? = some read ∧ read.data = some e.2 ∧
        (read.outcome = none ∨ read.outcome = some (.returned e.2))) ∧
      ∀ (i : Nat) read, s.reads[i]? = some read → read.isWaiting = true →
        s.pendingRead = some i := by
  obtain ⟨k, hs⟩ : ∃ k, s.Sound k := by
    refine guarded_invariant (I := fun s => ∃ k, s.Sound k) ?_ h ⟨0, sound_new⟩
    exact fun s event t hg hs ⟨k, hi⟩ => hi.step hg hs
  refine ⟨hs.written, hs.nodup, fun e he => ?_, fun i a ha => (hs.good i a ha).waiting⟩
  obtain ⟨a, ha, hd⟩ := hs.handed e he
  exact ⟨a, ha, hd, ((hs.good e.1 a ha).returned e.2 hd).imp_left And.left⟩

/-- The second item waits in the queue for the second read. -/
theorem items_are_not_lost_two : ∃ s : DataReadQueue Nat, s.queue = [] ∧
    s.handed = [(0, 1), (1, 2)] ∧ s.written = s.handed.map Prod.snd ++ s.queue :=
  ⟨_, by decide, by decide, (items_are_not_lost
    [.read, .write 1, .write 2, .resume 0, .read] _ (run_of_exec rfl)).1⟩

/-- An item goes with a read that is aborted before it goes on, and the end of a read disables the
next one. -/
theorem aborted_read_loses_item :
    (∃ s : DataReadQueue Nat, exec step {} [.read, .write 1, .abort 0, .resume 0] = some s ∧
      s.written = [1] ∧ s.queue = [] ∧ s.reads.map DataRead.outcome = [some .aborted]) ∧
    ∃ s : DataReadQueue Nat, exec step {} [.read, .write 1, .read, .resume 0, .write 2] = some s ∧
      s.queue = [2] ∧ s.reads.map DataRead.isWaiting = [false, true] ∧ s.pendingRead = none :=
  ⟨⟨_, rfl, by decide, by decide, by decide⟩, ⟨_, rfl, by decide, by decide, by decide⟩⟩

end DataReadQueue

end MatterJs.Util
