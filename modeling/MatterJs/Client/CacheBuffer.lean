import MatterJs.Foundation.TransitionSystem
import Mathlib.Data.List.Lattice
import Mathlib.Logic.Function.Basic

/-!
# Buffered client cache writes

The caches of the clusters of peers, the buffer that flushes them and the storage below. Every
`await` ends a step. The mutex runs one `#doFlush` at a time. No cache is erased, and each has a
local writer.
-/
namespace MatterJs.Client

open TransitionSystem Function Option

/-- A key of a cache: an attribute, or the version, which is metadata. -/
inductive Key
  | version
  | attr (id : Nat)
deriving DecidableEq

/-- The values of a cluster, wherever they live, and the keys to be flushed. -/
structure DatasourceCache where
  values : Nat → Option Int := fun _ => none
  version : Int := -1
  dirtyKeys : List Key := []

namespace DatasourceCache

variable (d : DatasourceCache)

def valueOf : Key → Option Int
  | .version => some d.version
  | .attr id => d.values id

def restoreDirtyKeys (keys : List Key) : DatasourceCache :=
  { d with dirtyKeys := d.dirtyKeys ∪ keys }

/-- One entry of the values that `externalSet` is given. -/
def apply (k : Key) (value : Int) : DatasourceCache :=
  let d := { d with dirtyKeys := d.dirtyKeys ∪ [k] }
  match k with
  | .version => { d with version := value }
  | .attr id => { d with values := update d.values id (some value) }

/-- What `flush` writes: the values there are for the dirty keys, and the version in any case. -/
def flushed : Key → Option Int
  | .version => some d.version
  | .attr id => if .attr id ∈ d.dirtyKeys then d.values id else none

/-- There are dirty attributes, but none of them has a value. -/
def vanished : Bool :=
  d.dirtyKeys.any (· ≠ .version) && d.dirtyKeys.all (fun k => k = .version || (d.valueOf k).isNone)

end DatasourceCache

inductive Phase
  | idle | beginning | flushing | committing
deriving DecidableEq

/-- The buffer, with the flush in progress: the rest of its snapshot, the cache that is being
written with its keys and values, and the caches written into the transaction. -/
structure CacheBuffer where
  caches : Nat → DatasourceCache := fun _ => {}
  dirty : List Nat := []
  phase : Phase := .idle
  remaining : List Nat := []
  persisting : Option (Nat × List Key × (Key → Option Int)) := none
  flushedKeys : List (Nat × List Key) := []
  staged : Nat → Key → Option Int := fun _ _ => none
  stored : Nat → Key → Option Int := fun _ _ => none

inductive CacheEvent
  | externalSet (cache : Nat) (values : List (Key × Int))
  | doFlush
  | begun
  | beginFailed
  | flushCache
  | persisted
  | persistFailed
  | finish
  | committed
  | commitFailed
deriving DecidableEq

namespace CacheBuffer

variable (b : CacheBuffer) (c : Nat)

def markDirty : CacheBuffer :=
  { b with dirty := b.dirty ∪ [c] }

def setCache (d : DatasourceCache) : CacheBuffer :=
  { b with caches := update b.caches c d }

def externalSet (values : List (Key × Int)) : CacheBuffer :=
  (b.setCache c (values.foldl (fun d entry => d.apply entry.1 entry.2) (b.caches c))).markDirty
    c

/-- A cache whose keys were not committed is dirty again. -/
def restore (keys : List Key) : CacheBuffer :=
  (b.setCache c ((b.caches c).restoreDirtyKeys keys)).markDirty c

/-- `DatasourceCache.flush` up to its `await`. -/
def flushCache : CacheBuffer :=
  let d := b.caches c
  if d.dirtyKeys = [] then b
  else if d.vanished then b.markDirty c
  else { b.setCache c { d with dirtyKeys := [] } with
    persisting := some (c, d.dirtyKeys, d.flushed) }

/-- The transaction is over. -/
def reset : CacheBuffer :=
  { b with phase := .idle, flushedKeys := [], staged := fun _ _ => none }

def step : CacheEvent → Option CacheBuffer
  | .externalSet c values => some (b.externalSet c values)
  | .doFlush =>
    if b.phase ≠ .idle then none
    else if b.dirty = [] then some b
    else some { b with phase := .beginning, remaining := b.dirty, dirty := [] }
  | .begun => if b.phase = .beginning then some { b with phase := .flushing } else none
  | .beginFailed =>
    if b.phase = .beginning then some { b with phase := .idle, remaining := [] } else none
  | .flushCache =>
    if b.phase ≠ .flushing ∨ b.persisting.isSome then none
    else match b.remaining with
      | [] => none
      | c :: remaining => some { b.flushCache c with remaining }
  | .persisted => b.persisting.map fun (c, keys, values) =>
    { b with
      persisting := none
      flushedKeys := b.flushedKeys ++ [(c, keys)]
      staged := update b.staged c (fun k => (values k).or (b.staged c k)) }
  | .persistFailed => b.persisting.map fun (c, keys, _) =>
    { b.restore c keys with persisting := none }
  | .finish =>
    if b.phase ≠ .flushing ∨ b.persisting.isSome ∨ b.remaining ≠ [] then none
    else if b.flushedKeys = [] then some b.reset
    else some { b with phase := .committing }
  | .committed =>
    if b.phase ≠ .committing then none
    else some { b.reset with
      stored := fun c k => (b.staged c k).or (b.stored c k) }
  | .commitFailed =>
    if b.phase ≠ .committing then none
    else some (b.flushedKeys.foldl (fun b entry => b.restore entry.1 entry.2) b).reset

variable (k : Key)

/-- The key is to be written by the flush in progress. -/
def InFlush : Prop :=
  c ∈ b.remaining ∧ k ∈ (b.caches c).dirtyKeys ∨
    (∃ keys values, b.persisting = some (c, keys, values) ∧ k ∈ keys) ∨
    ∃ keys, (c, keys) ∈ b.flushedKeys ∧ k ∈ keys

/-- The key waits for the next flush. -/
def Waits : Prop :=
  k ∈ (b.caches c).dirtyKeys ∧ c ∈ b.dirty

/-- The keys that are being written. -/
def Persists : Prop :=
  ∃ keys values, b.persisting = some (c, keys, values) ∧ k ∈ keys

/-- How the latest value of a key gets into the storage. -/
inductive Tracked (b : CacheBuffer) (c : Nat) (k : Key) : Prop
  | dirty : k ∈ (b.caches c).dirtyKeys → c ∈ b.dirty ∨ c ∈ b.remaining →
      Tracked b c k
  | persisting {keys : List Key} {values : Key → Option Int} :
      b.persisting = some (c, keys, values) → k ∈ keys →
      values k = (b.caches c).valueOf k → Tracked b c k
  | staged {keys : List Key} : ¬ b.Persists c k → (c, keys) ∈ b.flushedKeys →
      k ∈ keys → b.staged c k = (b.caches c).valueOf k → Tracked b c k
  | stored : ¬ b.Persists c k →
      b.staged c k = none ∨ b.staged c k = (b.caches c).valueOf k →
      b.stored c k = (b.caches c).valueOf k → Tracked b c k

variable {b c k} {b' : CacheBuffer} {o : Nat} {ks : List Key}

/-- More may be dirty as long as the value stays and the flush does not move. -/
theorem Tracked.mono (h : b.Tracked c k)
    (hv : (b'.caches c).valueOf k = (b.caches c).valueOf k)
    (hd : k ∈ (b.caches c).dirtyKeys → c ∈ b.dirty ∨ c ∈ b.remaining → b'.Tracked c k)
    (hpr : b'.persisting = b.persisting) (hl : b'.flushedKeys = b.flushedKeys)
    (hst : b'.staged = b.staged) (hsr : b'.stored = b.stored) : b'.Tracked c k := by
  have hpe : b'.Persists c k ↔ b.Persists c k := by
    rw [Persists, hpr, Persists]
  cases h with
  | dirty hm ht => exact hd hm ht
  | persisting hp hm he =>
    exact .persisting (hpr.trans hp) hm (he.trans hv.symm)
  | staged hp hf hm he =>
    exact .staged (mt hpe.mp hp) (hl ▸ hf) hm (by rw [hst, hv, he])
  | stored hp hs he =>
    exact .stored (mt hpe.mp hp) (by rwa [hst, hv]) (by rw [hsr, hv, he])

/-- What a report leaves of a cache: a reported key has a value and is dirty, another key is as it
was. -/
theorem apply_all (v : List (Key × Int)) (d : DatasourceCache) (k : Key) :
    let d' := v.foldl (fun d e => d.apply e.1 e.2) d
    (k ∈ d.dirtyKeys → k ∈ d'.dirtyKeys) ∧
      ((d'.valueOf k).isSome ∧ k ∈ d'.dirtyKeys ∨ d'.valueOf k = d.valueOf k) := by
  induction v generalizing d with
  | nil => exact ⟨id, .inr rfl⟩
  | cons e v ih =>
    obtain ⟨hky, hv⟩ := ih (d.apply e.1 e.2)
    have hd : (d.apply e.1 e.2).dirtyKeys = d.dirtyKeys ∪ [e.1] := by
      cases e.1 <;> rfl
    refine ⟨fun hm => hky (by simp [hd, hm]), ?_⟩
    rw [List.foldl_cons]
    refine hv.elim .inl (fun hq => ?_)
    by_cases hy : k = e.1
    · refine .inl ⟨?_, hky (by simp [hd, hy])⟩
      rw [hq, hy]
      unfold DatasourceCache.apply
      cases e.1 <;> simp [DatasourceCache.valueOf]
    · refine .inr (hq.trans ?_)
      unfold DatasourceCache.apply
      cases he : e.1 <;> cases k <;> simp_all [DatasourceCache.valueOf]

theorem Tracked.externalSet (o : Nat) (v : List (Key × Int))
    (h : ((b.caches c).valueOf k).isSome → b.Tracked c k)
    (hsm : (((b.externalSet o v).caches c).valueOf k).isSome) :
    (b.externalSet o v).Tracked c k := by
  have he : c ∈ b.dirty ∨ c ∈ b.remaining → c ∈ (b.externalSet o v).dirty ∨ c ∈ b.remaining :=
    Or.imp_left (by simp +contextual [CacheBuffer.externalSet, markDirty, setCache])
  by_cases hn : c = o
  · subst hn
    have hc : (b.externalSet c v).caches c =
        v.foldl (fun d e => d.apply e.1 e.2) (b.caches c) := by
      simp [CacheBuffer.externalSet, markDirty, setCache]
    obtain ⟨hy, ⟨-, hm⟩ | hv⟩ := apply_all v (b.caches c) k
    · exact .dirty (hc ▸ hm) (.inl (by simp [CacheBuffer.externalSet, markDirty]))
    · rw [← hc] at hy hv
      exact (h (hv ▸ hsm)).mono hv (fun hm hs => .dirty (hy hm) (he hs)) rfl rfl
        rfl rfl
  · have hc : (b.externalSet o v).caches c = b.caches c := by
      simp [CacheBuffer.externalSet, markDirty, setCache, hn]
    rw [hc] at hsm
    exact (h hsm).mono (by rw [hc]) (fun hm hs => .dirty (by rwa [hc]) (he hs)) rfl rfl
      rfl rfl

/-- Restoring the keys of a cache changes no value. -/
theorem restore_spec (b : CacheBuffer) (c o : Nat) (k : Key) (ks : List Key) :
    ((b.restore o ks).caches c).valueOf k = (b.caches c).valueOf k ∧
    (k ∈ (b.caches c).dirtyKeys → k ∈ ((b.restore o ks).caches c).dirtyKeys) ∧ (c ∈ b.dirty →
    c ∈ (b.restore o ks).dirty) ∧ (c = o → k ∈ ks → (b.restore o ks).Waits c k) := by
  by_cases hn : c = o
  · subst hn
    cases k <;> simp +contextual [restore, markDirty, setCache, DatasourceCache.restoreDirtyKeys,
      DatasourceCache.valueOf, Waits]
  · simp +contextual [restore, markDirty, setCache, hn]

/-- Taking the dirty keys of a cache changes no value. -/
theorem valueOf_flushCache (b : CacheBuffer) (c o : Nat) (k : Key) :
    ((b.flushCache o).caches c).valueOf k = (b.caches c).valueOf k := by
  unfold CacheBuffer.flushCache
  dsimp only
  split_ifs
  · rfl
  · rfl
  · by_cases hn : c = o
    · subst hn
      cases k <;> simp [setCache, DatasourceCache.valueOf]
    · simp [setCache, hn]

section
variable (h : b.Tracked c k)
include h

theorem Tracked.flushCache {remaining : List Nat}
    (hr : b.remaining = o :: remaining) (hnn : b.persisting = none) :
    { b.flushCache o with remaining }.Tracked c k := by
  have hrs (hne : c ≠ o) (hs : c ∈ b.dirty ∨ c ∈ b.remaining) :
      c ∈ b.dirty ∨ c ∈ remaining := by
    simpa [hr, hne] using hs
  have hv := valueOf_flushCache b c o k
  unfold CacheBuffer.flushCache at hv ⊢
  dsimp only at hv ⊢
  split_ifs at hv ⊢ with he hvn
  · refine h.mono rfl (fun hm hs => ?_) rfl rfl rfl rfl
    refine .dirty hm (hrs ?_ hs)
    rintro rfl
    simp [he] at hm
  · refine h.mono rfl (fun hm hs => ?_) rfl rfl rfl rfl
    by_cases hne : c = o
    · exact .dirty hm (.inl (by simp [markDirty, hne]))
    · exact .dirty hm ((hrs hne hs).imp_left (by simp +contextual [markDirty]))
  · -- the dirty keys of the cache are the ones being written
    by_cases hn : c = o ∧ k ∈ (b.caches o).dirtyKeys
    · obtain ⟨rfl, hm⟩ := hn
      refine .persisting rfl hm (Eq.trans ?_ hv.symm)
      cases k <;> simp [DatasourceCache.flushed, DatasourceCache.valueOf, hm]
    have hpr : ¬ Persists { b.setCache o { b.caches o with dirtyKeys := [] } with
        persisting := some (o, (b.caches o).dirtyKeys, (b.caches o).flushed)
        remaining } c k := by
      rintro ⟨ks, v, hq, hm⟩
      obtain ⟨rfl, rfl, -⟩ := hq
      exact hn ⟨rfl, hm⟩
    cases h with
    | dirty hm hs =>
      have hne : c ≠ o := fun hq => hn ⟨hq, hq ▸ hm⟩
      exact .dirty (by simpa [setCache, hne] using hm) (hrs hne hs)
    | persisting hp => simp [hnn] at hp
    | staged _ hf hm hq => exact .staged hpr hf hm (hq.trans hv.symm)
    | stored _ hs hq =>
      exact .stored hpr (hs.imp_right (·.trans hv.symm)) (hq.trans hv.symm)

theorem Tracked.persisted {l : Key → Option Int}
    (hso : ((b.caches c).valueOf k).isSome) (hp : b.persisting = some (o, ks, l))
    (hl : ∀ k, k ∉ ks → k ≠ .version → l k = none) (hy : k ≠ .version) :
    { b with
      persisting := none
      flushedKeys := b.flushedKeys ++ [(o, ks)]
      staged := update b.staged o
        (fun k => (l k).or (b.staged o k)) }.Tracked c k := by
  have hi : ¬ Persists { b with persisting := none } c k := by simp [Persists]
  -- a key that was not being written is staged as before
  have hsm (hn : ¬ b.Persists c k) : update b.staged o
      (fun k => (l k).or (b.staged o k)) c k = b.staged c k := by
    by_cases hne : c = o
    · subst hne
      have ho : k ∉ ks := fun hm => hn ⟨ks, l, hp, hm⟩
      simp [hl k ho hy]
    · simp [hne]
  cases h with
  | dirty hm hs => exact .dirty hm hs
  | persisting hp' hm he =>
    obtain ⟨rfl, rfl, rfl⟩ : o = c ∧ ks = _ ∧ l = _ := by simpa [hp] using hp'
    refine .staged hi (List.mem_append_right _ (List.mem_singleton_self _)) hm ?_
    obtain ⟨v, hv⟩ := isSome_iff_exists.mp hso
    simp [he, hv]
  | staged hn hf hm he =>
    exact .staged hi (List.mem_append_left _ hf) hm ((hsm hn).trans he)
  | stored hn hs he => exact .stored hi (hs.imp (hsm hn).trans (hsm hn).trans) he

/-- The keys of a failed write wait again. -/
theorem Tracked.persistFailed {v : Key → Option Int}
    (hp : b.persisting = some (o, ks, v)) :
    { b.restore o ks with persisting := none }.Tracked c k := by
  obtain ⟨hv, hy, ht, hw⟩ := restore_spec b c o k ks
  have hi : ¬ Persists { b.restore o ks with persisting := none } c k := by
    simp [Persists]
  cases h with
  | dirty hm hs => exact .dirty (hy hm) (hs.imp_left ht)
  | persisting hp' hm he =>
    obtain ⟨rfl, rfl, -⟩ : o = c ∧ ks = _ ∧ v = _ := by simpa [hp] using hp'
    obtain ⟨hd, hn⟩ := hw rfl hm
    exact .dirty hd (.inl hn)
  | staged _ hf hm he => exact .staged hi hf hm (he.trans hv.symm)
  | stored _ hs he =>
    exact .stored hi (hs.imp_right (·.trans hv.symm)) (he.trans hv.symm)

end

theorem restoreAll_spec (f : List (Nat × List Key)) (b : CacheBuffer) (c : Nat) (k : Key) :
    let b' := f.foldl (fun b e => b.restore e.1 e.2) b
    (b'.caches c).valueOf k = (b.caches c).valueOf k ∧
      (k ∈ (b.caches c).dirtyKeys → k ∈ (b'.caches c).dirtyKeys) ∧
      (c ∈ b.dirty → c ∈ b'.dirty) ∧ ((∃ ks, (c, ks) ∈ f ∧ k ∈ ks) → b'.Waits c k) ∧
      b'.remaining = b.remaining ∧ b'.persisting = b.persisting ∧ b'.stored = b.stored := by
  induction f generalizing b with
  | nil => simp
  | cons e f ih =>
    obtain ⟨hv, hky, hs, hw⟩ := restore_spec b c e.1 k e.2
    obtain ⟨hv', hk', hs', hw', hrs⟩ := ih (b.restore e.1 e.2)
    refine ⟨hv'.trans hv, fun hm => hk' (hky hm), fun hm => hs' (hs hm), ?_, hrs⟩
    rintro ⟨ks, he, hy⟩
    rcases List.mem_cons.mp he with rfl | he
    · obtain ⟨hd, hi⟩ := hw rfl hy
      exact ⟨hk' hd, hs' hi⟩
    · exact hw' ⟨ks, he, hy⟩

/-- The keys of a failed commit wait again. -/
theorem Tracked.commitFailed (h : b.Tracked c k) :
    (b.flushedKeys.foldl (fun b e => b.restore e.1 e.2) b).reset.Tracked c k := by
  obtain ⟨hv, hy, he, hw, hr, hpr, ht⟩ :=
    restoreAll_spec b.flushedKeys b c k
  cases h with
  | dirty hm hs => exact .dirty (hy hm) (hs.imp he (hr ▸ ·))
  | persisting hp hm hq => exact .persisting (hpr.trans hp) hm (hq.trans hv.symm)
  | staged _ hf hm _ =>
    obtain ⟨hd, hi⟩ := hw ⟨_, hf, hm⟩
    exact .dirty hd (.inl hi)
  | stored hp _ hq =>
    refine .stored ?_ (.inl rfl) ?_
    · rintro ⟨ks, v, hp', hm⟩
      exact hp ⟨ks, v, hpr.symm.trans hp', hm⟩
    · exact (congrFun (congrFun ht c) k).trans (hq.trans hv.symm)

theorem Tracked.committed (h : b.Tracked c k) (hsm : ((b.caches c).valueOf k).isSome) :
    { b.reset with stored := fun c k => (b.staged c k).or (b.stored c k) }.Tracked
      c k := by
  obtain ⟨v, hv⟩ := isSome_iff_exists.mp hsm
  cases h with
  | dirty hm hs => exact .dirty hm hs
  | persisting hp hm he => exact .persisting hp hm he
  | staged hp _ _ he =>
    refine .stored hp (.inl rfl) ?_
    simp [he, reset, hv]
  | stored hp hs he =>
    refine .stored hp (.inl rfl) ?_
    rcases hs with hs | hs <;> simp [hs, he, reset, hv]

/-- Every value is tracked, and a flush that is over or commits has no cache left. -/
structure Sound (b : CacheBuffer) : Prop where
  tracked : ∀ cache id, ((b.caches cache).valueOf (.attr id)).isSome → b.Tracked cache (.attr id)
  written : ∀ cache ks values, b.persisting = some (cache, ks, values) →
    ∀ k, k ∉ ks → k ≠ .version → values k = none
  exhausted : b.phase = .idle ∨ b.phase = .committing → b.remaining = []

theorem Sound.step (h : Sound b) {e : CacheEvent} (he : e ≠ .beginFailed)
    (ht : b.step e = some b') : Sound b' := by
  cases e with
  | externalSet c vl =>
    cases ht
    exact ⟨fun o id => Tracked.externalSet c vl (h.tracked o id), h.written, h.exhausted⟩
  | doFlush =>
    obtain ⟨hi, ht⟩ := ite_none_left_eq_some.mp ht
    rw [ne_eq, not_not] at hi
    have hem := h.exhausted (.inl hi)
    split_ifs at ht <;> obtain rfl := Option.some.inj ht
    · exact h
    · refine ⟨fun c id hm => ?_, h.written, by simp⟩
      refine (h.tracked c id hm).mono rfl (fun hmem hs => .dirty hmem ?_) rfl rfl rfl rfl
      simpa [hem] using hs
  | begun =>
    obtain ⟨-, rfl⟩ := of_enabled ht
    refine ⟨fun c id hm => ?_, h.written, by simp⟩
    exact (h.tracked c id hm).mono rfl (fun hmem hs => .dirty hmem hs) rfl rfl rfl rfl
  | beginFailed => exact absurd rfl he
  | flushCache =>
    obtain ⟨hh, ht⟩ := ite_none_left_eq_some.mp ht
    obtain ⟨hh, hn⟩ := not_or.mp hh
    rw [not_isSome_iff_eq_none] at hn
    rw [ne_eq, not_not] at hh
    split at ht
    · cases ht
    next o r hr =>
    cases ht
    have hkp : (b.flushCache o).phase = b.phase ∧ ∀ c ks vl,
        (b.flushCache o).persisting = some (c, ks, vl) →
          ∀ k, k ∉ ks → k ≠ .version → vl k = none := by
      unfold CacheBuffer.flushCache
      dsimp only
      split_ifs
      · exact ⟨rfl, h.written⟩
      · exact ⟨rfl, h.written⟩
      · refine ⟨rfl, ?_⟩
        intro c ks vl hq k hu hy
        obtain ⟨rfl, rfl, rfl⟩ : o = c ∧ _ = ks ∧ _ = vl := by simpa using hq
        cases k with
        | version => exact absurd rfl hy
        | attr id => simp [DatasourceCache.flushed, hu]
    refine ⟨fun c id hm => ?_, hkp.2, fun ho => ?_⟩
    · exact (h.tracked c id (valueOf_flushCache b c o _ ▸ hm)).flushCache hr hn
    · have ho : b.phase = .idle ∨ b.phase = .committing := hkp.1 ▸ ho
      simp [hh] at ho
  | persisted =>
    obtain ⟨⟨o, ks, vl⟩, hp, rfl⟩ := map_eq_some_iff.mp ht
    refine ⟨fun c id hm => ?_, by simp, h.exhausted⟩
    exact (h.tracked c id hm).persisted hm hp (h.written _ _ _ hp) (by simp)
  | persistFailed =>
    obtain ⟨⟨o, ks, vl⟩, hp, rfl⟩ := map_eq_some_iff.mp ht
    refine ⟨fun c id hm => ?_, by simp, h.exhausted⟩
    have hv := (restore_spec b c o (.attr id) ks).1
    exact (h.tracked c id (hv ▸ hm)).persistFailed hp
  | finish =>
    obtain ⟨hd, ht⟩ := ite_none_left_eq_some.mp ht
    have hr : b.remaining = [] := not_not.mp (not_or.mp (not_or.mp hd).2).2
    split_ifs at ht with hl <;> obtain rfl := Option.some.inj ht
    · refine ⟨fun c id hm => ?_, h.written, fun _ => hr⟩
      cases h.tracked c id hm with
      | dirty hmem hs => exact .dirty hmem hs
      | persisting hp hmem hq => exact .persisting hp hmem hq
      | staged _ hf => simp [hl] at hf
      | stored hp _ hq => exact .stored hp (.inl rfl) hq
    · refine ⟨fun c id hm => ?_, h.written, fun _ => hr⟩
      exact (h.tracked c id hm).mono rfl (fun hmem hs => .dirty hmem hs) rfl rfl rfl rfl
  | committed =>
    obtain ⟨hh, hq⟩ := ite_none_left_eq_some.mp ht
    cases hq
    refine ⟨fun c id hm => (h.tracked c id hm).committed hm, h.written, fun _ => ?_⟩
    exact h.exhausted (.inr (not_not.mp hh))
  | commitFailed =>
    obtain ⟨hh, hq⟩ := ite_none_left_eq_some.mp ht
    cases hq
    have hsp (c : Nat) (k : Key) := restoreAll_spec b.flushedKeys b c k
    refine ⟨fun c id hm => ?_, ?_, fun _ => ?_⟩
    · exact (h.tracked c id ((hsp c _).1 ▸ hm)).commitFailed
    · intro c ks vl hp
      exact h.written c ks vl ((hsp 0 .version).2.2.2.2.2.1.symm.trans hp)
    · exact (hsp 0 .version).2.2.2.2.1.trans (h.exhausted (.inr (not_not.mp hh)))

end CacheBuffer

/-- While no transaction fails to begin, an attribute whose latest value is not the stored one is
part of the flush in progress, or waits in a cache that the next flush takes. -/
theorem uncommitted_values_are_not_orphaned (events : List CacheEvent) (b : CacheBuffer)
    (hrun : Run (guarded CacheBuffer.step (fun _ event => event ≠ .beginFailed)) {} events b)
    (cache id : Nat) (hvalue : ((b.caches cache).valueOf (.attr id)).isSome)
    (huncommitted : b.stored cache (.attr id) ≠ (b.caches cache).valueOf (.attr id)) :
    b.InFlush cache (.attr id) ∨ b.Waits cache (.attr id) := by
  have hn : b.Sound := by
    refine guarded_invariant (I := CacheBuffer.Sound) ?_ hrun
      ⟨by simp [DatasourceCache.valueOf], by simp, fun _ => rfl⟩
    intro b event b' he ht h
    exact h.step he ht
  cases hn.tracked cache id hvalue with
  | dirty hm hs =>
    rcases hs with hs | hs
    · exact .inr ⟨hm, hs⟩
    · exact .inl (.inl ⟨hs, hm⟩)
  | persisting hp hm _ => exact .inl (.inr (.inl ⟨_, _, hp, hm⟩))
  | staged _ hf hm _ => exact .inl (.inr (.inr ⟨_, hf, hm⟩))
  | stored _ _ hq => exact absurd hq huncommitted

/-- A value is set again while the older one is written, and the commit fails. -/
theorem uncommitted_values_are_not_orphaned_commit_failed :
    ∃ b : CacheBuffer, b.stored 3 (.attr 1) ≠ (b.caches 3).valueOf (.attr 1) ∧
      (b.InFlush 3 (.attr 1) ∨ b.Waits 3 (.attr 1)) :=
  ⟨_, by decide, uncommitted_values_are_not_orphaned
    [.externalSet 3 [(.attr 1, 7), (.version, 2)], .doFlush, .begun, .flushCache,
      .externalSet 3 [(.attr 1, 8)], .persisted, .finish, .commitFailed] _ (run_of_exec rfl) 3 1
    (by decide) (by decide)⟩

/-- The transaction of a flush does not begin. The cache keeps its dirty key, but the buffer has
forgotten the cache, and the next flush writes nothing. -/
theorem failed_begin_orphans_cache : ∃ b : CacheBuffer,
      exec CacheBuffer.step {} [.externalSet 3 [(.attr 1, 7)], .doFlush, .beginFailed] = some b ∧
      b.stored 3 (.attr 1) ≠ (b.caches 3).valueOf (.attr 1) ∧
      ¬ b.InFlush 3 (.attr 1) ∧ ¬ b.Waits 3 (.attr 1) ∧ b.step .doFlush = some b := by
  refine ⟨_, rfl, by decide, ?_, ?_, rfl⟩
  · rintro (⟨hm, -⟩ | ⟨_, _, hp, -⟩ | ⟨_, hf, -⟩)
    · cases hm
    · cases hp
    · cases hf
  · rintro ⟨-, hm⟩
    cases hm

end MatterJs.Client
