import MatterJs.Subscription.ServerSubscription

/-!
# No attribute change is lost

A change is suppressed while the subscription is seeded when the initial report carries the version
it is announced with. That is right as long as the initial report reads no path of a cluster between
phase one of a change and its announcement, unless all that changed is still to be read. A third
failed update loses its attributes unless it ends the subscription.
-/
namespace MatterJs.Subscription

open TransitionSystem List Function

variable {V : Type}

def pathsOf (chunks : List (List ReadPath)) : List AttributePath :=
  chunks.flatten.map ReadPath.path

/-- Attributes with a new value that is not announced yet. -/
def Node.due (node : Node V) : List AttributePath :=
  node.announcing.flatMap Announcement.paths

namespace ServerSubscription

variable (s : ServerSubscription V)

def subscribed : List AttributePath :=
  pathsOf s.request

def outstanding : List AttributePath :=
  s.outstandingAttributeUpdates.getD []

def beingSent : List AttributePath :=
  match s.sending with
  | some update => update.attributeFilter.getD []
  | none => []

/-- What the initial report will still read. -/
def toRead : List AttributePath :=
  pathsOf s.unread

def live : Bool :=
  !s.isClosed && !s.isTerminated

end ServerSubscription

namespace Server

variable (s : Server V)

/-- The initial report reads an endpoint while no change of its clusters is between phase one and
phase two, and what is about to be announced in them is still to be read. An update that fails for
the third time fails in the communication with the peer. Versions do not come round. -/
def undisturbed : SubscriptionEvent V → Bool
  | .startChange cluster => s.node.advances cluster + 1 < 2 ^ 32
  | .readChunk =>
    (s.subscription.unread.head?.getD []).all (fun path =>
      !s.node.changing path.path.cluster &&
        s.node.due.all (fun due => due.cluster != path.path.cluster ||
          !s.subscription.subscribed.contains due || s.subscription.toRead.contains due))
  | .settle (.failed communication) => communication || s.subscription.sendUpdateErrorCounter < 2
  | _ => true

/-- The subscriber has the value, or the initial report will have it. -/
def Known (x : AttributePath) : Prop :=
  s.reported x = some (s.node.values x) ∨ x ∈ s.subscription.toRead

/-- The version was read in the initial report, and if it is still the cluster's then what changed
last is in the initial report too. -/
def Recent (cluster : ClusterKey) (version : Nat) : Prop :=
  ∃ n ≤ s.node.advances cluster, version = (s.node.first cluster + n) % 2 ^ 32 ∧
    (n = s.node.advances cluster → s.node.changing cluster = false ∧
      ∀ x ∈ s.node.due, x.cluster = cluster → x ∈ s.subscription.subscribed → s.Known x)

/-- What the seeding keeps to. -/
structure Seeded (s : Server V) : Prop where
  bound : ∀ cluster, s.node.advances cluster < 2 ^ 32
  seeded : ∀ seeded cluster version, s.subscription.seededClusterDetails = some seeded →
    seeded cluster = some version → s.Recent cluster version
  chunk : ∀ value ∈ s.subscription.chunk, s.Recent value.path.cluster value.version
  active : s.subscription.sendUpdatesActivated →
    (∀ cluster, s.subscription.dataVersionFilters cluster = none) ∧
      s.subscription.unread = [] ∧ s.subscription.chunk = [] ∧
      s.subscription.seededClusterDetails = none
  delay : s.subscription.sendDelayTimer → s.subscription.sendUpdatesActivated

/-- The attribute is known to the subscriber, about to be announced or on its way. -/
def Accounted (x : AttributePath) : Prop :=
  s.Known x ∨ x ∈ s.node.due ∨ x ∈ s.subscription.outstanding

/-- The attribute is going to be sent. -/
def Pending (x : AttributePath) : Prop :=
  x ∈ s.node.due ∨ x ∈ s.subscription.outstanding

/-- The update being sent has read, or will read, all of its attributes, and what it has read and
is no longer current will be sent again. -/
structure Complete (s : Server V) (update : Sending V) : Prop where
  unread : ∀ x ∈ update.attributeFilter.getD [], x ∈ s.subscription.subscribed →
    x ∈ pathsOf update.unread ∨ ∃ value ∈ update.values, value.path = x
  current : ∀ value ∈ update.values, value.value = s.node.values value.path ∨
    value.path ∈ s.node.due ∨ value.path ∈ s.subscription.outstanding

structure Sound (s : Server V) : Prop where
  seeded : s.Seeded
  idle : s.subscription.sendUpdatesActivated = false → s.subscription.sending = none
  promise : s.subscription.currentUpdatePromise = false → s.subscription.sending = none
  complete : ∀ update, s.subscription.sending = some update → s.Complete update
  accounted : ∀ x ∈ s.subscription.subscribed, s.Accounted x ∨ x ∈ s.subscription.beingSent

end Server

/-! ### What the functions of the subscription leave alone -/

namespace ServerSubscription

variable {s s' : ServerSubscription V} {n : Node V} {u : Option (List AttributePath)}

/-- The two subscriptions differ in the updates only. -/
structure SameReport (s s' : ServerSubscription V) : Prop where
  request : s'.request = s.request
  filters : s'.dataVersionFilters = s.dataVersionFilters
  isClosed : s'.isClosed = s.isClosed
  isTerminated : s'.isTerminated = s.isTerminated
  activated : s'.sendUpdatesActivated = s.sendUpdatesActivated
  seeded : s'.seededClusterDetails = s.seededClusterDetails
  unread : s'.unread = s.unread
  chunk : s'.chunk = s.chunk
  delay : s'.sendDelayTimer = s.sendDelayTimer

theorem sameReport (s : ServerSubscription V)
    {next p : Bool} {c : Nat} {sending : Option (Sending V)} :
    SameReport s { s with
      outstandingAttributeUpdates := u
      sendNextUpdateImmediately := next
      sendUpdateErrorCounter := c
      currentUpdatePromise := p
      sending := sending } :=
  ⟨rfl, rfl, rfl, rfl, rfl, rfl, rfl, rfl, rfl⟩

theorem SameReport.trans {s'' : ServerSubscription V} (h : SameReport s s')
    (h' : SameReport s' s'') : SameReport s s'' :=
  ⟨h'.1.trans h.1, h'.2.trans h.2, h'.3.trans h.3, h'.4.trans h.4, h'.5.trans h.5,
    h'.6.trans h.6, h'.7.trans h.7, h'.8.trans h.8, h'.9.trans h.9⟩

section

variable (s)

theorem nextUpdate_sameReport (n : Node V) (o : Bool) : SameReport s (s.nextUpdate n o) := by
  unfold nextUpdate
  simp only
  split_ifs <;> exact sameReport s

theorem trigger_sameReport (n : Node V) (o : Bool) : SameReport s (s.triggerSendUpdate n o) := by
  unfold triggerSendUpdate
  split_ifs
  · exact sameReport s
  · exact (sameReport s).trans (nextUpdate_sameReport _ n o)

theorem goOn_sameReport (n : Node V) : SameReport s (s.goOn n) := by
  unfold goOn
  split_ifs
  · exact (sameReport s).trans (nextUpdate_sameReport _ n true)
  · exact sameReport s

theorem prepareDataUpdate_eq (e : Bool) : s.prepareDataUpdate e = s ∨
      s.sendUpdatesActivated ∧ s.prepareDataUpdate e = { s with sendDelayTimer := true } := by
  unfold prepareDataUpdate
  split_ifs with h
  · exact .inl rfl
  · simp only [Bool.or_eq_true, not_or] at h
    exact .inr ⟨by simpa using h.1.2, rfl⟩

theorem mem_foldl_insert {x : AttributePath} (c paths : List AttributePath) :
    x ∈ c.foldl (·.insert ·) paths ↔ x ∈ c ∨ x ∈ paths := by
  induction c generalizing paths with
  | nil => simp
  | cons path c ih =>
    rw [foldl_cons, ih, mem_insert_iff, mem_cons]
    tauto

theorem addOutstanding_eq (c : List AttributePath) :
    ∃ u, s.addOutstandingAttributes c = { s with outstandingAttributeUpdates := u } ∧
      ∀ x, x ∈ u.getD [] ↔ x ∈ c ∨ x ∈ s.outstanding := by
  unfold addOutstandingAttributes
  by_cases h : c.isEmpty
  · rw [if_pos h]
    refine ⟨s.outstandingAttributeUpdates, rfl, ?_⟩
    rw [List.isEmpty_iff.mp h]
    simp [outstanding]
  · rw [if_neg h]
    refine ⟨_, rfl, ?_⟩
    intro x
    exact mem_foldl_insert c _

end

/-! ### A subscription that has ended stays so -/

theorem SameReport.live (h : SameReport s s') : s'.live = s.live := by
  unfold ServerSubscription.live
  rw [h.isClosed, h.isTerminated]

theorem prepareDataUpdate_live (s : ServerSubscription V) (e : Bool) :
    (s.prepareDataUpdate e).live = s.live := by
  rcases prepareDataUpdate_eq s e with he | ⟨-, he⟩
  · rw [he]
  · rw [he]
    rfl

theorem handleClusterStateChanges_live (s : ServerSubscription V) (c : Announcement)
    (v : Nat) (e : Bool) : (s.handleClusterStateChanges c v e).live = s.live := by
  unfold handleClusterStateChanges
  split_ifs
  · rfl
  · rfl
  · obtain ⟨u, he, -⟩ := addOutstanding_eq s c.paths
    rw [prepareDataUpdate_live, he]
    rfl

theorem live_of_activate {c : Bool} (hl : (s.activate n c).live) : s.live := by
  unfold activate at hl
  split_ifs at hl
  · simp [live] at hl
  · rwa [(trigger_sameReport _ _ _).live] at hl
  · exact hl

theorem close_isClosed (s : ServerSubscription V) (n : Node V) (f : Bool) :
    (s.close n f).isClosed := by
  unfold close
  split_ifs with hc
  · exact hc
  · exact (trigger_sameReport _ n true).isClosed
  · rfl

theorem sendUpdate_status_isClosed (s : ServerSubscription V) (n : Node V) (d : Sending V)
    (i : Bool) : (s.sendUpdate n d (.status i)).isClosed :=
  (goOn_sameReport _ n).isClosed

variable {d : Sending V}

theorem live_of_sendUpdate {o : SendOutcome} (hl : (s.sendUpdate n d o).live) : s.live := by
  cases o with
  | sent => rwa [sendUpdate, (goOn_sameReport _ _).live] at hl
  | status i => simp [live, sendUpdate_status_isClosed] at hl
  | failed c =>
    unfold sendUpdate at hl
    simp only at hl
    split_ifs at hl
    · exact hl
    · rw [(goOn_sameReport _ _).live] at hl
      obtain ⟨u, he, -⟩ := addOutstanding_eq
        { s with sendUpdateErrorCounter := s.sendUpdateErrorCounter + 1 }
        (d.attributeFilter.getD [])
      rwa [he] at hl
    · simp [live, closeFromUpdate] at hl
    · exact hl

/-- A failed update that does not end the subscription is put back. -/
theorem sendUpdate_failed {c : Bool} (hn : c ∨ s.sendUpdateErrorCounter < 2)
    (hv : (s.sendUpdate n d (.failed c)).live) : ∃ u k, s.sendUpdate n d (.failed c) =
        goOn { s with
          sendUpdateErrorCounter := k
          outstandingAttributeUpdates := u } n ∧
      ∀ x, x ∈ u.getD [] ↔ x ∈ d.attributeFilter.getD [] ∨ x ∈ s.outstanding := by
  unfold sendUpdate at hv ⊢
  simp only at hv ⊢
  split_ifs at hv ⊢ with he ha hc
  · simp only [Bool.or_eq_true] at he
    rcases he with hl | ht
    · simp [live, hl] at hv
    · simp [live, ht] at hv
  · obtain ⟨u, hq, hm⟩ := addOutstanding_eq
      { s with sendUpdateErrorCounter := s.sendUpdateErrorCounter + 1 }
      (d.attributeFilter.getD [])
    exact ⟨u, s.sendUpdateErrorCounter + 1, congrArg (goOn · n) hq, hm⟩
  · simp [live, closeFromUpdate] at hv
  · rcases hn with hy | hf
    · exact absurd hy hc
    · omega

end ServerSubscription

namespace Server

open ServerSubscription

variable {s t : Server V} {n : Node V}

variable {k : ClusterKey} {x : AttributePath} {vs : ClusterKey → Option Nat}
  {r : List (List ReadPath)} {d : Sending V} {ie : Nat} {c : Announcement}
  {u : Option (List AttributePath)}

/-- A version stays recent while the cluster's version, if it is the same, has the same values. -/
theorem Recent.mono {version : Nat} (h : s.Recent k version) (hf : t.node.first = s.node.first)
    (ha : s.node.advances k ≤ t.node.advances k) (hls : t.node.advances k = s.node.advances k →
    s.node.changing k = false → t.node.changing k = false ∧ ∀ x ∈ t.node.due, x.cluster = k →
    x ∈ t.subscription.subscribed → x ∈ s.node.due ∧ x ∈ s.subscription.subscribed ∧
    (s.Known x → t.Known x)) : t.Recent k version := by
  obtain ⟨n, hn, hv, hcr⟩ := h
  refine ⟨n, Nat.le_trans hn ha, by rw [hf, hv], ?_⟩
  intro hl
  have he : n = s.node.advances k := by omega
  obtain ⟨hh, hk⟩ := hcr he
  obtain ⟨hc', hm⟩ := hls (by omega) hh
  refine ⟨hc', ?_⟩
  intro x hx hc hs
  obtain ⟨hd, hwas, hp⟩ := hm x hx hc hs
  exact hp (hk x hd hc hwas)

theorem Seeded.mono (h : s.Seeded) (hm : SameReport s.subscription t.subscription)
    (hb : ∀ k, t.node.advances k < 2 ^ 32) (hr : s.subscription.sendUpdatesActivated = false →
    ∀ k v, s.Recent k v → t.Recent k v) : t.Seeded := by
  have hc : t.subscription.sendUpdatesActivated →
      (∀ k, t.subscription.dataVersionFilters k = none) ∧
        t.subscription.unread = [] ∧ t.subscription.chunk = [] ∧
        t.subscription.seededClusterDetails = none := by
    intro ha
    rw [hm.filters, hm.unread, hm.chunk, hm.seeded]
    exact h.active (hm.activated ▸ ha)
  refine ⟨hb, ?_, ?_, hc, ?_⟩
  · intro e k v hs hvr
    cases ha : t.subscription.sendUpdatesActivated with
    | true =>
      rw [(hc ha).2.2.2] at hs
      cases hs
    | false =>
      rw [hm.seeded] at hs
      rw [hm.activated] at ha
      exact hr ha _ _ (h.seeded e k v hs hvr)
  · intro value hv
    cases ha : t.subscription.sendUpdatesActivated with
    | true =>
      rw [(hc ha).2.2.1] at hv
      cases hv
    | false =>
      rw [hm.chunk] at hv
      rw [hm.activated] at ha
      exact hr ha _ _ (h.chunk value hv)
  · intro hd
    rw [hm.activated]
    exact h.delay (hm.delay ▸ hd)

/-- Only the updates change. -/
theorem Seeded.keep (h : s.Seeded) (hm : SameReport s.subscription t.subscription)
    (hn : t.node = s.node)
    (hr : s.subscription.sendUpdatesActivated = false → t.reported = s.reported) : t.Seeded := by
  refine h.mono hm (by rw [hn]; exact h.bound) ?_
  intro ha k v hrc
  refine hrc.mono (by rw [hn]) (Nat.le_of_eq (by rw [hn])) ?_
  intro _ hc
  rw [hn]
  refine ⟨hc, ?_⟩
  intro x hd _ hs
  refine ⟨hd, ?_, ?_⟩
  · unfold subscribed at hs ⊢
    rwa [hm.request] at hs
  · unfold Known toRead
    rw [hn, hr ha, hm.unread]
    exact id

/-! ### The loop of `#sendUpdate` -/

/-- No update is being sent, and what is not accounted for otherwise is outstanding. -/
theorem Sound.of_idle (hd : s.Seeded) (hs : s.subscription.sending = none)
    (ha : ∀ x ∈ s.subscription.subscribed, s.Accounted x) : s.Sound := by
  refine ⟨hd, fun _ => hs, fun _ => hs, ?_, fun x hx => .inl (ha x hx)⟩
  intro u hu
  rw [hs] at hu
  cases hu

theorem Sound.accounted_of_idle (h : s.Sound)
    (hs : s.subscription.sending = none) (hx : x ∈ s.subscription.subscribed) : s.Accounted x := by
  refine (h.accounted x hx).resolve_right ?_
  simp [beingSent, hs]

theorem pathsOf_process (hv : ∀ k, vs k = none) : process n vs r = r := by
  unfold process
  have ha : ∀ paths : List ReadPath, paths.filter (fun path => path.wildcard ||
      vs path.path.cluster != some (n.version path.path.cluster)) = paths := by
    intro paths
    rw [filter_eq_self]
    intro path _
    rw [hv]
    simp
  simp [ha]

variable {o : Bool}

namespace Sound

/-- A new update takes all that is outstanding. -/
theorem nextUpdate (hsd : s.Seeded) (hc : s.subscription.sendUpdatesActivated)
    (hp : s.subscription.currentUpdatePromise)
    (ha : ∀ x ∈ s.subscription.subscribed, s.Accounted x) :
    Sound { s with subscription := s.subscription.nextUpdate s.node o } := by
  have hs' : Seeded
      { s with subscription := s.subscription.nextUpdate s.node o } :=
    hsd.keep (nextUpdate_sameReport s.subscription s.node o) rfl (fun _ => rfl)
  unfold ServerSubscription.nextUpdate at hs' ⊢
  by_cases hn : (o && s.subscription.outstandingAttributeUpdates.isNone)
  · rw [if_pos hn] at hs' ⊢
    refine of_idle hs' rfl ?_
    intro x hx
    have he : s.subscription.outstandingAttributeUpdates = none := by
      simp only [Bool.and_eq_true, Option.isNone_iff_eq_none] at hn
      exact hn.2
    rcases ha x hx with hk | hd | ho
    · exact .inl hk
    · exact .inr (.inl hd)
    · unfold outstanding at ho
      rw [he] at ho
      cases ho
  · rw [if_neg hn] at hs' ⊢
    refine ⟨hs', ?_, ?_, ?_, ?_⟩
    · intro hi
      rw [hc] at hi
      cases hi
    · intro hfree
      rw [hp] at hfree
      cases hfree
    · rintro u ⟨rfl⟩
      refine ⟨?_, fun v hv => by cases hv⟩
      intro x hx hs
      left
      cases hf : s.subscription.outstandingAttributeUpdates with
      | none =>
        rw [hf] at hx
        cases hx
      | some f =>
        rw [pathsOf_process (hsd.active hc).1]
        exact hs
    · intro x hx
      rcases ha x hx with hk | hd | ho
      · exact .inl (.inl hk)
      · exact .inl (.inr (.inl hd))
      · exact .inr ho

theorem goOn (hs : s.Seeded) (hc : s.subscription.sendUpdatesActivated)
    (hp : s.subscription.currentUpdatePromise)
    (ha : ∀ x ∈ s.subscription.subscribed, s.Accounted x) :
    Sound { s with subscription := s.subscription.goOn s.node } := by
  have hs' : Seeded { s with subscription := s.subscription.goOn s.node } :=
    hs.keep (goOn_sameReport s.subscription s.node) rfl (fun _ => rfl)
  unfold ServerSubscription.goOn at hs' ⊢
  split_ifs with hi
  · let u : Server V := { s with
      subscription := { s.subscription with sendNextUpdateImmediately := false } }
    have hu : u.Seeded := hs.keep (sameReport _) rfl (fun _ => rfl)
    exact nextUpdate (s := u) hu hc hp ha
  · rw [if_neg hi] at hs'
    exact of_idle hs' rfl ha

/-- The update being sent stays complete, and what was accounted for still is. -/
theorem carry (h : s.Sound) (hd : t.Seeded) (hr : t.subscription.request = s.subscription.request)
    (hs : t.subscription.sending = s.subscription.sending)
    (hi : t.subscription.sendUpdatesActivated = false → s.subscription.sending = none)
    (hp : t.subscription.currentUpdatePromise = false → s.subscription.sending = none)
    (hv : ∀ x, t.node.values x = s.node.values x ∨ t.Pending x)
    (hpn : s.subscription.sending ≠ none → ∀ x, s.Pending x → t.Pending x)
    (ha : ∀ x ∈ s.subscription.subscribed, s.Accounted x → t.Accounted x) : t.Sound := by
  have hb : t.subscription.subscribed = s.subscription.subscribed := by
    unfold subscribed
    rw [hr]
  refine ⟨hd, hs ▸ hi, hs ▸ hp, ?_, ?_⟩
  · intro u hu
    rw [hs] at hu
    obtain ⟨hrs, hc⟩ := h.complete u hu
    refine ⟨hb ▸ hrs, ?_⟩
    intro value hl
    rcases hc value hl with he | hwas
    · rcases hv value.path with hm | hn
      · exact .inl (he.trans hm.symm)
      · exact .inr hn
    · exact .inr (hpn (by simp [hu]) _ hwas)
  · intro x hx
    rw [hb] at hx
    unfold beingSent
    rw [hs]
    exact (h.accounted x hx).imp_left (ha x hx)

/-- The change concerns neither the report nor what is being sent. -/
theorem keep (h : s.Sound) (hd : t.Seeded) (hn : t.node = s.node)
    (hr : t.reported = s.reported) (hq : t.subscription.request = s.subscription.request)
    (ha : t.subscription.sendUpdatesActivated = s.subscription.sendUpdatesActivated)
    (hu : t.subscription.unread = s.subscription.unread)
    (hs : t.subscription.sending = s.subscription.sending)
    (ho : t.subscription.outstanding = s.subscription.outstanding)
    (hp : t.subscription.currentUpdatePromise = false → s.subscription.sending = none) :
    t.Sound := by
  refine h.carry hd hq hs (ha ▸ h.idle) hp ?_ ?_ ?_
  · exact fun _ => .inl (by rw [hn])
  · intro _ x hx
    unfold Pending
    rwa [hn, ho]
  · intro x _ hx
    unfold Accounted Known toRead
    rwa [hr, hn, hu, ho]

theorem triggerSendUpdate (h : s.Sound) (ha : s.subscription.sendUpdatesActivated) :
    Sound { s with subscription := s.subscription.triggerSendUpdate s.node o } := by
  unfold ServerSubscription.triggerSendUpdate
  split_ifs with hp
  · refine h.keep ?_ rfl rfl rfl rfl rfl rfl rfl h.promise
    exact h.seeded.keep (sameReport _) rfl (fun _ => rfl)
  · let u : Server V := { s with
      subscription := { s.subscription with currentUpdatePromise := true } }
    have hu : u.Seeded := h.seeded.keep (sameReport _) rfl (fun _ => rfl)
    refine nextUpdate (s := u) hu ha rfl ?_
    intro x hx
    exact h.accounted_of_idle (h.promise (by simpa using hp)) hx

end Sound

/-! ### The end of an update -/

theorem report_cases (r : AttributePath → Option V) (a : List (AttributeValue V))
    (x : AttributePath) : (∃ v ∈ a, v.path = x ∧ report r a x = some v.value) ∨
      (∀ v ∈ a, v.path ≠ x) ∧ report r a x = r x := by
  unfold report
  cases hf : a.find? (·.path == x) with
  | some v =>
    left
    have hp := find?_some hf
    exact ⟨v, mem_of_find?_eq_some hf, by simpa using hp, rfl⟩
  | none =>
    right
    refine ⟨?_, rfl⟩
    intro v hv hp
    have hn := find?_eq_none.mp hf v hv
    simp [hp] at hn

/-- The update went out: the subscriber has what was read, and what has changed since is due or
outstanding. -/
theorem Sound.sent (h : s.Sound) (hs : s.subscription.sending = some d) (hrd : d.unread = []) :
    ∀ x ∈ s.subscription.subscribed,
      Accounted { s with reported := report s.reported d.values } x := by
  intro x hx
  obtain ⟨hrs, hc⟩ := h.complete d hs
  rcases report_cases s.reported d.values x with ⟨value, hv, hp, hr⟩ | ⟨hn, hl⟩
  · rcases hc value hv with he | hd | ho
    · exact .inl (.inl (hr.trans (congrArg some (by rw [he, hp]))))
    · exact .inr (.inl (hp ▸ hd))
    · exact .inr (.inr (hp ▸ ho))
  · rcases h.accounted x hx with ha | hf
    · rcases ha with (hk | hu) | hr'
      · exact .inl (.inl (hl.trans hk))
      · exact .inl (.inr hu)
      · exact .inr hr'
    · unfold beingSent at hf
      rw [hs] at hf
      rcases hrs x hf hx with hu | ⟨value, hv, hp⟩
      · rw [hrd] at hu
        cases hu
      · exact absurd hp (hn value hv)

theorem Sound.active_of_sending (h : s.Sound) (hs : s.subscription.sending = some d) :
    s.subscription.sendUpdatesActivated ∧ s.subscription.currentUpdatePromise := by
  constructor
  · by_contra hi
    rw [h.idle (by simpa using hi)] at hs
    cases hs
  · by_contra hfree
    rw [h.promise (by simpa using hfree)] at hs
    cases hs

theorem Sound.settle {o : SendOutcome} (h : s.Sound) (hs : s.subscription.sending = some d)
    (hrd : o = .sent → d.unread = []) (hg : s.undisturbed (.settle o))
    (hl : (s.subscription.sendUpdate s.node d o).live) :
    Sound { s with
      subscription := s.subscription.sendUpdate s.node d o
      reported := if o = .sent then report s.reported d.values else s.reported } := by
  obtain ⟨ha, hp⟩ := h.active_of_sending hs
  cases o with
  | sent =>
    let u : Server V := { s with
      subscription := { s.subscription with sendUpdateErrorCounter := 0 }
      reported := report s.reported d.values }
    have hu : u.Seeded := by
      refine h.seeded.keep (sameReport _) rfl ?_
      intro hi
      rw [ha] at hi
      cases hi
    exact Sound.goOn (s := u) hu ha hp (h.sent hs (hrd rfl))
  | status i =>
    simp [live, sendUpdate_status_isClosed] at hl
  | failed c =>
    simp only [undisturbed, Bool.or_eq_true, decide_eq_true_eq] at hg
    obtain ⟨p, counter, he, hm⟩ := sendUpdate_failed hg hl
    rw [he]
    let u : Server V := { s with subscription := { s.subscription with
      sendUpdateErrorCounter := counter
      outstandingAttributeUpdates := p } }
    have hu : u.Seeded := h.seeded.keep (sameReport _) rfl (fun _ => rfl)
    refine Sound.goOn (s := u) hu ha hp ?_
    intro x hx
    rcases h.accounted x hx with (hk | hd | ho) | hf
    · exact .inl hk
    · exact .inr (.inl hd)
    · exact .inr (.inr ((hm x).mpr (.inr ho)))
    · unfold beingSent at hf
      rw [hs] at hf
      exact .inr (.inr ((hm x).mpr (.inl hf)))

/-! ### Changes of the node -/

variable {cs : List (Nat × V)}

theorem setValues_of_notMem (v : AttributePath → V)
    (hx : x ∉ (⟨k.1, k.2, cs.map Prod.fst⟩ : Announcement).paths) :
    Node.setValues k v cs x = v x := by
  induction cs generalizing v with
  | nil => rfl
  | cons c cs ih =>
    simp only [Announcement.paths, map_cons, mem_cons, not_or] at hx
    unfold Node.setValues
    rw [ih _ hx.2, update_of_ne hx.1]

/-- The values change only where the change is going to be announced. -/
theorem Sound.changeNode (h : s.Sound) (hb : ∀ k, n.advances k < 2 ^ 32)
    (hr : ∀ k v, s.Recent k v → Recent { s with node := n } k v) (hd : s.node.due ⊆ n.due)
    (hv : ∀ x, n.values x = s.node.values x ∨ x ∈ n.due) : Sound { s with node := n } := by
  refine h.carry ?_ rfl rfl h.idle h.promise ?_ ?_ ?_
  · exact h.seeded.mono (sameReport _) hb (fun _ => hr)
  · exact fun x => (hv x).imp_right .inl
  · exact fun _ x hx => hx.imp_left (fun hwas => hd hwas)
  · rintro x - ((hk | hu) | hwas | ho)
    · rcases hv x with hs | hn
      · exact .inl (.inl (hk.trans (congrArg some hs.symm)))
      · exact .inr (.inl hn)
    · exact .inl (.inr hu)
    · exact .inr (.inl (hd hwas))
    · exact .inr (.inr ho)

theorem Sound.startChange (h : s.Sound) (hg : s.undisturbed (.startChange k))
    (ht : s.node.startChange k = some n) : Sound { s with node := n } := by
  unfold Node.startChange at ht
  split_ifs at ht with hh
  cases ht
  refine h.changeNode ?_ ?_ (List.Subset.refl _) (fun _ => .inl rfl)
  · intro c
    by_cases hc : c = k
    · subst hc
      simpa [undisturbed] using hg
    · simpa [update_of_ne hc] using h.seeded.bound c
  · intro c v hr
    by_cases hc : c = k
    · subst hc
      refine hr.mono rfl (by simp) ?_
      intro hm
      simp at hm
    · refine hr.mono rfl (by simp [update_of_ne hc]) ?_
      intro _ hn
      refine ⟨by simpa [update_of_ne hc] using hn, ?_⟩
      intro x hx _ hs
      exact ⟨hx, hs, id⟩

theorem Sound.cancelChange (h : s.Sound)
    (ht : s.node.cancelChange k = some n) : Sound { s with node := n } := by
  unfold Node.cancelChange at ht
  split_ifs at ht with hh
  cases ht
  refine h.changeNode h.seeded.bound ?_ (List.Subset.refl _) (fun _ => .inl rfl)
  intro c v hr
  refine hr.mono rfl (Nat.le_refl _) ?_
  intro _ hn
  constructor
  · by_cases hc : c = k
    · simp [hc]
    · simpa [update_of_ne hc] using hn
  · intro x hx _ hs
    exact ⟨hx, hs, id⟩

theorem Sound.replaceValues (h : s.Sound)
    (ht : s.node.replaceValues k cs = some n) : Sound { s with node := n } := by
  unfold Node.replaceValues at ht
  split_ifs at ht with hh
  cases ht
  refine h.changeNode h.seeded.bound ?_ ?_ ?_
  · intro c v hr
    refine hr.mono rfl (Nat.le_refl _) ?_
    intro _ hno
    have hc : c ≠ k := by
      rintro rfl
      rw [hh] at hno
      cases hno
    refine ⟨by simpa [update_of_ne hc] using hno, ?_⟩
    intro x hx hl hs
    have hn : x ∉ (⟨k.1, k.2, cs.map Prod.fst⟩ : Announcement).paths := by
      intro hm
      obtain ⟨id, -, rfl⟩ := mem_map.mp hm
      exact hc hl.symm
    have hd : x ∈ s.node.due := by
      simp only [Node.due, flatMap_append, mem_append] at hx
      rcases hx with ho | he
      · exact ho
      · simp only [flatMap_cons, flatMap_nil, append_nil] at he
        exact absurd he hn
    refine ⟨hd, hs, ?_⟩
    rintro (hk | hu)
    · exact .inl (hk.trans (congrArg some (setValues_of_notMem s.node.values hn).symm))
    · exact .inr hu
  · intro x hx
    simp only [Node.due, flatMap_append, mem_append]
    exact .inl hx
  · intro x
    by_cases hm : x ∈ (⟨k.1, k.2, cs.map Prod.fst⟩ : Announcement).paths
    · right
      simp only [Node.due, flatMap_append, mem_append]
      exact .inr (by simpa using hm)
    · exact .inl (setValues_of_notMem s.node.values hm)

/-! ### Announcements -/

theorem due_eraseIdx (hn : n.announcing[ie]? = some c) (hx : x ∈ n.due) :
    x ∈ c.paths ∨ x ∈ ({ n with announcing := n.announcing.eraseIdx ie } : Node V).due := by
  obtain ⟨other, ho, hm⟩ := mem_flatMap.mp hx
  by_cases he : other = c
  · exact .inl (he ▸ hm)
  · right
    refine mem_flatMap.mpr ⟨other, ?_, hm⟩
    rw [mem_eraseIdx_iff_getElem?]
    obtain ⟨i, hi⟩ := mem_iff_getElem?.mp ho
    refine ⟨i, ?_, hi⟩
    rintro rfl
    rw [hn] at hi
    exact he (Option.some.inj hi).symm

theorem due_of_eraseIdx
    (hx : x ∈ ({ n with announcing := n.announcing.eraseIdx ie } : Node V).due) :
    x ∈ n.due := by
  obtain ⟨c, hc, hm⟩ := mem_flatMap.mp hx
  exact mem_flatMap.mpr ⟨c, mem_of_mem_eraseIdx hc, hm⟩

section
variable (h : s.Sound)
include h

/-- A change announced with the version that the initial report carries is in the initial report. -/
theorem Sound.suppressed {d : ClusterKey → Option Nat}
    (hh : c ∈ s.node.announcing) (hd : s.subscription.seededClusterDetails = some d)
    (hv : d c.cluster = some (s.node.version c.cluster)) :
    ∀ x ∈ c.paths, x ∈ s.subscription.subscribed → s.Known x := by
  intro x hx hs
  obtain ⟨n, hn, he, hl⟩ := h.seeded.seeded d _ _ hd hv
  have hb := h.seeded.bound c.cluster
  -- versions within one round determine the number of advances
  have hc : n = s.node.advances c.cluster := by
    unfold Node.version at he
    omega
  obtain ⟨id, -, rfl⟩ := mem_map.mp hx
  exact (hl hc).2 _ (mem_flatMap.mpr ⟨c, hh, hx⟩) rfl hs

/-- An announcement is over once its attributes are outstanding or known. -/
theorem Sound.announced (hi : s.node.announcing[ie]? = some c)
    (hc : ∀ x ∈ c.paths, x ∈ s.subscription.outstanding ∨
      s.subscription.sending = none ∧ (x ∈ s.subscription.subscribed → s.Known x)) :
    Sound { s with node := { s.node with announcing := s.node.announcing.eraseIdx ie } } := by
  refine h.carry ?_ rfl rfl h.idle h.promise (fun _ => .inl rfl) ?_ ?_
  · refine h.seeded.mono (sameReport _) h.seeded.bound ?_
    intro _ k v hr
    refine hr.mono rfl (Nat.le_refl _) ?_
    intro _ hh
    exact ⟨hh, fun x hx _ hs => ⟨due_of_eraseIdx hx, hs, id⟩⟩
  · rintro hsn x (hd | ho)
    · rcases due_eraseIdx hi hd with hn | hl
      · exact .inr ((hc x hn).resolve_right (fun hnn => hsn hnn.1))
      · exact .inl hl
    · exact .inr ho
  · rintro x hx (hk | hd | ho)
    · exact .inl hk
    · rcases due_eraseIdx hi hd with hn | hl
      · rcases hc x hn with ho | ⟨-, hk⟩
        · exact .inr (.inr ho)
        · exact .inl (hk hx)
      · exact .inr (.inl hl)
    · exact .inr (.inr ho)

theorem Sound.addOutstanding (hm : ∀ x ∈ s.subscription.outstanding, x ∈ u.getD []) :
    Sound { s with
      subscription := { s.subscription with outstandingAttributeUpdates := u } } := by
  refine h.carry ?_ rfl rfl h.idle h.promise (fun _ => .inl rfl) ?_ ?_
  · exact h.seeded.keep (sameReport _) rfl (fun _ => rfl)
  · exact fun _ x hx => hx.imp_right (hm x)
  · exact fun x _ hx => hx.imp_right (Or.imp_right (hm x))

theorem Sound.prepareDataUpdate {e : Bool} :
    Sound { s with subscription := s.subscription.prepareDataUpdate e } := by
  rcases prepareDataUpdate_eq s.subscription e with he | ⟨ha, he⟩
  · rw [he]
    exact h
  · rw [he]
    refine h.keep ?_ rfl rfl rfl rfl rfl rfl rfl h.promise
    exact ⟨h.seeded.bound, h.seeded.seeded, h.seeded.chunk, h.seeded.active, fun _ => ha⟩

theorem Sound.announce {e : Bool}
    (hl : s.subscription.live) (hi : s.node.announcing[ie]? = some c) :
    Sound { s with
      node := { s.node with announcing := s.node.announcing.eraseIdx ie }
      subscription := handleClusterStateChanges s.subscription c
        (s.node.version c.cluster) e } := by
  unfold handleClusterStateChanges
  split_ifs with hg hs
  · refine h.announced hi ?_
    intro x hx
    simp only [Bool.or_eq_true, List.isEmpty_iff] at hg
    rcases hg with hc | he
    · simp [live, hc] at hl
    · simp [Announcement.paths, he] at hx
  · refine h.announced hi ?_
    intro x hx
    right
    cases hd : s.subscription.seededClusterDetails with
    | none => simp [hd] at hs
    | some se =>
      have hn : s.subscription.sendUpdatesActivated = false := by
        by_contra ha
        rw [(h.seeded.active (by simpa using ha)).2.2.2] at hd
        cases hd
      refine ⟨h.idle hn, ?_⟩
      rw [hd] at hs
      exact h.suppressed (mem_of_getElem? hi) hd (by simpa using hs) x hx
  · obtain ⟨u, hq, hm⟩ := addOutstanding_eq s.subscription c.paths
    rw [hq]
    have had : Sound { s with
        subscription := { s.subscription with outstandingAttributeUpdates := u } } :=
      h.addOutstanding (fun x hx => (hm x).mpr (.inr hx))
    have hdn := had.announced hi (fun x hx => .inl ((hm x).mpr (.inl hx)))
    exact hdn.prepareDataUpdate

end

/-! ### The initial report -/

variable {p : List ReadPath} {re : List (List ReadPath)}

theorem Sound.readChunk (h : s.Sound) (hg : s.undisturbed .readChunk)
    (hu : s.subscription.unread = p :: re) : (s.readChunk p re).Sound := by
  have hi : s.subscription.sendUpdatesActivated = false := by
    by_contra ha
    rw [(h.seeded.active (by simpa using ha)).2.1] at hu
    cases hu
  have hsn := h.idle hi
  have hr : ∀ x, (s.readChunk p re).reported x = some (s.node.values x) ∨
      x ∉ p.map ReadPath.path ∧ (s.readChunk p re).reported x = s.reported x := by
    intro x
    rcases report_cases s.reported (p.map (addValue s.node)) x with
      ⟨value, hv, rfl, hrp⟩ | ⟨hno, hd⟩
    · obtain ⟨path, -, rfl⟩ := mem_map.mp hv
      exact .inl hrp
    · refine .inr ⟨?_, hd⟩
      intro hm
      obtain ⟨path, hp, rfl⟩ := mem_map.mp hm
      exact hno _ (mem_map_of_mem hp) rfl
  have ht : ∀ x, x ∈ s.subscription.toRead → x ∈ p.map ReadPath.path ∨
      x ∈ (s.readChunk p re).subscription.toRead := by
    intro x hx
    unfold toRead pathsOf at hx
    rw [hu, flatten_cons, map_append, mem_append] at hx
    exact hx
  have hk : ∀ x, s.Known x → (s.readChunk p re).Known x := by
    intro x hx
    rcases hr x with hcr | ⟨hn, hd⟩
    · exact .inl hcr
    · rcases hx with hwas | hw
      · exact .inl (hd.trans hwas)
      · exact .inr ((ht x hw).resolve_left hn)
  have hrc : ∀ k version, s.Recent k version → (s.readChunk p re).Recent k version := by
    intro k version hwas
    refine hwas.mono rfl (Nat.le_refl _) ?_
    intro _ hc
    exact ⟨hc, fun x hx _ hs => ⟨hx, hs, hk x⟩⟩
  refine Sound.of_idle ⟨h.seeded.bound, ?_, ?_, ?_, h.seeded.delay⟩ hsn ?_
  · intro e k version hsd hvr
    exact hrc _ _ (h.seeded.seeded e k version hsd hvr)
  · intro value hv
    obtain ⟨path, hp, rfl⟩ := mem_map.mp hv
    simp only [undisturbed, hu, all_eq_true, Bool.and_eq_true, Bool.not_eq_true'] at hg
    obtain ⟨hc, he⟩ := hg path (mem_filter.mp hp).1
    refine ⟨_, Nat.le_refl _, rfl, ?_⟩
    intro _
    refine ⟨hc, ?_⟩
    intro x hx hcl hs
    have hs' : x ∈ s.subscription.subscribed := hs
    have hl := he x hx
    simp only [Bool.or_eq_true, bne_iff_ne, ne_eq, Bool.not_eq_true', contains_eq_mem,
      decide_eq_true_eq, decide_eq_false_iff_not] at hl
    rcases hl with (ho | hno) | hw
    · exact absurd hcl ho
    · exact absurd hs' hno
    · exact hk x (.inr hw)
  · intro ha
    have hf : s.subscription.sendUpdatesActivated := ha
    rw [hi] at hf
    cases hf
  · intro x hx
    exact (h.accounted_of_idle hsn hx).imp_left (hk x)

theorem Sound.passReport {l : AttributeValue V} {re : List (AttributeValue V)} (h : s.Sound)
    (hc : s.subscription.chunk = l :: re) :
    Sound { s with subscription := passReport s.subscription l re } := by
  have hr : ∀ k version, s.Recent k version →
      Recent { s with subscription := Server.passReport s.subscription l re }
        k version := fun _ _ hwas => hwas
  have hm : ∀ v ∈ re, v ∈ s.subscription.chunk := by
    intro v hv
    rw [hc]
    exact mem_cons_of_mem l hv
  refine h.keep ⟨h.seeded.bound, ?_, ?_, ?_, h.seeded.delay⟩ rfl rfl rfl rfl rfl rfl rfl h.promise
  · intro e k version hs hvr
    obtain ⟨o, ho, rfl⟩ := Option.map_eq_some_iff.mp hs
    by_cases hl : k = l.path.cluster
    · subst hl
      simp only [update_self, Option.some.injEq] at hvr
      subst hvr
      exact hr _ _ (h.seeded.chunk l (by rw [hc]; exact mem_cons_self))
    · rw [update_of_ne hl] at hvr
      exact hr _ _ (h.seeded.seeded o k version ho hvr)
  · intro v hv
    exact hr _ _ (h.seeded.chunk v (hm v hv))
  · intro ha
    have he := (h.seeded.active ha).2.2.1
    rw [hc] at he
    cases he

theorem Sound.activate {c : Bool} (h : s.Sound) (hc : s.subscription.chunk = [])
    (hn : s.subscription.unread = []) (hi : s.subscription.sendUpdatesActivated = false)
    (hl : (s.subscription.activate s.node c).live) :
    Sound { s with subscription := s.subscription.activate s.node c } := by
  let u : Server V := { s with subscription := { s.subscription with
    dataVersionFilters := fun _ => none
    sendUpdatesActivated := true
    seededClusterDetails := none } }
  have hu : u.Sound := by
    refine Sound.of_idle ⟨h.seeded.bound, ?_, ?_, ?_, fun _ => rfl⟩ (h.idle hi) ?_
    · intro e k v hs
      cases hs
    · intro value hv
      have hv' : value ∈ s.subscription.chunk := hv
      rw [hc] at hv'
      cases hv'
    · intro _
      exact ⟨fun _ => rfl, hn, hc, rfl⟩
    · exact fun x hx => h.accounted_of_idle (h.idle hi) hx
  unfold ServerSubscription.activate at hl ⊢
  split_ifs at hl ⊢ with hcl hm
  · simp [live] at hl
  · exact Sound.triggerSendUpdate (s := u) hu rfl
  · exact hu

/-! ### The update's payload -/

theorem Sound.readUpdate (h : s.Sound)
    (hs : s.subscription.sending = some d) (hu : d.unread = p :: re) :
    Sound { s with subscription := s.subscription.readUpdate s.node d p re } := by
  obtain ⟨ha, hp⟩ := h.active_of_sending hs
  obtain ⟨hrs, hc⟩ := h.complete d hs
  refine ⟨?_, ?_, ?_, ?_, ?_⟩
  · exact h.seeded.keep (sameReport _) rfl (fun _ => rfl)
  · intro hi
    rw [show s.subscription.sendUpdatesActivated = false from hi] at ha
    cases ha
  · intro hfree
    rw [show s.subscription.currentUpdatePromise = false from hfree] at hp
    cases hp
  · rintro _ ⟨rfl⟩
    constructor
    · intro x hx hb
      rcases hrs x hx hb with hw | ⟨value, hv, ht⟩
      · unfold pathsOf at hw
        rw [hu, flatten_cons, map_append, mem_append] at hw
        rcases hw with hn | hl
        · right
          obtain ⟨path, ht, rfl⟩ := mem_map.mp hn
          refine ⟨addValue s.node path, mem_append_left _ ?_, rfl⟩
          refine mem_map_of_mem (mem_filter.mpr ⟨mem_filter.mpr ⟨ht, ?_⟩, ?_⟩)
          · simpa using hx
          · rw [filteredByVersion, (h.seeded.active ha).1]
            simp
        · exact .inl hl
      · exact .inr ⟨value, mem_append_right _ hv, ht⟩
    · intro value hv
      rcases mem_append.mp hv with he | ho
      · obtain ⟨path, -, rfl⟩ := mem_map.mp he
        exact .inl rfl
      · exact hc value ho
  · intro x hx
    rcases h.accounted x hx with hac | hf
    · exact .inl hac
    · unfold beingSent at hf
      rw [hs] at hf
      exact .inr hf

/-! ### Runs -/

/-- A subscription that is live was so before the step, and a step that disturbs nothing keeps it
sound. -/
theorem live_and_sound_of_step {ev : SubscriptionEvent V} (ht : step s ev = some t)
    (hl : t.subscription.live) : s.subscription.live ∧ (s.Sound → s.undisturbed ev → t.Sound) := by
  cases ev with
  | startChange k =>
    obtain ⟨n, hn, rfl⟩ := Option.map_eq_some_iff.mp ht
    exact ⟨hl, fun h hg => h.startChange hg hn⟩
  | cancelChange k =>
    obtain ⟨n, hn, rfl⟩ := Option.map_eq_some_iff.mp ht
    exact ⟨hl, fun h _ => h.cancelChange hn⟩
  | replaceValues k ch =>
    obtain ⟨n, hn, rfl⟩ := Option.map_eq_some_iff.mp ht
    exact ⟨hl, fun h _ => h.replaceValues hn⟩
  | announce ie early =>
    obtain ⟨c, hi, rfl⟩ := Option.map_eq_some_iff.mp ht
    rw [handleClusterStateChanges_live] at hl
    exact ⟨hl, fun h _ => h.announce hl hi⟩
  | readChunk =>
    simp only [Server.step] at ht
    split at ht
    · rename_i p re _ hun
      cases ht
      exact ⟨hl, fun h hg => h.readChunk hg hun⟩
    · cases ht
  | passReport =>
    simp only [Server.step] at ht
    split at ht
    · rename_i value re hc
      cases ht
      exact ⟨hl, fun h _ => h.passReport hc⟩
    · cases ht
  | activate sc =>
    simp only [Server.step] at ht
    split_ifs at ht with ho
    cases ht
    simp only [Bool.or_eq_true, Bool.not_eq_true', not_or, Bool.not_eq_true, Bool.not_eq_false,
      List.isEmpty_iff] at ho
    exact ⟨live_of_activate hl, fun h _ => h.activate ho.1.2 ho.2 ho.1.1.2 hl⟩
  | updateTimer early =>
    cases ht
    rw [prepareDataUpdate_live] at hl
    exact ⟨hl, fun h _ => h.prepareDataUpdate⟩
  | sendDelayTimer =>
    obtain ⟨hd, rfl⟩ := of_enabled ht
    rw [(trigger_sameReport _ _ _).live] at hl
    refine ⟨hl, fun h _ => ?_⟩
    let u : Server V := { s with subscription := { s.subscription with sendDelayTimer := false } }
    have hu : u.Sound := by
      refine h.keep ?_ rfl rfl rfl rfl rfl rfl rfl h.promise
      exact ⟨h.seeded.bound, h.seeded.seeded, h.seeded.chunk, h.seeded.active, by rintro ⟨⟩⟩
    exact Sound.triggerSendUpdate (s := u) hu (h.seeded.delay hd)
  | readUpdate =>
    simp only [Server.step] at ht
    split at ht
    · rename_i up hs
      split at ht
      · rename_i p re hun
        cases ht
        exact ⟨hl, fun h _ => h.readUpdate hs hun⟩
      · cases ht
    · cases ht
  | settle ou =>
    simp only [Server.step] at ht
    split at ht
    · rename_i up hs
      split at ht
      · cases ht
      · rename_i hrs
        cases ht
        refine ⟨live_of_sendUpdate hl, fun h hg => h.settle hs ?_ hg hl⟩
        exact fun hsn => by_contra fun hun => hrs ⟨hsn, hun⟩
    · cases ht
  | settled =>
    obtain ⟨hdn, rfl⟩ := of_enabled ht
    simp only [Bool.and_eq_true, Option.isNone_iff_eq_none] at hdn
    refine ⟨hl, fun h _ => h.keep ?_ rfl rfl rfl rfl rfl rfl rfl (fun _ => hdn.2)⟩
    exact h.seeded.keep (sameReport _) rfl (fun _ => rfl)
  | close | handlePeerCancel =>
    cases ht
    simp [live, close_isClosed] at hl

theorem mem_toRead_process (hx : x ∈ pathsOf r) :
    vs x.cluster = some (n.version x.cluster) ∨ x ∈ pathsOf (process n vs r) := by
  obtain ⟨path, ht, rfl⟩ := mem_map.mp hx
  obtain ⟨p, hp, hm⟩ := mem_flatten.mp ht
  by_cases hv : vs path.path.cluster = some (n.version path.path.cluster)
  · exact .inl hv
  · right
    refine mem_map_of_mem (mem_flatten.mpr ⟨_, mem_map_of_mem hp, ?_⟩)
    refine mem_filter.mpr ⟨hm, ?_⟩
    simp [hv]

theorem initial_sound (ha : ∀ k, n.advances k < 2 ^ 32) : (initial n r vs).Sound := by
  refine Sound.of_idle ⟨ha, ?_, ?_, ?_, ?_⟩ rfl ?_
  · rintro e k v ⟨rfl⟩ hv
    cases hv
  · intro value hl
    cases hl
  · rintro ⟨⟩
  · rintro ⟨⟩
  · intro x hx
    left
    rcases (mem_toRead_process hx : vs x.cluster = some (n.version x.cluster) ∨ _) with hv | hw
    · exact .inl (if_pos hv)
    · exact .inr hw

/-- In a run in which the initial report and failing updates are not disturbed, an attribute that
the subscriber does not have the value of is outstanding, being sent or still to be read by the
initial report, but for one whose change is about to be announced. -/
theorem no_change_lost {request : List (List ReadPath)} {versions : ClusterKey → Option Nat}
    {events : List (SubscriptionEvent V)} (hadvances : ∀ cluster, n.advances cluster < 2 ^ 32)
    (hrun : Run (guarded step (·.undisturbed ·)) (initial n request versions)
      events s)
    (hclosed : s.subscription.isClosed = false) (hterminated : s.subscription.isTerminated = false)
    {x : AttributePath} (hx : x ∈ s.subscription.subscribed) (hdue : x ∉ s.node.due)
    (hdiffers : s.reported x ≠ some (s.node.values x)) :
    x ∈ s.subscription.outstanding ∨ x ∈ s.subscription.beingSent ∨ x ∈ s.subscription.toRead := by
  have hs : s.subscription.live → s.Sound := by
    refine guarded_invariant (I := fun s => s.subscription.live → s.Sound) ?_ hrun
      (fun _ => initial_sound hadvances)
    intro s event t hg ht hs hl
    obtain ⟨hwas, hp⟩ := live_and_sound_of_step ht hl
    exact hp (hs hwas) hg
  have hl : s.subscription.live := by
    simp [live, hclosed, hterminated]
  rcases (hs hl).accounted x hx with ((hk | hw) | hwas | ho) | hf
  · exact absurd hk hdiffers
  · exact .inr (.inr hw)
  · exact absurd hwas hdue
  · exact .inl ho
  · exact .inr (.inl hf)

/-- A node at rest with all attributes zero. -/
def restingNode : Node Nat where
  values := fun _ => 0
  first := fun _ => 7
  advances := fun _ => 0
  changing := fun _ => false
  announcing := []

/-- The subscriber does not have the value and nothing will bring it. -/
def Lost (s : Server V) (x : AttributePath) : Prop :=
  s.subscription.live ∧ x ∈ s.subscription.subscribed ∧ x ∉ s.node.due ∧
    s.reported x ≠ some (s.node.values x) ∧ x ∉ s.subscription.outstanding ∧
    x ∉ s.subscription.beingSent ∧ x ∉ s.subscription.toRead

instance [DecidableEq V] (s : Server V) (x : AttributePath) : Decidable (s.Lost x) :=
  inferInstanceAs (Decidable (_ ∧ _))

/-- A change comes in while the initial report is read, the first attempt to send it fails, and a
second change comes in while it is being sent again. -/
theorem no_change_lost_resent : ∃ s : Server Nat,
      s.reported ⟨1, 6, 0⟩ ≠ some (s.node.values ⟨1, 6, 0⟩) ∧
        (⟨1, 6, 0⟩ ∈ s.subscription.outstanding ∨ ⟨1, 6, 0⟩ ∈ s.subscription.beingSent ∨
          ⟨1, 6, 0⟩ ∈ s.subscription.toRead) :=
  ⟨_, by decide, no_change_lost (fun _ => Nat.two_pow_pos 32) (run_of_exec
    (rfl : exec (guarded step (·.undisturbed ·))
      (initial restingNode [[⟨⟨1, 6, 0⟩, false⟩], [⟨⟨2, 6, 0⟩, true⟩]] (fun _ => none))
      [.readChunk, .passReport, .startChange (1, 6), .replaceValues (1, 6) [(0, 5)],
        .announce 0 false, .readChunk, .passReport, .activate false, .settle (.failed false),
        .settled, .updateTimer false, .sendDelayTimer, .readUpdate, .startChange (1, 6),
        .replaceValues (1, 6) [(0, 9)], .announce 0 false, .readUpdate, .settle .sent] = some _))
    (by decide) (by decide) (by decide) (by decide) (by decide)⟩

/-- Three ways to lose a change. The initial report reads another path of the cluster between the
commit of a change and its announcement; it reads the path itself between phase one and phase two;
an update fails three times for a reason other than the communication. -/
theorem changes_lost : (∃ s : Server Nat, exec step
        (initial restingNode [[⟨⟨1, 6, 0⟩, false⟩], [⟨⟨2, 6, 0⟩, false⟩], [⟨⟨1, 6, 1⟩, false⟩]]
          (fun _ => none)) [.readChunk, .passReport, .readChunk, .passReport, .startChange (1, 6),
          .replaceValues (1, 6) [(0, 5)], .readChunk, .passReport, .announce 0 false,
          .activate false] = some s ∧ s.Lost ⟨1, 6, 0⟩) ∧
      (∃ s : Server Nat, exec step (initial restingNode [[⟨⟨1, 6, 0⟩, false⟩]] (fun _ => none))
        [.startChange (1, 6), .readChunk, .passReport, .replaceValues (1, 6) [(0, 5)],
          .announce 0 false, .activate false] = some s ∧ s.Lost ⟨1, 6, 0⟩) ∧
      (∃ s : Server Nat, exec step (initial restingNode [[⟨⟨1, 6, 0⟩, false⟩]] (fun _ => none))
        [.readChunk, .passReport, .activate false, .startChange (1, 6),
          .replaceValues (1, 6) [(0, 5)], .announce 0 false, .sendDelayTimer,
          .settle (.failed false), .settled, .updateTimer false, .sendDelayTimer,
          .settle (.failed false), .settled, .updateTimer false, .sendDelayTimer,
          .settle (.failed false)] = some s ∧ s.Lost ⟨1, 6, 0⟩) :=
  ⟨⟨_, rfl, by decide⟩, ⟨_, rfl, by decide⟩, ⟨_, rfl, by decide⟩⟩

end Server

end MatterJs.Subscription
