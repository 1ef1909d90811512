import MatterJs.Icd.FabricIcd

/-! Replay protection of check-ins, over all interleavings of the calls of `processCheckIn` and
the changes of the registrations. -/
namespace MatterJs.Icd

open TransitionSystem IndexedList CheckInMessage FabricIcd List Function

variable {cr : Crypto} {s t : FabricIcd} {n i : Nat}

/-- The counter was authenticated under the key in force for the peer. -/
def Authentic (crypto : Crypto) (r : ReceivedCheckIn) : Prop :=
  ∃ key, r.inForce = some key ∧
    decodeIcd crypto key r.payload = .ok ⟨r.counter, r.activeModeThreshold⟩

/-- Under one registration of a peer the offset of the second check-in is larger. -/
def Advances (r q : ReceivedCheckIn) : Prop :=
  r.peerNodeId = q.peerNodeId → r.changes = q.changes → r.offset < q.offset ∧ r.counter ≠ q.counter

/-- The rolling position of a peer covers what was received under its registration. -/
def Covers (peer : Peer) (r : ReceivedCheckIn) : Prop :=
  r.offset ≤ peer.lastOffset ∧ r.offset = offsetFrom peer.counterStart r.counter

/-- The position of a peer is the one its registration gave, or that of a check-in received under
it. -/
def Moved (s : FabricIcd) (n : Nat) (peer : Peer) : Prop :=
  peer.lastOffset = s.given n ∨ ∃ r ∈ s.received,
    r.peerNodeId = n ∧ r.changes = s.changes n ∧ r.offset = peer.lastOffset

structure Protected (crypto : Crypto) (s : FabricIcd) : Prop where
  registered : ∀ n entry, s.entryOf n = some entry →
    entry < s.entries ∧ (s.peers entry).peerNodeId = n
  suspended : ∀ payload position entry key, Call.decoding payload position entry key ∈ s.calls →
    s.entryOf (s.peers entry).peerNodeId = some entry ∧ (s.peers entry).key = key
  authentic : ∀ r ∈ s.received, Authentic crypto r
  past : ∀ r ∈ s.received, r.changes ≤ s.changes r.peerNodeId
  covered : ∀ r ∈ s.received, r.changes = s.changes r.peerNodeId →
    ∀ entry, s.entryOf r.peerNodeId = some entry → Covers (s.peers entry) r
  moved : ∀ n peer, s.peerFor n = some peer → Moved s n peer
  ordered : s.received.Pairwise Advances

namespace Protected

variable {p key : List UInt8} {ps : Nat}

theorem idle (hi : s.decrypting n = false) (hc : Call.decoding p ps i key ∈ s.calls) :
    (s.peers i).peerNodeId ≠ n := by
  intro he
  have ha := any_eq_false.mp hi _ hc
  simp [he] at ha

section
variable (h : Protected cr s)
include h

/-- A change of the registration of one peer that no call is suspended for. -/
theorem change (hi : s.decrypting n = false) (hcl : t.calls = s.calls)
    (hrc : t.received = s.received) (hc : t.changes = update s.changes n (s.changes n + 1))
    (hrg : ∀ n i, t.entryOf n = some i → i < t.entries ∧ (t.peers i).peerNodeId = n)
    (hg : ∃ l, t.given = update s.given n l ∧ ∀ peer, t.peerFor n = some peer →
    peer.lastOffset = l) (ho : ∀ o, o ≠ n → t.entryOf o = s.entryOf o)
    (hp : ∀ i, i < s.entries → (s.peers i).peerNodeId ≠ n → t.peers i = s.peers i) :
    Protected cr t := by
  refine ⟨hrg, ?_, hrc ▸ h.authentic, ?_, ?_, ?_, hrc ▸ h.ordered⟩
  · intro a p i key ha
    rw [hcl] at ha
    obtain ⟨he, hy⟩ := h.suspended _ _ _ _ ha
    have hne := idle hi ha
    rw [hp i (h.registered _ _ he).1 hne, ho _ hne]
    exact ⟨he, hy⟩
  · intro r hr
    have hl := h.past r (hrc ▸ hr)
    rw [hc, update_apply]
    split_ifs with hq
    · rw [hq] at hl
      omega
    · exact hl
  · intro r hr hcr i he
    rw [hrc] at hr
    have hl := h.past r hr
    rw [hc, update_apply] at hcr
    -- what was received under the old registration is past
    split_ifs at hcr with hq
    · rw [hq] at hl
      omega
    rw [ho _ hq] at he
    obtain ⟨ht, hn⟩ := h.registered _ _ he
    rw [hp i ht (hn.trans_ne hq)]
    exact h.covered r hr hcr i he
  · intro o peer hpr
    obtain ⟨l, hg, hs⟩ := hg
    unfold Moved
    rw [hg, hc, hrc, update_apply, update_apply]
    by_cases hq : o = n
    · subst hq
      exact .inl (by simpa using hs peer hpr)
    obtain ⟨i, he, rfl⟩ := Option.map_eq_some_iff.mp hpr
    rw [ho _ hq] at he
    obtain ⟨ht, hn⟩ := h.registered _ _ he
    rw [if_neg hq, if_neg hq, hp i ht (hn.trans_ne hq)]
    exact h.moved o _ (by simp [peerFor, he])

theorem addPeer (peer : Peer)
    (hi : s.decrypting peer.peerNodeId = false) : Protected cr (s.addPeer peer) := by
  refine h.change hi rfl rfl rfl ?_ ⟨_, rfl, ?_⟩
    (fun o hne => update_of_ne hne _ _)
    (fun i hl _ => update_of_ne hl.ne _ _)
  case refine_2 => simp [FabricIcd.addPeer, FabricIcd.peerFor]
  intro o i he
  by_cases ho : o = peer.peerNodeId
  · subst ho
    obtain rfl : s.entries = i := by
      simpa [FabricIcd.addPeer] using he
    exact ⟨Nat.lt_succ_self _, by simp [FabricIcd.addPeer]⟩
  · obtain ⟨hl, hn⟩ := h.registered o i (by
      simpa [FabricIcd.addPeer, ho] using he)
    exact ⟨hl.trans (Nat.lt_succ_self _), by simpa [FabricIcd.addPeer, hl.ne] using hn⟩

theorem updatePeer {c l : Nat} (hi : s.decrypting n = false)
    (hu : s.updatePeer n key c l = .ok t) : Protected cr t := by
  cases he : s.entryOf n with
  | none => simp [FabricIcd.updatePeer, he] at hu
  | some i =>
    simp only [FabricIcd.updatePeer, he, Except.ok.injEq] at hu
    subst hu
    have hn := (h.registered _ _ he).2
    refine h.change hi rfl rfl rfl ?_ ⟨_, rfl, ?_⟩ (fun _ _ => rfl) ?_
    case refine_2 => simp [changed, peerFor, he]
    · intro o e' he'
      obtain ⟨hl, ho⟩ := h.registered o e' he'
      refine ⟨hl, ?_⟩
      by_cases hq : e' = i
      · subst hq
        simpa using ho
      · simpa [hq] using ho
    · intro e' _ hne
      exact update_of_ne (fun hq => hne (by rw [hq, hn])) _ _

theorem deletePeer (hi : s.decrypting n = false) : Protected cr (s.deletePeer n) := by
  refine h.change hi rfl rfl rfl ?_ ⟨_, rfl, ?_⟩
    (fun o hn => update_of_ne hn _ _) (fun _ _ _ => rfl)
  case refine_2 => simp [FabricIcd.deletePeer, FabricIcd.peerFor]
  intro o i he
  by_cases ho : o = n
  · subst ho
    simp [FabricIcd.deletePeer] at he
  · exact h.registered o i (by simpa [FabricIcd.deletePeer, ho] using he)

end

/-- The next entry of an iteration is registered. -/
theorem nextEntry_registered {ss : List (Option Nat)} {next : Nat}
    (hn : s.nextEntry ss ps = some (next, i)) : ∃ n, s.entryOf n = some i := by
  induction ss generalizing ps with
  | nil => simp [nextEntry] at hn
  | cons slot ss ih =>
    rw [nextEntry] at hn
    split at hn
    · next found hf =>
      obtain ⟨n, -, ho⟩ := Option.bind_eq_some_iff.mp hf
      obtain ⟨-, rfl⟩ := Prod.mk.inj (Option.some.inj hn)
      exact ⟨n, ho⟩
    · exact ih hn

section
variable (h : Protected cr s)
include h

/-- A call goes on with an entry that is registered, under its key. -/
theorem visit_suspended {py' : List UInt8} {p' : Nat}
    (hv : s.visit py' p' = .decoding p ps i key) :
    s.entryOf (s.peers i).peerNodeId = some i ∧ (s.peers i).key = key := by
  unfold visit at hv
  split at hv
  · next next found hx =>
    obtain ⟨n, hn⟩ := nextEntry_registered hx
    obtain ⟨-, -, rfl, he⟩ := Call.decoding.inj hv
    rw [(h.registered _ _ hn).2]
    exact ⟨hn, he⟩
  · cases hv

/-- The calls may change as long as each suspended one is at a registered entry. -/
theorem withCalls {calls : List Call} (hc : ∀ p ps i key, Call.decoding p ps i key ∈ calls →
      s.entryOf (s.peers i).peerNodeId = some i ∧ (s.peers i).key = key) :
    Protected cr { s with calls } :=
  ⟨h.registered, hc, h.authentic, h.past, h.covered, h.moved, h.ordered⟩

theorem setCall (call : Nat) {v : Call} (hv : ∀ p ps i key, v = .decoding p ps i key →
      s.entryOf (s.peers i).peerNodeId = some i ∧ (s.peers i).key = key) :
    Protected cr (s.setCall call v) := by
  refine h.withCalls ?_
  intro p ps i key hc
  rcases mem_or_eq_of_mem_set hc with hc | he
  · exact h.suspended _ _ _ _ hc
  · exact hv _ _ _ _ he.symm

theorem accept {call : Nat} {d : DecodedIcdCheckIn} (hcl : Call.decoding p ps i key ∈ s.calls)
    (hd : decodeIcd cr key p = .ok d) : Protected cr (s.accept call i p d) := by
  obtain ⟨he, hy⟩ := h.suspended _ _ _ _ hcl
  have hs := h.setCall call (v := .returned true) (by simp)
  unfold FabricIcd.accept
  dsimp only
  split_ifs with hv
  · exact hs
  simp only [validateCounter, Bool.not_eq_true', decide_eq_false_iff_not, not_not] at hv
  -- the node and the key of the entry stay, its position grows
  have hp (ot lastOffset : Nat) :
      let peer := update s.peers i { s.peers i with lastOffset } ot
      peer.peerNodeId = (s.peers ot).peerNodeId ∧ peer.key = (s.peers ot).key := by
    by_cases heq : ot = i
    · subst heq
      simp
    · simp [heq]
  refine ⟨?_, ?_, ?_, ?_, ?_, ?_, ?_⟩
  · intro n ot ho
    obtain ⟨ht, hn⟩ := h.registered n ot ho
    exact ⟨ht, (hp ot _).1.trans hn⟩
  · intro pa' p' ot key' ho
    obtain ⟨hg, hk⟩ := hs.suspended _ _ _ _ ho
    exact ⟨(congrArg s.entryOf (hp ot _).1).trans hg, (hp ot _).2.trans hk⟩
  · intro r hr
    rcases mem_concat_cases hr with hr | rfl
    · exact h.authentic r hr
    · exact ⟨key, by simp [peerFor, he, hy], hd⟩
  · intro r hr
    rcases mem_concat_cases hr with hr | rfl
    · exact h.past r hr
    · exact Nat.le_refl _
  · intro r hr hcr ot ho
    rcases mem_concat_cases hr with hr | rfl
    · have hc := h.covered r hr hcr ot ho
      by_cases heq : ot = i
      · subst heq
        exact ⟨by simpa [validateCounter] using hc.1.trans hv.le, by simpa using hc.2⟩
      · simpa [heq] using hc
    · obtain rfl : i = ot := Option.mem_unique he ho
      simp [Covers, validateCounter]
  · intro n peer hp'
    obtain ⟨ot, ho, rfl⟩ := Option.map_eq_some_iff.mp hp'
    by_cases heq : ot = i
    · subst heq
      have hn := (h.registered _ _ ho).2
      exact .inr ⟨_, mem_append_right _ (mem_singleton_self _), hn, congrArg s.changes hn, by simp⟩
    · have hl := h.moved n (s.peers ot) (Option.map_eq_some_iff.mpr ⟨ot, ho, rfl⟩)
      dsimp only
      rw [update_of_ne heq]
      refine hl.imp_right ?_
      rintro ⟨r, hr, hrs⟩
      exact ⟨r, mem_append_left _ hr, hrs⟩
  · refine pairwise_append.mpr ⟨h.ordered, pairwise_singleton _ _, ?_⟩
    intro r hr q hq hn hh
    obtain rfl := mem_singleton.mp hq
    obtain ⟨hle, heq⟩ := h.covered r hr (hn ▸ hh) i (hn ▸ he)
    refine ⟨hle.trans_lt hv, ?_⟩
    -- one baseline gives one counter one offset
    intro hcn
    rw [hcn] at heq
    exact absurd (heq ▸ hle) (not_le.mpr hv)

theorem step {e : Event} (hq : s.undisturbed e) (hs : s.step cr e = some t) : Protected cr t := by
  cases e with
  | addPeer peer =>
    cases hs
    exact h.addPeer peer (by simpa [undisturbed] using hq)
  | updatePeer n key counterStart lastOffset =>
    cases hs
    cases hu : s.updatePeer n key counterStart lastOffset with
    | error message => exact h
    | ok u => exact h.updatePeer (by simpa [undisturbed] using hq) hu
  | deletePeer n =>
    cases hs
    exact h.deletePeer (by simpa [undisturbed] using hq)
  | processCheckIn p =>
    cases hs
    refine h.withCalls ?_
    intro _ _ _ _ hc
    rcases mem_append.mp hc with hc | hc
    · exact h.suspended _ _ _ _ hc
    · exact h.visit_suspended (mem_singleton.mp hc).symm
  | decoded call =>
    rw [FabricIcd.step] at hs
    split at hs
    · next p ps i key hc =>
      split at hs
      · cases hs
        exact h.setCall call (fun _ _ _ _ hv => h.visit_suspended hv)
      · next decoded hd =>
        cases hs
        exact h.accept (mem_of_getElem? hc) hd
    · cases hs

end

end Protected

/-- While the registration of a peer changes only when no call decrypts a payload for it, every
check-in that a handler is told of was authenticated under the key in force, under one registration
the offsets increase, and only such check-ins move the position of a peer. -/
theorem check_ins_are_not_replayed (crypto : Crypto) (events : List Event) (s : FabricIcd)
    (hrun : Run (guarded (step crypto) (·.undisturbed ·)) {} events s) :
    (∀ r ∈ s.received, Authentic crypto r) ∧ s.received.Pairwise Advances ∧
      ∀ node peer, s.peerFor node = some peer → Moved s node peer := by
  have hp : Protected crypto s := by
    refine guarded_invariant (I := Protected crypto) ?_ hrun (by constructor <;> simp [peerFor])
    intro s event t hq hs h
    exact h.step hq hs
  exact ⟨hp.authentic, hp.ordered, hp.moved⟩

/-- A crypto whose tag is the key followed by zeros and whose nonces are zeros. -/
def plainCrypto : Crypto where
  decrypt key ciphertext _ :=
    if ciphertext.drop 6 = key ++ List.replicate 15 0 then some (ciphertext.take 6) else none
  signHmac _ _ := List.replicate 13 0

/-- The check-in with a counter below 256 under a key of one byte. -/
def checkIn (key counter : UInt8) : List UInt8 :=
  List.replicate 13 0 ++ [counter, 0, 0, 0, 5, 0, key] ++ List.replicate 15 0

theorem check_ins_are_not_replayed_refresh :
    ∃ s : FabricIcd, s.received.map (fun r => (r.offset, r.inForce)) =
        [(7, some [1]), (9, some [1]), (2, some [2])] ∧
      (∀ r ∈ s.received, Authentic plainCrypto r) ∧ s.received.Pairwise Advances ∧
      ∀ node peer, s.peerFor node = some peer → Moved s node peer :=
  ⟨_, by decide, check_ins_are_not_replayed plainCrypto
    [.addPeer ⟨3, [1], 0, 0⟩, .processCheckIn (checkIn 1 7), .processCheckIn (checkIn 1 7),
      .decoded 1, .decoded 0, .processCheckIn (checkIn 1 9), .decoded 2, .updatePeer 3 [2] 0 0,
      .processCheckIn (checkIn 2 2), .decoded 3] _ (run_of_exec rfl)⟩

/-- The key is refreshed while a check-in under the old key is decrypted: its counter moves the new
position, and the first check-in under the new key is taken for a replay. -/
theorem refreshed_key_takes_old_check_in : ∃ s : FabricIcd, exec (step plainCrypto) {}
        [.addPeer ⟨3, [1], 0, 0⟩, .processCheckIn (checkIn 1 7), .updatePeer 3 [2] 0 0,
          .decoded 0, .processCheckIn (checkIn 2 2), .decoded 1] = some s ∧
      s.received.map (fun r => (r.counter, r.inForce)) = [(7, some [2])] ∧
      (∀ r ∈ s.received, ¬ Authentic plainCrypto r) ∧ s.calls[1]? = some (.returned true) := by
  refine ⟨_, rfl, by decide, ?_, by decide⟩
  intro r hr
  obtain rfl := mem_singleton.mp hr
  rintro ⟨key, he, hd⟩
  cases he
  exact absurd hd (by decide)

end MatterJs.Icd
