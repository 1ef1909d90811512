import Mathlib.Logic.Function.Basic
import MatterJs.Btp.InFlight

/-!
# Two sessions on a reliable link

A central and a peripheral from one handshake, connected by a link that keeps the order of
packets and fails no write. Whatever the order of sends, deliveries, completions and timers,
the payloads that one side hands on are a prefix of what the other was asked to send.
-/
namespace MatterJs.Btp

open BtpCodec Channel TransitionSystem MatterBle List Function

namespace Role

def other : Role → Role
  | .central => .peripheral
  | .peripheral => .central

@[simp] theorem other_other (si : Role) : si.other.other = si := by
  cases si <;> rfl

@[simp] theorem other_ne (si : Role) : si.other ≠ si := by
  cases si <;> decide

theorem eq_or_eq_other (s t : Role) : t = s ∨ t = s.other := by
  cases s <;> cases t <;> decide

end Role

namespace BtpSessionHandler

section Receive

variable {h k : BtpSessionHandler} {x y : Counts} {ak c : List (List UInt8)}
  {p : BtpPacket} {u v : View}

theorem checkPacket_follows (hn : Numbered k y) (hf : Follows k.fragmentSize u p v)
    (hsn : u.sent = y.received) : k.checkPacket p.bytes = .ok p := by
  have ht := hf.fits
  have he : (p.payload.segmentPayload.isEmpty && !p.header.hasAckNumber) = false := by
    cases hg : p.payload.segmentPayload with
    | nil => simp [hf.content hg]
    | cons b bs => rfl
  have hs : p.payload.sequenceNumber = (k.prevIncomingSequenceNumber + 1).tmod 256 := by
    have hrn := hf.valid.sequence
    have hi := hn.incoming
    have hm := hf.number
    have hr := hn.received
    rw [hf.sent, hsn] at hm
    unfold NumberOf at hm hr
    rw [Int.tmod_eq_emod_of_nonneg (by omega)]
    omega
  unfold checkPacket
  rw [if_neg (by omega), decodeBtpPacket_bytes hf.valid, Tlv.ok_bind, if_neg, if_neg, if_neg]
  · rfl
  · exact not_not.mpr hs
  · simp [he]
  · simp [hf.valid.handshake, hf.valid.management]

/-- An acknowledgement of packets that were sent is accepted. -/
theorem receiveAck_follows (hn : Numbered k y) (hf : Follows k.fragmentSize u p v)
    (ha : u.acked = y.acked) (hl : v.acked ≤ y.sent) :
    ∃ ack t, k.receiveAck p = .ok { k with
      prevIncomingAckNumber := ack, ackReceiveTimer := t } ∧ NumberOf ack v.acked := by
  have hh := (validatePayload_ok hf.valid.payload).1
  unfold receiveAck
  cases hc : p.payload.ackNumber with
  | none =>
    refine ⟨k.prevIncomingAckNumber, k.ackReceiveTimer, ?_, ?_⟩
    · cases p.header.hasAckNumber <;> rfl
    · rw [hf.noAck hc, ha]
      exact hn.acked
  | some n =>
    have he := hf.ack n hc
    have hd : modularDistance k.prevIncomingAckNumber n ≤ k.outstanding := by
      have hp := hn.acked
      have hm := hf.acked
      rw [hn.outstanding, modularDistance_eq]
      unfold NumberOf at he hp
      omega
    rw [hh, hc, Option.isSome_some]
    simp only
    rw [if_neg (by omega)]
    exact ⟨n, _, rfl, he⟩

/-- The next packet on a link is accepted, and what it carries is put where it belongs. -/
theorem receive_follows (hn : Numbered k y) (hf : Follows k.fragmentSize u p v)
    (hsn : u.sent = y.received) (ha : u.acked = y.acked) (hl : v.acked ≤ y.sent)
    (hy : InSync k.inbox u.left c) :
    ∃ ack t ln pl ms, k.receive p.bytes = ({ k with
        prevIncomingSequenceNumber := p.payload.sequenceNumber
        sendAckTimer := true
        prevIncomingAckNumber := ack
        ackReceiveTimer := t
        currentIncomingSegmentedMsgLength := ln
        currentIncomingSegmentedPayload := pl }, .ok ms) ∧
      NumberOf ack v.acked ∧ InSync ⟨ln, pl, k.handed ++ ms.toList⟩ v.left c := by
  have hn' : Numbered (k.receiveSequence p) { y with received := v.sent } := { hn with
    incoming := by
      have := hf.valid.sequence
      show 0 ≤ p.payload.sequenceNumber ∧ p.payload.sequenceNumber ≤ 255
      omega
    received := hf.number }
  obtain ⟨ack, t, hack, he⟩ := receiveAck_follows hn' hf ha hl
  obtain ⟨g, ln, pl, ms, hs, hc, hs'⟩ :=
    receive_segment (h := { k.receiveSequence p with
      prevIncomingAckNumber := ack, ackReceiveTimer := t }) hy hf.carries
  refine ⟨ack, t, ln, pl, ms, ?_, he, hs'⟩
  unfold receive
  rw [checkPacket_follows hn hf hsn]
  simp only [hack, hs, hc]
  rfl

def taken (h : BtpSessionHandler) (rest : List (List UInt8)) : BtpSessionHandler :=
  { h with written := rest }

theorem Numbered.taken (hn : Numbered h x) (r : List (List UInt8)) :
    Numbered (h.taken r) x := { hn with }

theorem Direction.receiver_taken (hd : Direction k h y x ak) (r : List (List UInt8)) :
    Direction k (h.taken r) y x ak where
  received_le := hd.received_le
  fragment := hd.fragment
  handed := hd.handed
  flow ha := by
    obtain ⟨a, u, v, c, hf⟩ := hd.flow ha
    exact ⟨a, u, v, c, { hf with }⟩

/-- The session that has received a packet, before it sends anything. -/
def received (k : BtpSessionHandler) (sequenceNumber ack : Int) (timer : Bool)
    (length : Option Nat) (payload : Option (List UInt8)) (message : Option (List UInt8)) :
    BtpSessionHandler :=
  { k with
    prevIncomingSequenceNumber := sequenceNumber
    sendAckTimer := true
    prevIncomingAckNumber := ack
    ackReceiveTimer := timer
    currentIncomingSegmentedMsgLength := length
    currentIncomingSegmentedPayload := payload
    handed := k.handed ++ message.toList
    tasks := k.tasks ++ message.toList.map (fun _ => .handlePayload) }

section Received

variable {ack : Int} {t : Bool} {ln : Option Nat} {pl ms : Option (List UInt8)}

theorem handlePayload_quiet (ms : Option (List UInt8)) :
    (ms.toList.map (fun _ => Task.handlePayload)).any Task.endsMessage = false ∧
      (ms.toList.map (fun _ => Task.handlePayload)).countP Task.isWrite = 0 := by
  cases ms <;> exact ⟨rfl, rfl⟩

theorem unsent_received (k : BtpSessionHandler) (s : Int) :
    (k.received s ack t ln pl ms).unsent = k.unsent := by
  simp only [unsent, received, any_append, (handlePayload_quiet ms).1, Bool.or_false]

variable (t ln pl ms) in
theorem numbered_received (hn : Numbered k y) (hf : Follows k.fragmentSize u p v)
    (ha : u.acked = y.acked) (hl : v.acked ≤ y.sent) (he : NumberOf ack v.acked) :
    Numbered (k.received p.payload.sequenceNumber ack t ln pl ms)
      { y with received := v.sent, acked := v.acked } := { hn with
  incoming := by
    have := hf.valid.sequence
    show 0 ≤ p.payload.sequenceNumber ∧ p.payload.sequenceNumber ≤ 255
    omega
  lock := by
    have hc := hn.lock
    simp only [received, countP_append, (handlePayload_quiet ms).2]
    exact hc
  left := by rw [unsent_received]; exact hn.left
  pending := by
    simp only [received, any_append, (handlePayload_quiet ms).1, Bool.or_false]
    exact hn.pending
  received := hf.number
  acked := he
  outstanding_nonneg := hl
  outstanding_le := by
    have h1 := hn.outstanding_le
    have h2 := hf.acked
    show y.sent ≤ v.acked + 255
    omega }

variable (ack t) in
theorem direction_received {s : List BtpPacket} {w : View} {r : List (List UInt8)}
    (hd : Direction h k x y ak) (hf : InFlight h k x y ak (p :: s) u w c)
    (hrs : r = s.map BtpPacket.bytes)
    (hl : Leads (Follows k.fragmentSize) v s w)
    (hs : InSync ⟨ln, pl, k.handed ++ ms.toList⟩ v.left c) :
    Direction (h.taken r) (k.received p.payload.sequenceNumber ack t ln pl ms)
      x { y with received := v.sent, acked := v.acked } ak where
  received_le := by
    rw [← hf.sent]
    exact hl.monotone (f := View.sent) fun a q b ha => by have := ha.sent; omega
  fragment := hd.fragment
  handed := by
    refine List.IsPrefix.trans ?_ hf.accepted_prefix
    rw [hs.asked]
    exact prefix_append _ _
  flow _ := ⟨s, v, w, c, { hf with
    written := hrs
    leads := hl
    received := rfl
    acked := rfl
    inSync := hs }⟩

theorem direction_reply {g : BtpSessionHandler} (hd : Direction k h y x ak)
    (hk : g.written = k.written ∧ g.fragmentSize = k.fragmentSize ∧ g.unsent = k.unsent ∧
      g.isActive = k.isActive) (hl : y.received ≤ v.sent) :
    Direction g h { y with received := v.sent, acked := v.acked } x ak where
  received_le := hd.received_le
  fragment := hk.2.1.trans hd.fragment
  handed := hd.handed
  flow hac := by
    obtain ⟨pa, a, b, c, hf⟩ := hd.flow hac
    exact ⟨pa, a, b, c, { hf with
      written := hk.1.trans hf.written
      left := hf.left.trans hk.2.2.1.symm
      acked_le := hf.acked_le.trans hl
      accepted_eq := fun ha => hf.accepted_eq (hk.2.2.2 ▸ ha) }⟩

end Received

variable {bs : List UInt8}

theorem handleIncomingBleData_eq {ack : Int} {t : Bool} {ln : Option Nat}
    {pl ms : Option (List UInt8)} (ha : k.isActive)
    (hr : k.receive bs = ({ k with
        prevIncomingSequenceNumber := p.payload.sequenceNumber
        sendAckTimer := true
        prevIncomingAckNumber := ack
        ackReceiveTimer := t
        currentIncomingSegmentedMsgLength := ln
        currentIncomingSegmentedPayload := pl }, .ok ms)) :
    k.handleIncomingBleData bs = k.received p.payload.sequenceNumber ack t ln pl ms ∨
      k.handleIncomingBleData bs = (k.received p.payload.sequenceNumber ack t ln pl
        ms).processSendQueue .incomingQueue := by
  unfold handleIncomingBleData
  rw [if_neg (by simp [ha]), hr]
  cases ms with
  | some pl => exact .inl rfl
  | none => exact .inr (by simp [received])

/-- The first packet on a link is delivered. -/
theorem deliver_direction {r asked' : List (List UInt8)}
    (hk : Numbered k y) (hd : Direction h k x y ak) (hd' : Direction k h y x asked')
    (hw : h.written = bs :: r) : ∃ y', Numbered (k.handleIncomingBleData bs) y' ∧
      Direction (h.taken r) (k.handleIncomingBleData bs) x y' ak ∧
      Direction (k.handleIncomingBleData bs) (h.taken r) y' x asked' := by
  by_cases hac : k.isActive
  · obtain ⟨pa, u, w, c, hf⟩ := hd.flow hac
    obtain ⟨p, pa, rfl, rfl, rfl⟩ := map_eq_cons_iff.mp (hf.written.symm.trans hw)
    obtain ⟨v, hfl, hl⟩ := leads_cons hf.leads
    have hm : v.acked ≤ w.acked := hl.monotone fun a q b hb => hb.acked
    have hle : v.acked ≤ y.sent := by
      have h1 := hf.acked_le
      have h2 := hd'.received_le
      omega
    obtain ⟨ack, t, le, py, m, hrc, hp, hy⟩ :=
      receive_follows hk hfl hf.received hf.acked hle hf.inSync
    have hn := numbered_received t le py m hk hfl hf.acked hle hp
    have h1 := direction_received ack t hd hf rfl hl hy
    have h2 := direction_reply (v := v) (g := k.received p.payload.sequenceNumber ack t le
      py m) (hd'.receiver_taken (pa.map BtpPacket.bytes))
      ⟨rfl, rfl, unsent_received _ _, rfl⟩ (by
        have := hfl.sent
        have := hf.received
        omega)
    rcases handleIncomingBleData_eq hac hrc with hq | hq
    · rw [hq]
      exact ⟨_, hn, h1, h2⟩
    · obtain ⟨hs, he⟩ := processSendQueue_emits hn.toSound .incomingQueue
      obtain ⟨y', hr⟩ := he.replaces hn hs
      rw [hq]
      refine ⟨y', hr.numbered, hr.receiver _ _ _ h1, ?_⟩
      simpa using hr.sender _ _ _ h2
  · have hc : k.handleIncomingBleData bs = k := if_pos (by simpa using hac)
    rw [hc]
    exact ⟨y, hk, ⟨hd.received_le, hd.fragment, hd.handed, fun ha => absurd ha hac⟩,
      hd'.receiver_taken r⟩

end Receive

end BtpSessionHandler

/-- Two sessions, with the messages each was asked to send. -/
structure Link where
  session : Role → BtpSessionHandler
  asked : Role → List (List UInt8)

namespace Link

open BtpSessionHandler

/-- The sessions both sides make in one handshake. -/
def ofHandshake (maxDataSize : Option Nat) (handshakeRequestPayload : List UInt8) :
    Except BtpError Link := do
  let (peripheral, handshakeResponsePayload) ←
    createFromHandshakeRequest maxDataSize handshakeRequestPayload
  let central ← createAsCentral handshakeResponsePayload
  return {
    session := fun
      | .central => central
      | .peripheral => peripheral
    asked := fun _ => [] }

inductive Event
  /-- An event at one side. -/
  | own (side : Role) (event : BtpSessionHandler.Event)
  /-- The link delivers the first packet that a side has written. -/
  | deliver (side : Role)

def step (l : Link) : Event → Option Link
  | .own side event =>
    ((l.session side).step event).map (fun h =>
      { session := update l.session side h
        asked := update l.asked side (l.asked side ++ event.asks) })
  | .deliver side =>
    match (l.session side).written with
    | [] => none
    | bytes :: rest =>
      let session := update l.session side ((l.session side).taken rest)
      let receiver := (l.session side.other).handleIncomingBleData bytes
      some { l with session := update session side.other receiver }

/-- Only the link delivers packets, and no write fails. -/
def isReliable (l : Link) : Event → Bool
  | .own side event => (l.session side).isReliable event
  | .deliver _ => true

/-- The sessions of a link and the packets between them, counted. -/
structure Invariant (l : Link) (n : Role → Counts) : Prop where
  numbered : ∀ side, Numbered (l.session side) (n side)
  direction : ∀ side, Direction (l.session side) (l.session side.other) (n side) (n side.other)
    (l.asked side)

variable {l l' : Link} {n : Role → Counts} {h : BtpSessionHandler} {m : Option Nat}
  {bs : List UInt8}

theorem createFromHandshakeRequest_ok {q rs : List UInt8}
    (ho : createFromHandshakeRequest m q = .ok (h, rs)) :
    ∃ fragmentSize windowSize, 20 ≤ fragmentSize ∧ fragmentSize ≤ 244 ∧ windowSize ≤ 255 ∧
      h = start .peripheral fragmentSize windowSize ∧
      rs = encodeBtpHandshakeResponse ⟨4, fragmentSize, windowSize⟩ := by
  obtain ⟨r, -, ho⟩ := Tlv.ok_of_bind ho
  split at ho
  · cases ho
  · rename_i e hv
    obtain rfl : e = 4 := by
      have := mem_of_find?_eq_some hv
      simpa [btpSupportedVersions] using this
    cases ho
    refine ⟨chooseAttMtu m r.attMtu,
      min btpMaximumWindowSize r.clientWindowSize, ?_, ?_, ?_, rfl, rfl⟩
    · unfold chooseAttMtu minimumAttMtu maximumBtpMtu
      split
      · exact Nat.le_refl 20
      · split_ifs <;> omega
    · unfold chooseAttMtu minimumAttMtu maximumBtpMtu
      split
      · decide
      · split_ifs <;> omega
    · unfold btpMaximumWindowSize
      omega

variable {fs ws : Nat}

theorem createAsCentral_eq (hf : fs ≤ 244) (hw : ws ≤ 255) :
    createAsCentral (encodeBtpHandshakeResponse ⟨4, fs, ws⟩) = .ok (start .central fs ws) := by
  unfold createAsCentral
  rw [decode_encodeBtpHandshakeResponse (by simp only; omega) (by simp only; omega)
    (by simp only; omega)]
  have hm : min fs maximumBtpMtu = fs := Nat.min_eq_left hf
  simp only [Tlv.ok_bind, ne_eq, not_true_eq_false, if_false, hm]
  rfl

/-- The handshake itself counts as a packet of the peripheral. -/
def initialCounts : Role → Counts
  | .central => ⟨0, 1, 0⟩
  | .peripheral => ⟨1, 0, 0⟩

theorem numbered_start (hf : 20 ≤ fs) (hw : ws ≤ 255) (s : Role) :
    Numbered (start s fs ws) (initialCounts s) := by
  cases s <;> exact {
    fragment := hf
    window := hw
    sequence := by simp [start, create]
    incoming := by simp [start, create]
    lock := rfl
    left := by rintro m ⟨⟩
    pending := by rintro ⟨⟩
    sent := by simp [NumberOf, start, create, initialCounts]
    received := by simp [NumberOf, start, create, initialCounts]
    acked := by simp [NumberOf, start, create, initialCounts]
    outstanding_nonneg := by decide
    outstanding_le := by decide
    failures := by rintro e ⟨⟩ }

theorem direction_start (fs ws : Nat) (s : Role) : Direction (start s fs ws) (start s.other fs ws)
      (initialCounts s) (initialCounts s.other) [] := by
  cases s <;> exact {
    received_le := by decide
    fragment := rfl
    handed := prefix_rfl
    flow := fun _ => ⟨[], _, _, [], {
      written := rfl
      leads := .nil ⟨_, [], 0⟩
      received := rfl
      acked := rfl
      inSync := ⟨rfl, rfl, rfl, fun m hm => nomatch hm⟩
      sent := rfl
      left := rfl
      acked_le := by decide
      accepted_prefix := prefix_rfl
      accepted_eq := fun _ => rfl }⟩ }

theorem invariant_ofHandshake {r : List UInt8}
    (ho : ofHandshake m r = .ok l) : Invariant l initialCounts := by
  obtain ⟨⟨h, e⟩, hp, ho⟩ := Tlv.ok_of_bind ho
  obtain ⟨f, ws, h1, h2, h3, rfl, rfl⟩ :=
    createFromHandshakeRequest_ok hp
  simp only [createAsCentral_eq h2 h3] at ho
  cases ho
  have hs : ∀ s, (fun
      | .central => start .central f ws
      | .peripheral => start .peripheral f ws : Role → BtpSessionHandler) s =
      start s f ws := by
    intro s
    cases s <;> rfl
  refine ⟨fun s => ?_, fun s => ?_⟩
  · simp only [hs]
    exact numbered_start h1 h3 s
  · simp only [hs]
    exact direction_start f ws s

/-- One side of a link takes the place of what it was. -/
theorem Invariant.replace {s : Role} {x : Counts} {m : List (List UInt8)}
    (hi : Invariant l n) (hr : Replaces (l.session s) (n s) m h x) :
    Invariant ⟨update l.session s h, update l.asked s (l.asked s ++ m)⟩ (update n s x) := by
  refine ⟨fun t => ?_, fun t => ?_⟩
  · rcases s.eq_or_eq_other t with rfl | rfl
    · simpa using hr.numbered
    · simpa using hi.numbered s.other
  · rcases s.eq_or_eq_other t with rfl | rfl
    · simpa using hr.sender _ _ _ (hi.direction t)
    · have hd := hi.direction s.other
      rw [Role.other_other] at hd
      simpa using hr.receiver _ _ _ hd

theorem Invariant.deliver {s : Role} {r : List (List UInt8)}
    (hi : Invariant l n) (hw : (l.session s).written = bs :: r) :
    ∃ n', Invariant ⟨update (update l.session s ((l.session s).taken r))
      s.other ((l.session s.other).handleIncomingBleData bs), l.asked⟩ n' := by
  have hb := hi.direction s.other
  rw [Role.other_other] at hb
  obtain ⟨y, hn, h1, h2⟩ :=
    deliver_direction (hi.numbered s.other) (hi.direction s) hb hw
  refine ⟨update n s.other y, fun t => ?_, fun t => ?_⟩
  · rcases s.eq_or_eq_other t with rfl | rfl
    · simpa [update_of_ne (Role.other_ne t).symm] using (hi.numbered t).taken r
    · simpa using hn
  · rcases s.eq_or_eq_other t with rfl | rfl
    · simpa [update_of_ne (Role.other_ne t).symm] using h1
    · simpa [update_of_ne (Role.other_ne s).symm] using h2

theorem invariant_step {e : Event} (hi : Invariant l n) (hr : l.isReliable e)
    (hs : l.step e = some l') : ∃ n', Invariant l' n' := by
  cases e with
  | own s event =>
    obtain ⟨h, hh, rfl⟩ := Option.map_eq_some_iff.mp hs
    obtain ⟨x, hp⟩ := step_replaces (hi.numbered s) hr hh
    exact ⟨_, hi.replace hp⟩
  | deliver s =>
    simp only [step] at hs
    split at hs
    · cases hs
    · rename_i bytes r hw
      cases hs
      exact hi.deliver hw

/-- In every run of a reliable link no side closes its session for a violation of the protocol, and
what a side was handed is a prefix of what the other was asked to send. -/
theorem messages_delivered {maxDataSize : Option Nat} {request : List UInt8} {es : List Event}
    (hstart : ofHandshake maxDataSize request = .ok l)
    (hrun : Run (guarded step (fun l e => isReliable l e = true)) l es l') (side : Role) :
    (∀ message, .btpProtocol message ∉ (l'.session side).failures) ∧
      (l'.session side.other).handed <+: l'.asked side := by
  have hi : ∃ n, Invariant l' n := by
    refine guarded_invariant (I := fun l => ∃ n, Invariant l n) ?_ hrun
      ⟨_, invariant_ofHandshake hstart⟩
    rintro s e t hr ht ⟨n, hs⟩
    exact invariant_step hs hr ht
  obtain ⟨n, hi⟩ := hi
  refine ⟨fun message hm => ?_, (hi.direction side).handed⟩
  have := (hi.numbered side).failures _ hm
  cases this

/-- Two messages, the first in two segments and answered while it arrives. -/
theorem messages_delivered_segmented :
    ∃ l l', ofHandshake (some 20) [0x65, 0x6c, 4, 0, 0, 0, 20, 0, 6] = .ok l ∧
      exec (guarded step (fun l e => isReliable l e = true)) l
        [.own .central (.send (List.replicate 20 1)), .own .peripheral (.send [2]),
          .deliver .central, .own .central (.settle 0 .done), .deliver .peripheral,
          .deliver .central] = some l' ∧ (l'.session .peripheral).handed = [List.replicate 20 1] ∧
      (l'.session .peripheral).handed <+: l'.asked .central := by
  have hs : ofHandshake (some 20) [0x65, 0x6c, 4, 0, 0, 0, 20, 0, 6] = .ok _ := rfl
  refine ⟨_, exists_and_left.mpr ⟨hs, exec_and_of_run
    (P := fun l' => (l'.session .peripheral).handed = [List.replicate 20 1])
    ⟨_, rfl, by decide⟩ ?_⟩⟩
  intro l' hu hh
  exact ⟨hh, (messages_delivered hs hu .central).2⟩

end Link

end MatterJs.Btp
