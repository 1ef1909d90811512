import MatterJs.Btp.Sender
import MatterJs.Foundation.Channel

/-!
# Packets in flight

Two sessions are related by the packets between them: these lead from what the receiver
has taken to what the sender has sent. Packets are counted without wrapping, and the
numbers of a session stand for these counts modulo 256.
-/
namespace MatterJs.Btp

open BtpCodec Channel List

namespace BtpSessionHandler

/-- The number of the last of `n` packets, which are numbered from 0. -/
def NumberOf (x : Int) (n : Nat) : Prop := x % 256 = ((n : Int) - 1) % 256

/-- What a packet changes at its sender: the packets sent, the messages left to send, and the
packets acknowledged to the other side. -/
structure View where
  sent : Nat
  left : List MessageReader
  acked : Nat

/-- A packet leads from one view of its sender to the next. -/
structure Follows (fragmentSize : Nat) (u : View) (p : BtpPacket) (v : View) : Prop where
  valid : p.Valid
  fits : p.bytes.length ≤ fragmentSize
  content : p.payload.segmentPayload = [] → p.header.hasAckNumber
  sent : v.sent = u.sent + 1
  number : NumberOf p.payload.sequenceNumber v.sent
  carries : Carries p u.left v.left
  acked : u.acked ≤ v.acked
  noAck : p.payload.ackNumber = none → v.acked = u.acked
  ack : ∀ n, p.payload.ackNumber = some n → NumberOf n v.acked

/-- The packets a session has sent, received, and had acknowledged. -/
structure Counts where
  sent : Nat
  received : Nat
  acked : Nat

/-- The counts a session stands for. -/
structure Numbered (h : BtpSessionHandler) (x : Counts) : Prop extends h.Sound where
  sent : NumberOf h.sequenceNumber x.sent
  received : NumberOf h.prevIncomingSequenceNumber x.received
  acked : NumberOf h.prevIncomingAckNumber x.acked
  outstanding_nonneg : x.acked ≤ x.sent
  outstanding_le : x.sent ≤ x.acked + 255
  failures : ∀ e ∈ h.failures, e = .callback

/-- The packets in flight from one session to another. The messages a session accepts are all it is
asked to send until it is closed. -/
structure InFlight (h k : BtpSessionHandler) (x y : Counts) (asked : List (List UInt8))
    (packets : List BtpPacket) (u v : View) (accepted : List (List UInt8)) : Prop where
  written : h.written = packets.map BtpPacket.bytes
  leads : Leads (Follows k.fragmentSize) u packets v
  received : u.sent = y.received
  acked : u.acked = y.acked
  inSync : InSync k.inbox u.left accepted
  sent : v.sent = x.sent
  left : v.left = h.unsent
  acked_le : v.acked ≤ x.received
  accepted_prefix : accepted <+: asked
  accepted_eq : h.isActive → accepted = asked

/-- One direction of a link, from its sender to its receiver. -/
structure Direction (h k : BtpSessionHandler) (x y : Counts) (asked : List (List UInt8)) :
    Prop where
  received_le : y.received ≤ x.sent
  fragment : h.fragmentSize = k.fragmentSize
  handed : k.handed <+: asked
  flow : k.isActive → ∃ packets u v accepted, InFlight h k x y asked packets u v accepted

/-- A session may take the place of another on both directions of its link; it was asked for
messages. -/
structure Replaces (h : BtpSessionHandler) (x : Counts) (messages : List (List UInt8))
    (h' : BtpSessionHandler) (x' : Counts) : Prop where
  numbered : Numbered h' x'
  sender : ∀ k y asked, Direction h k x y asked → Direction h' k x' y (asked ++ messages)
  receiver : ∀ k y asked, Direction k h y x asked → Direction k h' y x' asked

variable {h h' k : BtpSessionHandler} {x x' y : Counts} {ak ms : List (List UInt8)}
  {d : List UInt8}

theorem NumberOf.next (hr : h.Ranges) {n : Nat} (hn : NumberOf h.sequenceNumber n) :
    NumberOf h.nextSequenceNumber (n + 1) := by
  have := hr.sequence
  unfold NumberOf at *
  unfold nextSequenceNumber
  split_ifs <;> omega

theorem Numbered.outstanding (hn : Numbered h x) : h.outstanding = x.sent - x.acked := by
  have h1 := hn.sent
  have h2 := hn.acked
  have h3 := hn.outstanding_nonneg
  have h4 := hn.outstanding_le
  unfold BtpSessionHandler.outstanding
  rw [modularDistance_eq]
  unfold NumberOf at h1 h2
  omega

theorem Replaces.trans {g : BtpSessionHandler} {z : Counts} {ms' : List (List UInt8)}
    (h1 : Replaces h x ms g z) (h2 : Replaces g z ms' h' x') :
    Replaces h x (ms ++ ms') h' x' where
  numbered := h2.numbered
  sender k y ak hd := by
    rw [← append_assoc]
    exact h2.sender k y _ (h1.sender k y ak hd)
  receiver k y ak hd := h2.receiver k y ak (h1.receiver k y ak hd)

/-- A send changes nothing for the packets that are on their way to the session. -/
theorem SameSession.receiver (s : SameSession h h') (hr : x'.received = x.received)
    (hc : x'.acked = x.acked) (hd : Direction k h y x ak) : Direction k h' y x' ak := by
  have hh : h'.handed = h.handed := congrArg Inbox.handed s.inbox
  refine ⟨hr ▸ hd.received_le, hd.fragment.trans s.fragment.symm, hh ▸ hd.handed, fun ha => ?_⟩
  obtain ⟨p, u, v, a, hf⟩ := hd.flow (s.active ha)
  exact ⟨p, u, v, a, { hf with
    leads := s.fragment ▸ hf.leads
    received := hf.received.trans hr.symm
    acked := hf.acked.trans hc.symm
    inSync := s.inbox ▸ hf.inSync }⟩

section
variable (hn : Numbered h x)
include hn

/-- A session that puts nothing on the link. -/
theorem SameSession.replaces (hsn : h'.Sound) (s : SameSession h h')
    (hu : h'.unsent = h.unsent) (hw : h'.written = h.written)
    (hs : h'.sequenceNumber = h.sequenceNumber) : Replaces h x [] h' x where
  numbered := {
    hsn with
    sent := hs ▸ hn.sent
    received := s.incoming ▸ hn.received
    acked := s.ack ▸ hn.acked
    outstanding_nonneg := hn.outstanding_nonneg
    outstanding_le := hn.outstanding_le
    failures := fun e he => (s.failures e he).elim (hn.failures e) id }
  sender k y ak hd := by
    rw [append_nil]
    refine ⟨hd.received_le, s.fragment.trans hd.fragment, hd.handed, fun hc => ?_⟩
    obtain ⟨p, u, v, a, hf⟩ := hd.flow hc
    exact ⟨p, u, v, a, { hf with
      written := hw.trans hf.written
      left := hf.left.trans hu.symm
      accepted_eq := fun ha => hf.accepted_eq (s.active ha) }⟩
  receiver _ _ _ hd := s.receiver rfl rfl hd

theorem Sent.inFlight {p : BtpPacket} {s : List BtpPacket} {u v : View}
    {accepted : List (List UInt8)} (hp : Sent h h' p)
    (a : SameSession h h') (hd : Direction h k x y ak) (hf : InFlight h k x y ak s u v accepted) :
    ∃ w, InFlight h' k { x with sent := x.sent + 1 } y ak (s ++ [p]) u w accepted := by
  -- the packet acknowledges all that was received, or what the packets before it acknowledge
  refine ⟨⟨x.sent + 1, h'.unsent, if p.payload.ackNumber = none then v.acked else x.received⟩, {
    written := by rw [hp.written, hf.written, map_append]; rfl
    leads := hf.leads.snoc {
      valid := hp.valid
      fits := hd.fragment ▸ hp.fits
      content := hp.content
      sent := by rw [hf.sent]
      number := hp.number ▸ hn.sent.next hn.toRanges
      carries := hf.left ▸ hp.carries
      acked := ?_
      noAck := fun hnn => if_pos hnn
      ack := ?_ }
    received := hf.received
    acked := hf.acked
    inSync := hf.inSync
    sent := rfl
    left := rfl
    acked_le := ?_
    accepted_prefix := hf.accepted_prefix
    accepted_eq := fun ha => hf.accepted_eq (a.active ha) }⟩
  · have := hf.acked_le
    show v.acked ≤ if p.payload.ackNumber = none then v.acked else x.received
    split_ifs <;> omega
  · intro n hc
    have hs : ¬ p.payload.ackNumber = none := by simp [hc]
    simp only [if_neg hs]
    exact hp.ack n hc ▸ hn.received
  · have := hf.acked_le
    show (if p.payload.ackNumber = none then v.acked else x.received) ≤ x.received
    split_ifs <;> omega

theorem Emits.replaces (hs : h'.Sound) (s : Emits h h') : ∃ x', Replaces h x [] h' x' := by
  rcases s.sent with ⟨hu, hwr, hq⟩ | ⟨p, hp⟩
  · exact ⟨x, s.same.replaces hn hs hu hwr hq⟩
  · have ho := hn.outstanding
    have hm := hp.room
    have hwn := hn.window
    refine ⟨{ x with sent := x.sent + 1 }, {
      numbered := { hs with
        sent := hp.sequence ▸ hn.sent.next hn.toRanges
        received := s.same.incoming ▸ hn.received
        acked := s.same.ack ▸ hn.acked
        outstanding_nonneg := Nat.le_succ_of_le hn.outstanding_nonneg
        outstanding_le := by show x.sent + 1 ≤ x.acked + 255; omega
        failures := fun e he => (s.same.failures e he).elim (hn.failures e) id }
      sender := ?_
      receiver := ?_ }⟩
    · intro k y ak hd
      rw [append_nil]
      refine ⟨Nat.le_succ_of_le hd.received_le, s.same.fragment.trans hd.fragment, hd.handed,
        fun ha => ?_⟩
      obtain ⟨pa, u, v, a, hf⟩ := hd.flow ha
      obtain ⟨w, hw⟩ := hp.inFlight hn s.same hd hf
      exact ⟨_, u, w, a, hw⟩
    · exact fun _ _ _ hd => s.same.receiver (x := x) rfl rfl hd

/-- A session that is closed accepts no message. -/
theorem replaces_closed (hc : h.isActive = false)
    (ms : List (List UInt8)) : Replaces h x ms h x where
  numbered := hn
  sender k y ak hd := by
    refine ⟨hd.received_le, hd.fragment, hd.handed.trans (prefix_append _ _), fun ha => ?_⟩
    obtain ⟨p, u, v, a, hf⟩ := hd.flow ha
    exact ⟨p, u, v, a, { hf with
      accepted_prefix := hf.accepted_prefix.trans (prefix_append _ _)
      accepted_eq := by simp [hc] }⟩
  receiver _ _ _ hd := hd

/-- A message is queued after those that are left to send. -/
theorem replaces_push (ha : h.isActive) (hp : 0 < d.length) (hl : d.length ≤ 65535) :
    Replaces h x [d] { h with queuedOutgoingMatterMessages :=
      h.queuedOutgoingMatterMessages ++ [MessageReader.mk d 0] } x := by
  have hu := unsent_push hn.toSound (MessageReader.mk d 0)
  refine ⟨{ hn with
    left := ?_
    pending := fun _ => by simp }, ?_, ?_⟩
  · rw [hu]
    intro m hm
    rcases mem_append.mp hm with hm | hm
    · exact hn.left m hm
    · obtain rfl := mem_singleton.mp hm
      exact ⟨hp, hl⟩
  · intro k y ak hd
    refine ⟨hd.received_le, hd.fragment, hd.handed.trans (prefix_append _ _), fun hk => ?_⟩
    obtain ⟨a, u, v, c, hf⟩ := hd.flow hk
    -- the message is added to what is left in every view
    refine ⟨a, { u with left := u.left ++ [⟨d, 0⟩] },
      { v with left := v.left ++ [⟨d, 0⟩] }, c ++ [d], { hf with
        leads := hf.leads.map (f := fun w => { w with left := w.left ++ [⟨d, 0⟩] })
          fun w p w' hw => { hw with carries := hw.carries.append _ }
        inSync := hf.inSync.append d
        left := by rw [hu, ← hf.left]
        accepted_prefix := by simp only [hf.accepted_eq ha, prefix_rfl]
        accepted_eq := fun _ => by rw [hf.accepted_eq ha] }⟩
  · have sa : SameSession h { h with queuedOutgoingMatterMessages :=
        h.queuedOutgoingMatterMessages ++ [MessageReader.mk d 0] } :=
      ⟨rfl, rfl, rfl, rfl, rfl, id, fun _ => .inl⟩
    exact fun _ _ _ hd => sa.receiver rfl rfl hd

end

/-- The messages an event asks a session to send. -/
def Event.asks : Event → List (List UInt8)
  | .send data => [data]
  | _ => []

/-- The messages are of a length that fits in a packet, no write fails, and only the link delivers
packets. -/
def isReliable (h : BtpSessionHandler) : Event → Bool
  | .send data => 0 < data.length && data.length ≤ 65535
  | .incoming _ => false
  | .settle index outcome => (h.tasks[index]?).all (fun task => !task.isWrite || outcome = .done)
  | .sendAckTimeout | .ackTimeout | .idleTimeout | .close => true

/-- A timer that fires, and a close, change what is left to send in nothing. -/
theorem sound_quiet (hs : h.Sound) (sendAckTimer r idleTimeout isActive : Bool)
    (ha : isActive → h.isActive) :
    { h with sendAckTimer, ackReceiveTimer := r, idleTimeout, isActive }.Sound ∧
      SameSender h { h with sendAckTimer, ackReceiveTimer := r, idleTimeout, isActive } :=
  ⟨{ hs with }, ⟨rfl, rfl, rfl, rfl, rfl, ha, fun _ => .inl⟩, rfl, rfl, rfl⟩

theorem send_replaces (hn : Numbered h x) (hp : 0 < d.length)
    (hl : d.length ≤ 65535) : ∃ x', Replaces h x [d] (h.sendMatterMessage d) x' := by
  unfold sendMatterMessage
  by_cases ha : h.isActive
  · have hd : d.isEmpty = false := by
      rw [isEmpty_eq_false_iff, ← length_pos_iff]
      exact hp
    rw [if_neg (by simp [ha]), if_neg (by simp [hd])]
    have hps := replaces_push hn ha hp hl
    obtain ⟨hs, he⟩ := processSendQueue_emits hps.numbered.toSound .other
    obtain ⟨x', hr⟩ := he.replaces hps.numbered hs
    have hb := hps.trans hr
    exact ⟨x', hb⟩
  · have hc : h.isActive = false := by simpa using ha
    simp only [hc, Bool.not_false, if_true]
    exact ⟨x, replaces_closed hn hc [d]⟩

/-- What one event at a session does to its link. -/
theorem step_replaces {e : Event} (hn : Numbered h x) (hr : h.isReliable e)
    (hst : h.step e = some h') : ∃ x', Replaces h x e.asks h' x' := by
  have quiet : ∀ {g : BtpSessionHandler}, g.Sound ∧ SameSender h g → ∃ x', Replaces h x [] g x' :=
    fun hg => hg.2.emits.replaces hn hg.1
  cases e with
  | send d =>
    cases hst
    simp only [isReliable, Bool.and_eq_true, decide_eq_true_eq] at hr
    exact send_replaces hn hr.1 hr.2
  | incoming d => cases hr
  | settle index o =>
    obtain ⟨task, hts, rfl⟩ := Option.map_eq_some_iff.mp hst
    simp only [isReliable, hts] at hr
    have hd : task.isWrite → o = .done := by
      intro hw
      simpa [hw] using hr
    obtain ⟨hs, he⟩ := settle_emits hn.toSound hts hd
    exact he.replaces hn hs
  | sendAckTimeout =>
    simp only [step] at hst
    split_ifs at hst with ht ha
    · cases hst
      obtain ⟨hs, hm⟩ := sound_quiet hn.toSound false h.ackReceiveTimer h.idleTimeout
        h.isActive id
      obtain ⟨hs', he⟩ := sendStandaloneAck_emits hs .other
      exact (hm.trans_emits he).replaces hn hs'
    · cases hst
      exact quiet (sound_quiet hn.toSound _ _ _ _ id)
  | ackTimeout =>
    simp only [step] at hst
    split_ifs at hst with ht hc
    · cases hst
      exact quiet (sound_quiet hn.toSound _ _ _ _ (by simp))
    · cases hst
      exact quiet (sound_quiet hn.toSound _ _ _ _ id)
  | idleTimeout =>
    simp only [step] at hst
    split_ifs at hst
    cases hst
    exact quiet (sound_quiet hn.toSound _ _ _ _ (by simp))
  | close =>
    cases hst
    exact quiet (sound_quiet hn.toSound _ _ _ _ (by simp))

end BtpSessionHandler

end MatterJs.Btp
