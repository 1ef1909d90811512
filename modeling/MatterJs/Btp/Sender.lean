import Mathlib.Data.List.Perm.Basic
import MatterJs.Btp.Segments

/-!
# What a session sends

The send lock, the messages that are left to send while a write is pending, and that
every send puts at most one well-formed packet on the link.
-/
namespace MatterJs.Btp

open BtpCodec List MessageReader

namespace Task

def isWrite : Task → Bool
  | .writeFragment .. | .writeAck .. => true
  | .handlePayload | .sendQueueDone => false

def endsMessage : Task → Bool
  | .writeFragment _ isEndingSegment _ => isEndingSegment
  | .writeAck .. | .handlePayload | .sendQueueDone => false

theorem isWrite_of_endsMessage {t : Task} (h : t.endsMessage) : t.isWrite := by
  cases t <;> first | rfl | cases h

end Task

/-- A message that is not read to its end, of a length that fits in a packet. -/
def MessageReader.Unread (m : MessageReader) : Prop :=
  m.offset < m.data.length ∧ m.data.length ≤ 65535

namespace BtpSessionHandler

variable {h h' : BtpSessionHandler} {c : Caller} {ts : List Task}

/-- The messages left to send. One whose last fragment is being written is still queued. -/
def unsent (h : BtpSessionHandler) : List MessageReader :=
  if h.tasks.any Task.endsMessage then h.queuedOutgoingMatterMessages.tail
  else h.queuedOutgoingMatterMessages

/-- The sizes and numbers of a session. -/
structure Ranges (h : BtpSessionHandler) : Prop where
  fragment : 20 ≤ h.fragmentSize
  window : h.clientWindowSize ≤ 255
  sequence : -1 ≤ h.sequenceNumber ∧ h.sequenceNumber ≤ 255
  incoming : 0 ≤ h.prevIncomingSequenceNumber ∧ h.prevIncomingSequenceNumber ≤ 255

/-- The lock is held by the one call whose write is pending. -/
structure Sound (h : BtpSessionHandler) : Prop extends h.Ranges where
  lock : h.tasks.countP Task.isWrite = if h.sendInProgress then 1 else 0
  left : ∀ m ∈ h.unsent, m.Unread
  pending : h.tasks.any Task.endsMessage → h.queuedOutgoingMatterMessages ≠ []

/-- No write is pending. -/
structure Free (h : BtpSessionHandler) : Prop extends h.Ranges where
  idle : ∀ t ∈ h.tasks, t.isWrite = false
  left : ∀ m ∈ h.queuedOutgoingMatterMessages, m.Unread

theorem endsMessage_of_idle (hi : ∀ t ∈ ts, t.isWrite = false) :
    ts.any Task.endsMessage = false := by
  rw [any_eq_false]
  intro t ht he
  have := Task.isWrite_of_endsMessage he
  simp [hi t ht] at this

theorem countP_of_idle (hi : ∀ t ∈ ts, t.isWrite = false) : ts.countP Task.isWrite = 0 := by
  rw [countP_eq_zero]
  intro t ht
  simp [hi t ht]

theorem unsent_of_idle (hi : ∀ t ∈ h.tasks, t.isWrite = false) :
    h.unsent = h.queuedOutgoingMatterMessages := by
  simp [unsent, endsMessage_of_idle hi]

theorem Free.unsent (hf : h.Free) : h.unsent = h.queuedOutgoingMatterMessages :=
  unsent_of_idle hf.idle

theorem Sound.free (hs : h.Sound) (hl : h.sendInProgress = false) : h.Free := by
  have hi : ∀ t ∈ h.tasks, t.isWrite = false := by
    have hc := hs.lock
    rw [hl, if_neg (by decide), countP_eq_zero] at hc
    intro t ht
    simpa using hc t ht
  exact { hs.toRanges with
    idle := hi
    left := by rw [← unsent_of_idle hi]; exact hs.left }

theorem Free.sound (hf : h.Free) (hl : h.sendInProgress = false) : h.Sound :=
  { hf.toRanges with
    lock := by
      rw [hl, if_neg (by decide), countP_of_idle hf.idle]
    left := by rw [hf.unsent]; exact hf.left
    pending := by simp [endsMessage_of_idle hf.idle] }

/-- What a send leaves alone. It may close the session, but not for an error of the protocol. -/
structure SameSession (h h' : BtpSessionHandler) : Prop where
  fragment : h'.fragmentSize = h.fragmentSize
  window : h'.clientWindowSize = h.clientWindowSize
  incoming : h'.prevIncomingSequenceNumber = h.prevIncomingSequenceNumber
  ack : h'.prevIncomingAckNumber = h.prevIncomingAckNumber
  inbox : h'.inbox = h.inbox
  active : h'.isActive → h.isActive
  failures : ∀ e ∈ h'.failures, e ∈ h.failures ∨ e = .callback

/-- A packet that was sent. -/
structure Sent (h h' : BtpSessionHandler) (p : BtpPacket) : Prop where
  valid : p.Valid
  fits : p.bytes.length ≤ h.fragmentSize
  content : p.payload.segmentPayload = [] → p.header.hasAckNumber
  number : p.payload.sequenceNumber = h.nextSequenceNumber
  ack : ∀ n, p.payload.ackNumber = some n → n = h.prevIncomingSequenceNumber
  room : h.outstanding < h.clientWindowSize
  carries : Carries p h.unsent h'.unsent
  written : h'.written = h.written ++ [p.bytes]
  sequence : h'.sequenceNumber = h.nextSequenceNumber

/-- A session after a send: at most one packet was put on the link. -/
structure Emits (h h' : BtpSessionHandler) : Prop where
  same : SameSession h h'
  sent : (h'.unsent = h.unsent ∧ h'.written = h.written ∧ h'.sequenceNumber = h.sequenceNumber) ∨
    ∃ p, Sent h h' p

/-- Two sessions that differ at most in the lock, the timers and what was acknowledged. -/
structure SameSender (h h' : BtpSessionHandler) : Prop extends SameSession h h' where
  unsent : h'.unsent = h.unsent
  written : h'.written = h.written
  sequence : h'.sequenceNumber = h.sequenceNumber

theorem Carries.unread {p : BtpPacket} {left l' : List MessageReader}
    (hc : Carries p left l') (hl : ∀ m ∈ left, m.Unread) : ∀ m ∈ l', m.Unread := by
  cases hc with
  | nothing => exact hl
  | part m n ms _ ht =>
    intro m' hm'
    rcases mem_cons.mp hm' with rfl | hm'
    · exact ⟨ht, (hl m mem_cons_self).2⟩
    · exact hl m' (mem_cons_of_mem m hm')
  | rest m => exact fun m' hm' => hl m' (mem_cons_of_mem m hm')

theorem SameSender.refl (h : BtpSessionHandler) : SameSender h h :=
  ⟨⟨rfl, rfl, rfl, rfl, rfl, id, fun _ => .inl⟩, rfl, rfl, rfl⟩

theorem SameSender.emits (s : SameSender h h') : Emits h h' :=
  ⟨s.toSameSession, .inl ⟨s.unsent, s.written, s.sequence⟩⟩

theorem SameSender.trans_emits {g : BtpSessionHandler} (s : SameSender h g) (es : Emits g h') :
    Emits h h' := by
  have ho : g.outstanding = h.outstanding := by simp [outstanding, s.ack, s.sequence]
  have hx : g.nextSequenceNumber = h.nextSequenceNumber := by
    simp [nextSequenceNumber, s.sequence]
  refine ⟨?_, ?_⟩
  · exact ⟨es.same.fragment.trans s.fragment, es.same.window.trans s.window,
      es.same.incoming.trans s.incoming, es.same.ack.trans s.ack,
      es.same.inbox.trans s.inbox, fun ha => s.active (es.same.active ha), fun e he =>
        (es.same.failures e he).elim (s.failures e) .inr⟩
  · rcases es.sent with ⟨h1, h2, h3⟩ | ⟨p, hp⟩
    · exact .inl ⟨h1.trans s.unsent, h2.trans s.written, h3.trans s.sequence⟩
    · exact .inr ⟨p, {
        valid := hp.valid
        fits := s.fragment ▸ hp.fits
        content := hp.content
        number := hp.number.trans hx
        ack := fun n hn => (hp.ack n hn).trans s.incoming
        room := by rw [← ho, ← s.window]; exact hp.room
        carries := s.unsent ▸ hp.carries
        written := by rw [hp.written, s.written]
        sequence := hp.sequence.trans hx }⟩

theorem nextSequenceNumber_range (hr : h.Ranges) :
    0 ≤ h.nextSequenceNumber ∧ h.nextSequenceNumber ≤ 255 := by
  have := hr.sequence
  unfold nextSequenceNumber
  split_ifs <;> omega

theorem room_of_canSend {c : Bool} (hs : h.canSend c) : h.outstanding < h.clientWindowSize := by
  unfold canSend at hs
  split_ifs at hs with hf
  unfold remoteWindowFreeSlots at hf
  omega

theorem returnTo_sameSender (h : BtpSessionHandler) (c : Caller) :
    SameSender h (h.returnTo c) := by
  cases c with
  | incomingQueue =>
    refine ⟨⟨rfl, rfl, rfl, rfl, rfl, id, fun e => .inl⟩, ?_, rfl, rfl⟩
    simp [unsent, returnTo, Task.endsMessage]
  | incomingAck => exact .refl h
  | other => exact .refl h

theorem returnTo_sound (hs : h.Sound) (c : Caller) : (h.returnTo c).Sound := by
  have sa := returnTo_sameSender h c
  cases c with
  | incomingQueue =>
    exact { hs.toRanges with
      lock := by
        have hc : (h.tasks ++ [Task.sendQueueDone]).countP Task.isWrite =
            h.tasks.countP Task.isWrite := by simp [Task.isWrite]
        exact hc.trans hs.lock
      left := by rw [sa.unsent]; exact hs.left
      pending := by simpa [returnTo, Task.endsMessage] using hs.pending }
  | incomingAck => exact hs
  | other => exact hs

theorem ackPacket_valid (hr : h.Ranges) :
    (ackPacket h.prevIncomingSequenceNumber h.nextSequenceNumber).Valid where
  handshake := rfl
  management := rfl
  payload := rfl
  ack := by
    intro n hn
    have := hr.incoming
    obtain rfl : h.prevIncomingSequenceNumber = n := Option.some.inj hn
    omega
  sequence := by
    have := nextSequenceNumber_range hr
    simp only [ackPacket]
    omega
  length := by intro n hn; cases hn

theorem standaloneAck_emits (hf : h.Free) (hl : h.sendInProgress = false) (c : Caller) :
    (h.sendStandaloneAck c).Sound ∧ Emits h (h.sendStandaloneAck c) := by
  have hv := ackPacket_valid hf.toRanges
  have hen := encodeBtpPacket_eq hv
  rcases sendStandaloneAck_cases h c with hq | ⟨_, _, hs, ⟨e, he, _⟩ | ⟨bytes, hb, hq⟩⟩
  · rw [hq]
    exact ⟨returnTo_sound (hf.sound hl) c, (returnTo_sameSender h c).emits⟩
  · rw [hen] at he
    cases he
  · obtain rfl : _ = bytes := Except.ok.inj (hen.symm.trans hb)
    rw [hq]
    set h' := (h.getNextSequenceNumber.setSendInProgress true).write
      (some h.prevIncomingSequenceNumber)
      (ackPacket h.prevIncomingSequenceNumber h.nextSequenceNumber).bytes
      (.writeAck c h.prevAckedSequenceNumber) with hh'
    have hu : h'.unsent = h.unsent := by
      simp [hh', unsent, write, setSendInProgress, getNextSequenceNumber, Task.endsMessage]
    have hx := nextSequenceNumber_range hf.toRanges
    refine ⟨{
        fragment := hf.fragment
        window := hf.window
        sequence := ⟨by show -1 ≤ h.nextSequenceNumber; omega, hx.2⟩
        incoming := hf.incoming
        lock := ?_
        left := by rw [hu, hf.unsent]; exact hf.left
        pending := by
          simp [hh', write, setSendInProgress, getNextSequenceNumber,
            endsMessage_of_idle hf.idle, Task.endsMessage] }, {
        same := ⟨rfl, rfl, rfl, rfl, rfl, id, fun _ => .inl⟩
        sent := .inr ⟨_, {
          valid := hv
          fits := ?_
          content := fun _ => rfl
          number := rfl
          ack := fun n hn => (Option.some.inj hn).symm
          room := room_of_canSend hs
          carries := by rw [hu]; exact .nothing _ rfl rfl rfl
          written := rfl
          sequence := rfl }⟩ }⟩
    · have hc := countP_of_idle hf.idle
      simp [hh', write, setSendInProgress, getNextSequenceNumber, Task.isWrite, hc]
    · have := hf.fragment
      simp [BtpPacket.bytes, ackPacket]
      omega

theorem sendStandaloneAck_emits (hs : h.Sound) (c : Caller) :
    (h.sendStandaloneAck c).Sound ∧ Emits h (h.sendStandaloneAck c) := by
  by_cases hl : h.sendInProgress
  · have hr : h.sendStandaloneAck c = h.returnTo c := if_pos hl
    rw [hr]
    exact ⟨returnTo_sound hs c, (returnTo_sameSender h c).emits⟩
  · have hf : h.sendInProgress = false := by simpa using hl
    exact standaloneAck_emits (hs.free hf) hf c

section Fragment

variable {m : MessageReader} {ms : List MessageReader}

theorem remaining_iff (hm : m.Unread) : m.remainingBytesCount = m.data.length ↔ m.offset = 0 := by
  have := hm.1
  unfold remainingBytesCount
  omega

theorem isBeginningSegment_eq (hm : m.Unread) :
    (h.fragmentPacket m).header.isBeginningSegment = (m.offset == 0) := by
  simp only [fragmentPacket, remaining_iff hm]
  rfl

/-- The room for a message in a fragment, by the numbers in front of it. -/
theorem capacity_eq (hm : m.Unread) :
    h.capacity m = h.fragmentSize - (2 + (if m.offset = 0 then 2 else 0) +
      (if h.hasAckNumber then 1 else 0)) := by
  simp [capacity, remaining_iff hm]

theorem fragmentLength_pos (hr : h.Ranges) (hm : m.Unread) : 0 < h.fragmentLength m := by
  have hf := hr.fragment
  have hl := hm.1
  have hc : 15 ≤ h.capacity m := by
    rw [capacity_eq hm]
    split_ifs <;> omega
  unfold fragmentLength remainingBytesCount
  omega

theorem fragmentLength_le (m : MessageReader) : h.fragmentLength m ≤ m.remainingBytesCount := by
  unfold fragmentLength
  omega

theorem fragmentPayload_length (hr : h.Ranges) (hm : m.Unread) :
    ((h.fragmentPacket m).payload.segmentPayload.length : Int) = h.fragmentLength m := by
  have hp := fragmentLength_pos hr hm
  have hl := fragmentLength_le (h := h) m
  have hrm : (m.data.drop m.offset).length = m.remainingBytesCount := by
    simp [remainingBytesCount]
  simp only [fragmentPacket, length_take, hrm]
  omega

theorem fragmentPacket_valid (hr : h.Ranges) (hm : m.Unread) : (h.fragmentPacket m).Valid where
  handshake := rfl
  management := rfl
  payload := by
    have he : (h.fragmentPacket m).payload.segmentPayload.isEmpty = false := by
      have hl := fragmentPayload_length hr hm
      have hp := fragmentLength_pos hr hm
      rw [isEmpty_eq_false_iff, ← length_pos_iff]
      omega
    have ha : (h.fragmentPacket m).payload.ackNumber.isSome =
        (h.fragmentPacket m).header.hasAckNumber := by
      simp only [fragmentPacket, ackNumberToSend]
      split_ifs with ha <;> simp [ha]
    have hb : (h.fragmentPacket m).payload.messageLength.isSome =
        (h.fragmentPacket m).header.isBeginningSegment := by
      simp only [fragmentPacket]
      split_ifs with hb <;> simp_all
    have hc : (h.fragmentPacket m).header.isContinuingSegment =
        !(h.fragmentPacket m).header.isBeginningSegment := rfl
    unfold validatePayload
    simp only [← Option.not_isSome, he, hc, ha, hb]
    cases (h.fragmentPacket m).header.hasAckNumber <;>
      cases (h.fragmentPacket m).header.isBeginningSegment <;>
      cases (h.fragmentPacket m).header.isEndingSegment <;> rfl
  ack := by
    intro n hn
    have := hr.incoming
    simp only [fragmentPacket, ackNumberToSend] at hn
    split_ifs at hn
    cases hn
    omega
  sequence := by
    have := nextSequenceNumber_range hr
    simp only [fragmentPacket]
    omega
  length := by
    intro n hn
    have := hm.2
    simp only [fragmentPacket] at hn
    split_ifs at hn
    cases hn
    unfold remainingBytesCount
    omega

theorem fragmentPacket_fits (hr : h.Ranges) (hm : m.Unread) :
    (h.fragmentPacket m).bytes.length ≤ h.fragmentSize := by
  have hl := fragmentPayload_length hr hm
  have he : h.fragmentLength m ≤ h.capacity m := by
    unfold fragmentLength
    omega
  have hc := capacity_eq (h := h) hm
  have hb : (h.fragmentPacket m).payload.messageLength =
      if m.offset = 0 then some m.remainingBytesCount else none := by
    simp [fragmentPacket, remaining_iff hm]
  have ha : (h.fragmentPacket m).payload.ackNumber =
      if h.hasAckNumber then some h.prevIncomingSequenceNumber else none := rfl
  simp only [BtpPacket.bytes, hb, ha]
  split_ifs at hc ⊢ <;> simp <;> omega

/-- The messages left after a fragment of the first. -/
def leftAfter (h : BtpSessionHandler) (m : MessageReader) (ms : List MessageReader) :
    List MessageReader :=
  if (h.fragmentPacket m).header.isEndingSegment then ms
  else ⟨m.data, m.offset + (h.fragmentLength m).toNat⟩ :: ms

theorem fragmentPacket_carries (hr : h.Ranges) (hm : m.Unread) :
    Carries (h.fragmentPacket m) (m :: ms) (h.leftAfter m ms) := by
  have ho := fragmentLength_pos hr hm
  have ht := hm.1
  have hb := isBeginningSegment_eq (h := h) hm
  have hc : (h.fragmentPacket m).header.isContinuingSegment = !(m.offset == 0) := by
    rw [← hb]
    rfl
  have hl : m.offset = 0 → (h.fragmentPacket m).payload.messageLength = some m.data.length := by
    intro hz
    simp only [fragmentPacket, remaining_iff hm, hz, decide_true, if_true]
    rw [(remaining_iff hm).mpr hz]
  unfold leftAfter
  split_ifs with he
  · refine .rest m ms ht hb hc he hl ?_
    have ha : h.fragmentLength m = m.remainingBytesCount := by
      simp only [fragmentPacket, decide_eq_true_eq] at he
      unfold fragmentLength
      omega
    simp only [fragmentPacket, ha]
    rw [take_of_length_le]
    simp [remainingBytesCount]
  · have hp : h.fragmentLength m < m.remainingBytesCount := by
      simp only [fragmentPacket, decide_eq_true_eq] at he
      unfold fragmentLength
      omega
    refine .part m _ ms (by omega) ?_ hb hc (by simpa using he) hl rfl
    unfold remainingBytesCount at hp
    omega

end Fragment

section Emits

theorem Free.setSendInProgress (hf : h.Free) (b : Bool) : (h.setSendInProgress b).Free :=
  ⟨⟨hf.fragment, hf.window, hf.sequence, hf.incoming⟩, hf.idle, hf.left⟩

theorem sameSender_inProgress (h : BtpSessionHandler) (b : Bool) :
    SameSender h (h.setSendInProgress b) :=
  ⟨⟨rfl, rfl, rfl, rfl, rfl, id, fun _ => .inl⟩, rfl, rfl, rfl⟩

theorem fragment_emits {m : MessageReader} {ms : List MessageReader} (hf : h.Free)
    (hlc : h.sendInProgress) (hq : h.queuedOutgoingMatterMessages = m :: ms)
    (hs : h.canSend h.hasAckNumber)
    (heq : h' = (h.readFragment m ms).write h.ackNumberToSend (h.fragmentPacket m).bytes
      (.writeFragment c (h.fragmentPacket m).header.isEndingSegment h.prevAckedSequenceNumber)) :
    h'.Sound ∧ Emits h h' := by
  have hm : m.Unread := hf.left m (by rw [hq]; exact mem_cons_self)
  have hc : Carries (h.fragmentPacket m) (m :: ms) (h.leftAfter m ms) :=
    fragmentPacket_carries hf.toRanges hm
  have hx := nextSequenceNumber_range hf.toRanges
  have hnn := endsMessage_of_idle hf.idle
  have hcn := countP_of_idle hf.idle
  have hu : h'.unsent = h.leftAfter m ms := by
    subst heq
    simp [unsent, write, readFragment, getNextSequenceNumber, stopSendAckTimer, hnn,
      Task.endsMessage, leftAfter]
  have hlf := hc.unread (by rw [← hq]; exact hf.left)
  subst heq
  refine ⟨{
      fragment := hf.fragment
      window := hf.window
      sequence := ⟨by show -1 ≤ h.nextSequenceNumber; omega, hx.2⟩
      incoming := hf.incoming
      lock := ?_
      left := by rw [hu]; exact hlf
      pending := by simp [write, readFragment] }, {
      same := ⟨rfl, rfl, rfl, rfl, rfl, id, fun _ => .inl⟩
      sent := .inr ⟨h.fragmentPacket m, {
        valid := fragmentPacket_valid hf.toRanges hm
        fits := fragmentPacket_fits hf.toRanges hm
        content := ?_
        number := rfl
        ack := ?_
        room := room_of_canSend hs
        carries := by rw [hu, hf.unsent, hq]; exact hc
        written := rfl
        sequence := rfl }⟩ }⟩
  · simp [write, readFragment, getNextSequenceNumber, stopSendAckTimer, Task.isWrite, hcn, hlc]
  · intro he
    have hl := fragmentPayload_length hf.toRanges hm
    have hp := fragmentLength_pos hf.toRanges hm
    rw [he] at hl
    simp only [length_nil] at hl
    omega
  · intro n hn
    simp only [fragmentPacket, ackNumberToSend] at hn
    split_ifs at hn
    exact (Option.some.inj hn).symm

theorem sendLoop_emits (hf : h.Free) (hl : h.sendInProgress) (c : Caller) :
    (h.sendLoop c).Sound ∧ Emits h (h.sendLoop c) := by
  rcases sendLoop_cases h c with heq |
    ⟨m, ms, hq, hn, ⟨ht, _⟩ | ⟨e, he, _⟩ | ⟨bytes, hb, heq⟩⟩
  · obtain ⟨hs, hem⟩ :=
      standaloneAck_emits (hf.setSendInProgress false) rfl c
    rw [heq]
    exact ⟨hs, (sameSender_inProgress h false).trans_emits hem⟩
  all_goals have hm : m.Unread := hf.left m (by rw [hq]; exact mem_cons_self)
  · have := fragmentLength_pos hf.toRanges hm
    omega
  · rw [encodeBtpPacket_eq (fragmentPacket_valid hf.toRanges hm)] at he
    cases he
  · rw [encodeBtpPacket_eq (fragmentPacket_valid hf.toRanges hm)] at hb
    cases hb
    exact fragment_emits hf hl hq hn heq

theorem processSendQueue_emits (hs : h.Sound) (c : Caller) :
    (h.processSendQueue c).Sound ∧ Emits h (h.processSendQueue c) := by
  rcases processSendQueue_cases h c with hq | ⟨hl, _, hq⟩
  · rw [hq]
    exact ⟨returnTo_sound hs c, (returnTo_sameSender h c).emits⟩
  · obtain ⟨hn, he⟩ :=
      sendLoop_emits ((hs.free hl).setSendInProgress true) rfl c
    rw [hq]
    exact ⟨hn, (sameSender_inProgress h true).trans_emits he⟩

theorem immediateAck_emits (hs : h.Sound) :
    h.sendImmediateAckIfWindowLow.Sound ∧ Emits h h.sendImmediateAckIfWindowLow := by
  unfold sendImmediateAckIfWindowLow
  split_ifs
  · exact ⟨hs, (SameSender.refl h).emits⟩
  · exact ⟨hs, (SameSender.refl h).emits⟩
  · exact sendStandaloneAck_emits hs _

variable {x : Nat} {a : Task}

/-- The calls that wait when one of them goes on. -/
theorem tasks_perm (ht : h.tasks[x]? = some a) : h.tasks.Perm (a :: h.tasks.eraseIdx x) := by
  obtain ⟨hl, rfl⟩ := List.getElem?_eq_some_iff.mp ht
  exact (List.getElem_cons_eraseIdx_perm hl).symm

section
variable (hs : h.Sound)
include hs

/-- A call whose write has been done: no other write is pending. -/
theorem idle_of_write (hts : h.tasks[x]? = some a) (hw : a.isWrite) :
    h.sendInProgress ∧ (∀ t ∈ h.tasks.eraseIdx x, t.isWrite = false) ∧
      h.unsent = if a.endsMessage then h.queuedOutgoingMatterMessages.tail
        else h.queuedOutgoingMatterMessages := by
  have hp := tasks_perm hts
  have hc : (h.tasks.eraseIdx x).countP Task.isWrite + 1 =
      if h.sendInProgress then 1 else 0 := by
    rw [← hs.lock, hp.countP_eq, countP_cons_of_pos hw]
  have hl : h.sendInProgress := by
    by_contra hf
    simp [hf] at hc
  have hi : ∀ t ∈ h.tasks.eraseIdx x, t.isWrite = false := by
    rw [hl, if_pos rfl] at hc
    have hz : (h.tasks.eraseIdx x).countP Task.isWrite = 0 := by omega
    intro t ht
    simpa using countP_eq_zero.mp hz t ht
  refine ⟨hl, hi, ?_⟩
  have ha : h.tasks.any Task.endsMessage = a.endsMessage := by
    rw [hp.any_eq, any_cons, endsMessage_of_idle hi, Bool.or_false]
  simp [unsent, ha]

/-- A call that did not write goes on: the others wait as before. -/
theorem sound_eraseIdx (ht : h.tasks[x]? = some a) (hw : a.isWrite = false) :
    { h with tasks := h.tasks.eraseIdx x }.Sound ∧
      SameSender h { h with tasks := h.tasks.eraseIdx x } := by
  have hp := tasks_perm ht
  have he : a.endsMessage = false := by
    by_contra he
    have := Task.isWrite_of_endsMessage (Bool.eq_true_of_not_eq_false he)
    simp [hw] at this
  have hu : { h with tasks := h.tasks.eraseIdx x }.unsent = h.unsent := by
    simp [unsent, hp.any_eq, he]
  refine ⟨{ hs.toRanges with
    lock := ?_
    left := by rw [hu]; exact hs.left
    pending := by
      have := hs.pending
      rw [hp.any_eq, any_cons, he, Bool.false_or] at this
      exact this }, ⟨rfl, rfl, rfl, rfl, rfl, id, fun _ => .inl⟩, hu, rfl, rfl⟩
  have hc := hs.lock
  rw [hp.countP_eq, countP_cons_of_neg (by simp [hw])] at hc
  exact hc

/-- A call goes on after its callback; a write has been done. -/
theorem settle_emits {o : Outcome}
    (ht : h.tasks[x]? = some a) (hd : a.isWrite → o = .done) :
    ({ h with tasks := h.tasks.eraseIdx x }.resume a o).Sound ∧
      Emits h ({ h with tasks := h.tasks.eraseIdx x }.resume a o) := by
  cases a with
  | handlePayload =>
    obtain ⟨hn, hm⟩ := sound_eraseIdx hs ht rfl
    have hf : ({ h with tasks := h.tasks.eraseIdx x }.failIncoming .callback).Sound ∧
        Emits h ({ h with tasks := h.tasks.eraseIdx x }.failIncoming .callback) := by
      refine ⟨⟨⟨hn.fragment, hn.window, hn.sequence, hn.incoming⟩, hn.lock,
        hn.left, hn.pending⟩, hm.trans_emits (SameSender.emits ?_)⟩
      refine ⟨⟨rfl, rfl, rfl, rfl, rfl, by simp [failIncoming, close], ?_⟩, rfl, rfl, rfl⟩
      intro e he
      simpa [failIncoming] using he
    cases o with
    | done =>
      obtain ⟨hs', hem⟩ := processSendQueue_emits hn .incomingQueue
      exact ⟨hs', hm.trans_emits hem⟩
    | disconnected => exact hf
    | failed => exact hf
  | sendQueueDone =>
    obtain ⟨hn, hm⟩ := sound_eraseIdx hs ht rfl
    obtain ⟨hs', hem⟩ := immediateAck_emits hn
    exact ⟨hs', hm.trans_emits hem⟩
  | writeFragment c i p =>
    obtain rfl := hd rfl
    obtain ⟨hl, hi, hu⟩ := idle_of_write hs ht rfl
    have hq : (if i then h.queuedOutgoingMatterMessages.tail
        else h.queuedOutgoingMatterMessages) = h.unsent := hu.symm
    simp only [resume, hq]
    refine (sendLoop_emits (h := { h with
        tasks := h.tasks.eraseIdx x
        ackReceiveTimer := true
        idleTimeout := h.idleTimeout || h.role == Role.central
        queuedOutgoingMatterMessages := h.unsent }) ?_ hl c).imp_right
      (SameSender.trans_emits ?_)
    · exact ⟨⟨hs.fragment, hs.window, hs.sequence, hs.incoming⟩, hi, hs.left⟩
    · exact ⟨⟨rfl, rfl, rfl, rfl, rfl, id, fun _ => .inl⟩, unsent_of_idle hi, rfl, rfl⟩
  | writeAck c p =>
    obtain rfl := hd rfl
    obtain ⟨hl, hi, hu⟩ := idle_of_write hs ht rfl
    have hq : h.unsent = h.queuedOutgoingMatterMessages := hu
    refine (processSendQueue_emits (Free.sound ?_ rfl) c).imp_right
      (SameSender.trans_emits ?_)
    · exact ⟨⟨hs.fragment, hs.window, hs.sequence, hs.incoming⟩, hi, hq ▸ hs.left⟩
    · exact ⟨⟨rfl, rfl, rfl, rfl, rfl, id, fun _ => .inl⟩,
        (unsent_of_idle hi).trans hq.symm, rfl, rfl⟩

theorem unsent_push (m : MessageReader) :
    { h with queuedOutgoingMatterMessages := h.queuedOutgoingMatterMessages ++ [m] }.unsent =
      h.unsent ++ [m] := by
  unfold unsent
  split_ifs with he
  · obtain ⟨first, rest, hq⟩ := exists_cons_of_ne_nil (hs.pending he)
    simp [hq]
  · rfl

end

end Emits

end BtpSessionHandler

end MatterJs.Btp
