import MatterJs.Btp.SessionHandler
import MatterJs.Foundation.TransitionSystem

/-!
# The send window of a session

What a send can do to a session, and what holds of the window in every run of one session
against any peer.
-/
namespace MatterJs.Btp

open BtpCodec TransitionSystem

namespace BtpSessionHandler

variable {h h' : BtpSessionHandler} {c : Caller}

theorem modularDistance_eq (a b : Int) : modularDistance a b = (b - a) % 256 := by
  unfold modularDistance
  rw [Int.tmod_eq_emod_of_nonneg (by
    have := Int.lt_tmod_of_pos (b - a) (b := 256) (by decide); omega)]
  rw [Int.add_emod_right]
  rw [Int.tmod_def, Int.sub_mul_emod_self_left]

theorem modularDistance_nonneg (a b : Int) : 0 ≤ modularDistance a b := by
  rw [modularDistance_eq]
  omega

section Cases

section
variable (h)

/-- A stand-alone acknowledgement is sent, cannot be encoded, or is not sent. -/
theorem sendStandaloneAck_cases (c : Caller) :
    h.sendStandaloneAck c = h.returnTo c ∨
      (h.sendInProgress = false ∧ h.hasAckNumber ∧ h.canSend true ∧
        ((∃ e, encodeBtpPacket (ackPacket h.prevIncomingSequenceNumber h.nextSequenceNumber) =
            .error e ∧ h.sendStandaloneAck c = h.getNextSequenceNumber.throwTo c e) ∨
          ∃ bs, encodeBtpPacket (ackPacket h.prevIncomingSequenceNumber h.nextSequenceNumber) =
            .ok bs ∧ h.sendStandaloneAck c = (h.getNextSequenceNumber.setSendInProgress true).write
                (some h.prevIncomingSequenceNumber) bs
                (.writeAck c h.prevAckedSequenceNumber))) := by
  unfold sendStandaloneAck
  split_ifs with hl ha hs
  · exact .inl rfl
  · exact .inl rfl
  · exact .inl rfl
  · refine .inr ⟨by simpa using hl, by simpa [hasAckNumber] using ha, by simpa using hs, ?_⟩
    simp only
    split
    case h_1 e he => exact .inl ⟨e, he, rfl⟩
    case h_2 bs he => exact .inr ⟨bs, he, rfl⟩

/-- The loop of the queue sends a fragment, fails on one, or ends with an acknowledgement. -/
theorem sendLoop_cases (c : Caller) :
    h.sendLoop c = (h.setSendInProgress false).sendStandaloneAck c ∨
      ∃ m ms, h.queuedOutgoingMatterMessages = m :: ms ∧ h.canSend h.hasAckNumber ∧
        ((h.fragmentLength m < 0 ∧ ∃ e, h.sendLoop c = h.stopSendAckTimer.throwTo c e) ∨
          (∃ e, encodeBtpPacket (h.fragmentPacket m) = .error e ∧
            h.sendLoop c = (h.readFragment m ms).throwTo c e) ∨
          ∃ bs, encodeBtpPacket (h.fragmentPacket m) = .ok bs ∧
            h.sendLoop c = (h.readFragment m ms).write h.ackNumberToSend bs
              (.writeFragment c (h.fragmentPacket m).header.isEndingSegment
                h.prevAckedSequenceNumber)) := by
  unfold sendLoop
  split
  case h_1 => exact .inl rfl
  case h_2 m ms hq =>
    split_ifs with hs
    · exact .inl rfl
    · refine .inr ⟨m, ms, hq, by simpa using hs, ?_⟩
      simp only
      split_ifs with hl
      · exact .inl ⟨hl, _, rfl⟩
      · split
        case h_1 e he => exact .inr (.inl ⟨e, he, rfl⟩)
        case h_2 bs he => exact .inr (.inr ⟨bs, he, rfl⟩)

theorem processSendQueue_cases (c : Caller) : h.processSendQueue c =
    h.returnTo c ∨ (h.sendInProgress = false ∧ h.queuedOutgoingMatterMessages ≠ [] ∧
    h.processSendQueue c = (h.setSendInProgress true).sendLoop c) := by
  unfold processSendQueue
  split_ifs with hl hq
  · exact .inl rfl
  · exact .inl rfl
  · exact .inr ⟨by simpa using hl, by simpa using hq, rfl⟩

end

end Cases

section Sends

/-- The fields that say what was sent and acknowledged are the same. -/
structure SameWindow (h h' : BtpSessionHandler) : Prop where
  window : h'.clientWindowSize = h.clientWindowSize
  ack : h'.prevIncomingAckNumber = h.prevIncomingAckNumber
  sequence : h'.sequenceNumber = h.sequenceNumber
  written : h'.written = h.written

theorem sameWindow_returnTo (h : BtpSessionHandler) (c : Caller) : SameWindow h (h.returnTo c) := by
  cases c <;> exact ⟨rfl, rfl, rfl, rfl⟩

theorem sameWindow_throwTo (h : BtpSessionHandler) (c : Caller) (e : BtpError) :
    SameWindow h (h.throwTo c e) := by
  cases c <;> exact ⟨rfl, rfl, rfl, rfl⟩

theorem SameWindow.outstanding (s : SameWindow h h') : h'.outstanding = h.outstanding := by
  simp [BtpSessionHandler.outstanding, s.ack, s.sequence]

theorem SameWindow.canSend (s : SameWindow h h') (carriesAck : Bool) :
    h'.canSend carriesAck = h.canSend carriesAck := by
  simp [BtpSessionHandler.canSend, remoteWindowFreeSlots, s.outstanding, s.window]

/-- A session after a send: at most one number was taken and one packet written, and the window
had room for it. -/
structure Sends (h h' : BtpSessionHandler) : Prop where
  window : h'.clientWindowSize = h.clientWindowSize
  ack : h'.prevIncomingAckNumber = h.prevIncomingAckNumber
  sent : (h'.sequenceNumber = h.sequenceNumber ∧ h'.written = h.written) ∨
    ∃ packet : BtpPacket, h.canSend packet.header.hasAckNumber ∧
      h'.sequenceNumber = h.nextSequenceNumber ∧ (h'.written = h.written ∨
        ∃ bytes, encodeBtpPacket packet = .ok bytes ∧ h'.written = h.written ++ [bytes])

theorem SameWindow.sends (s : SameWindow h h') : Sends h h' :=
  ⟨s.window, s.ack, .inl ⟨s.sequence, s.written⟩⟩

variable {g : BtpSessionHandler}

theorem SameWindow.trans_sends (s : SameWindow h g)
    (ss : Sends g h') : Sends h h' where
  window := ss.window.trans s.window
  ack := ss.ack.trans s.ack
  sent := by
    have hn : g.nextSequenceNumber = h.nextSequenceNumber := by
      simp [nextSequenceNumber, s.sequence]
    simpa [s.sequence, s.written, s.canSend, hn] using ss.sent

theorem Sends.throwTo (s : Sends h g) (c : Caller) (e : BtpError) : Sends h (g.throwTo c e) := by
  have sa := sameWindow_throwTo g c e
  refine ⟨sa.window.trans s.window, sa.ack.trans s.ack, ?_⟩
  simpa [sa.sequence, sa.written] using s.sent

section
variable (h)

theorem sends_standaloneAck (c : Caller) :
    Sends h (h.sendStandaloneAck c) := by
  rcases sendStandaloneAck_cases h c with he | ⟨_, _, hs, ⟨e, _, he⟩ | ⟨bytes, hb, he⟩⟩
  · rw [he]
    exact (sameWindow_returnTo h c).sends
  · rw [he]
    refine Sends.throwTo ?_ c e
    exact ⟨rfl, rfl, .inr ⟨ackPacket 0 0, hs, rfl, .inl rfl⟩⟩
  · rw [he]
    exact ⟨rfl, rfl, .inr ⟨_, hs, rfl, .inr ⟨bytes, hb, rfl⟩⟩⟩

theorem sends_sendLoop (c : Caller) : Sends h (h.sendLoop c) := by
  rcases sendLoop_cases h c with he |
    ⟨m, ms, _, hs, ⟨_, e, he⟩ | ⟨e, _, he⟩ | ⟨bytes, hb, he⟩⟩
  · have sa : SameWindow h (h.setSendInProgress false) := ⟨rfl, rfl, rfl, rfl⟩
    rw [he]
    exact sa.trans_sends (sends_standaloneAck _ c)
  · rw [he]
    refine Sends.throwTo ?_ c e
    exact SameWindow.sends ⟨rfl, rfl, rfl, rfl⟩
  · rw [he]
    refine Sends.throwTo ?_ c e
    exact ⟨rfl, rfl, .inr ⟨h.fragmentPacket m, hs, rfl, .inl rfl⟩⟩
  · rw [he]
    exact ⟨rfl, rfl, .inr ⟨h.fragmentPacket m, hs, rfl, .inr ⟨bytes, hb, rfl⟩⟩⟩

theorem sends_processSendQueue (c : Caller) :
    Sends h (h.processSendQueue c) := by
  rcases processSendQueue_cases h c with he | ⟨_, _, he⟩
  · rw [he]
    exact (sameWindow_returnTo h c).sends
  · have sa : SameWindow h (h.setSendInProgress true) := ⟨rfl, rfl, rfl, rfl⟩
    rw [he]
    exact sa.trans_sends (sends_sendLoop _ c)

theorem sends_resume (task : Task) (o : Outcome) :
    Sends h (h.resume task o) := by
  cases task with
  | handlePayload =>
    cases o with
    | done => exact sends_processSendQueue h _
    | disconnected => exact (sameWindow_throwTo h .incomingQueue _).sends
    | failed => exact (sameWindow_throwTo h .incomingQueue _).sends
  | sendQueueDone =>
    simp only [resume, sendImmediateAckIfWindowLow]
    split_ifs
    · exact SameWindow.sends ⟨rfl, rfl, rfl, rfl⟩
    · exact SameWindow.sends ⟨rfl, rfl, rfl, rfl⟩
    · exact sends_standaloneAck h _
  | writeFragment c i p =>
    cases o with
    | done =>
      refine SameWindow.trans_sends ?_ (sends_sendLoop _ c)
      exact ⟨rfl, rfl, rfl, rfl⟩
    | disconnected =>
      refine SameWindow.trans_sends ?_ (sameWindow_returnTo _ c).sends
      exact ⟨rfl, rfl, rfl, rfl⟩
    | failed =>
      refine SameWindow.trans_sends ?_ (sameWindow_throwTo _ c _).sends
      exact ⟨rfl, rfl, rfl, rfl⟩
  | writeAck c p =>
    cases o with
    | done =>
      refine SameWindow.trans_sends ?_ (sends_processSendQueue _ c)
      exact ⟨rfl, rfl, rfl, rfl⟩
    | disconnected =>
      refine SameWindow.trans_sends ?_ (sameWindow_returnTo _ c).sends
      exact ⟨rfl, rfl, rfl, rfl⟩
    | failed =>
      refine SameWindow.trans_sends ?_ (sameWindow_throwTo _ c _).sends
      exact ⟨rfl, rfl, rfl, rfl⟩

end

end Sends

section Receive

/-- What is acknowledged after a packet is at most what was outstanding. -/
structure Acknowledges (h h' : BtpSessionHandler) : Prop where
  window : h'.clientWindowSize = h.clientWindowSize
  sequence : h'.sequenceNumber = h.sequenceNumber
  written : h'.written = h.written
  ack : h'.prevIncomingAckNumber = h.prevIncomingAckNumber ∨
    modularDistance h.prevIncomingAckNumber h'.prevIncomingAckNumber ≤ h.outstanding

theorem Acknowledges.outstanding_le (ha : Acknowledges h h') : h'.outstanding ≤ h.outstanding := by
  unfold BtpSessionHandler.outstanding at *
  rcases ha.ack with he | hl
  · rw [he, ha.sequence]
  · have := ha.sequence
    unfold BtpSessionHandler.outstanding at hl
    simp only [modularDistance_eq] at *
    omega

variable {p : BtpPacket} {ms : Option (List UInt8)}

theorem receiveAck_ok (ho : h.receiveAck p = .ok h') : Acknowledges h h' := by
  unfold receiveAck at ho
  split at ho
  case h_1 ackNumber _ _ =>
    split_ifs at ho with hl
    cases ho
    exact ⟨rfl, rfl, rfl, .inr (not_lt.mp hl)⟩
  case h_2 =>
    cases ho
    exact ⟨rfl, rfl, rfl, .inl rfl⟩

theorem storeSegment_ok (ho : h.storeSegment p = .ok h') : SameWindow h h' := by
  unfold storeSegment at ho
  cases hp : h.currentIncomingSegmentedPayload <;> simp only [hp] at ho <;>
    split_ifs at ho <;> cases ho <;> exact ⟨rfl, rfl, rfl, rfl⟩

theorem completeMessage_ok (ho : h.completeMessage p = .ok (h', ms)) : SameWindow h h' := by
  unfold completeMessage at ho
  split_ifs at ho
  · split at ho
    · split_ifs at ho
      cases ho
      exact ⟨rfl, rfl, rfl, rfl⟩
    · cases ho
  · cases ho
    exact ⟨rfl, rfl, rfl, rfl⟩

theorem receive_acknowledges (h : BtpSessionHandler) (data : List UInt8) :
    Acknowledges h (h.receive data).1 := by
  have refl : ∀ g : BtpSessionHandler, SameWindow h g → Acknowledges h g :=
    fun g s => ⟨s.window, s.sequence, s.written, .inl s.ack⟩
  unfold receive
  split
  case h_1 => exact refl h ⟨rfl, rfl, rfl, rfl⟩
  case h_2 p _ =>
    simp only
    split
    case h_1 => exact refl _ ⟨rfl, rfl, rfl, rfl⟩
    case h_2 g hg =>
      have ha : Acknowledges h g := by
        obtain ⟨h1, h2, h3, h4⟩ := receiveAck_ok hg
        exact ⟨h1, h2, h3, h4⟩
      have keep : ∀ g' : BtpSessionHandler, SameWindow g g' → Acknowledges h g' := by
        intro g' s
        exact ⟨s.window.trans ha.window, s.sequence.trans ha.sequence,
          s.written.trans ha.written, by rw [s.ack]; exact ha.ack⟩
      split
      case h_1 => exact ha
      case h_2 g' hg' =>
        split
        case h_1 => exact keep g' (storeSegment_ok hg')
        case h_2 g'' _ hg'' =>
          have first := storeSegment_ok hg'
          have second := completeMessage_ok hg''
          exact keep g'' ⟨second.window.trans first.window, second.ack.trans first.ack,
            second.sequence.trans first.sequence, second.written.trans first.written⟩

variable {data : List UInt8}

theorem checkPacket_ok (ho : h.checkPacket data = .ok p) : decodeBtpPacket data = .ok p ∧
      p.payload.sequenceNumber = (h.prevIncomingSequenceNumber + 1).tmod 256 := by
  unfold checkPacket at ho
  split_ifs at ho
  obtain ⟨d, hd, ho⟩ := Tlv.ok_of_bind ho
  split_ifs at ho with h1 h2 h3
  cases ho
  exact ⟨hd, not_not.mp h3⟩

/-- A packet that is accepted has no acknowledgement ahead of the last packet sent. -/
theorem receive_ok {a : Int} (ho : (h.receive data).2 = .ok ms) (hp : decodeBtpPacket data = .ok p)
    (ha : p.payload.ackNumber = some a) :
    modularDistance h.prevIncomingAckNumber a ≤ h.outstanding := by
  unfold receive at ho
  split at ho
  case h_1 => cases ho
  case h_2 checked hc =>
    obtain rfl : checked = p :=
      Except.ok.inj ((checkPacket_ok hc).1.symm.trans hp)
    have hf : checked.header.hasAckNumber := by
      rw [(decodeBtpPacket_ok hp).hasAck, ha]
      rfl
    by_contra hl
    have her : ∃ e, (h.receiveSequence checked).receiveAck checked = .error e := by
      unfold receiveAck
      rw [hf, ha]
      exact ⟨_, if_pos (not_le.mp hl)⟩
    obtain ⟨e, he⟩ := her
    simp [he] at ho

end Receive

section Run

/-- The first byte of a packet says that it carries an acknowledgement. -/
def carriesAck (bytes : List UInt8) : Bool :=
  bytes.head?.any (fun bits => (headerOfBits bits.toNat).hasAckNumber)

theorem carriesAck_encode {packet : BtpPacket} {bs : List UInt8}
    (he : encodeBtpPacket packet = .ok bs) : carriesAck bs = packet.header.hasAckNumber := by
  obtain ⟨header, hh, he⟩ := Tlv.ok_of_bind he
  obtain ⟨rest, -, he⟩ := Tlv.ok_of_bind he
  cases he
  rw [encodeBtpPacketHeader_ok hh]
  simp only [carriesAck, List.singleton_append, List.head?_cons, Option.any_some,
    headerOfBits_bitsOfHeader]

/-- The window had room for a number that is taken, and the last slot is left to a packet that
carries an acknowledgement. -/
theorem canSend_next {c : Bool} (hr : h.sequenceNumber ≤ 255) (hs : h.canSend c)
    (ha : h'.prevIncomingAckNumber = h.prevIncomingAckNumber)
    (hn : h'.sequenceNumber = h.nextSequenceNumber) : h'.outstanding ≤ h.clientWindowSize ∧
    h'.sequenceNumber ≤ 255 ∧ (h'.outstanding = h.clientWindowSize → c) := by
  have hfree : 0 < h.remoteWindowFreeSlots ∧ (h.remoteWindowFreeSlots ≤ 1 → c) := by
    unfold canSend at hs
    split_ifs at hs with hf hl
    refine ⟨not_le.mp hf, fun he => ?_⟩
    simpa [MatterBle.btpWindowNoAckSendThreshold, he] using hl
  have hd : h'.outstanding = (h.outstanding + 1) % 256 := by
    simp only [outstanding, modularDistance_eq, ha, hn, nextSequenceNumber]
    split_ifs <;> omega
  have hnn := modularDistance_nonneg h.prevIncomingAckNumber h.sequenceNumber
  unfold remoteWindowFreeSlots at hfree
  change 0 ≤ h.outstanding at hnn
  refine ⟨by omega, ?_, fun hf => hfree.2 (by omega)⟩
  rw [hn]
  unfold nextSequenceNumber
  split_ifs <;> omega

/-- The window of a session is not exceeded. -/
structure WithinWindow (h : BtpSessionHandler) : Prop where
  bound : h.outstanding ≤ h.clientWindowSize
  range : h.sequenceNumber ≤ 255

theorem Sends.withinWindow (s : Sends h h') (hw : h.WithinWindow) : h'.WithinWindow := by
  rcases s.sent with ⟨hs, -⟩ | ⟨p, hn, hx, -⟩
  · refine ⟨?_, by rw [hs]; exact hw.range⟩
    simpa [outstanding, s.window, s.ack, hs] using hw.bound
  · obtain ⟨hb, hr, -⟩ := canSend_next hw.range hn s.ack hx
    exact ⟨by rw [s.window]; exact hb, hr⟩

/-- A packet that fills the last slot carries an acknowledgement. -/
theorem Sends.carriesAck (s : Sends h h') (hw : h.WithinWindow) {bytes : List UInt8}
    (hwr : h'.written = h.written ++ [bytes]) (hf : h'.outstanding = h'.clientWindowSize) :
    BtpSessionHandler.carriesAck bytes := by
  have hn : h.written ≠ h.written ++ [bytes] := by simp
  rcases s.sent with ⟨-, hs⟩ | ⟨p, hsn, hx, hs | ⟨written, he, hq⟩⟩
  · exact absurd (hs.symm.trans hwr) hn
  · exact absurd (hs.symm.trans hwr) hn
  · obtain rfl : written = bytes := by
      simpa using hq.symm.trans hwr
    rw [carriesAck_encode he]
    exact (canSend_next hw.range hsn s.ack hx).2.2 (hf.trans (by rw [s.window]))

theorem Acknowledges.withinWindow (ha : Acknowledges h h') (hw : h.WithinWindow) :
    h'.WithinWindow := by
  refine ⟨?_, by rw [ha.sequence]; exact hw.range⟩
  rw [ha.window]
  exact ha.outstanding_le.trans hw.bound

/-- What one event does to the window: at most an acknowledgement, and then a send. -/
theorem step_window {e : Event} (ht : h.step e = some h') : ∃ g, Acknowledges h g ∧ Sends g h' := by
  have sa : ∀ {g}, SameWindow h g → Acknowledges h g :=
    fun s => ⟨s.window, s.sequence, s.written, .inl s.ack⟩
  have quiet : SameWindow h h' → ∃ g, Acknowledges h g ∧ Sends g h' :=
    fun s => ⟨h', sa s, SameWindow.sends ⟨rfl, rfl, rfl, rfl⟩⟩
  cases e with
  | send data =>
    cases ht
    unfold sendMatterMessage at quiet ⊢
    split_ifs at quiet ⊢
    · exact quiet ⟨rfl, rfl, rfl, rfl⟩
    · exact quiet ⟨rfl, rfl, rfl, rfl⟩
    · refine ⟨h, sa ⟨rfl, rfl, rfl, rfl⟩, SameWindow.trans_sends ?_ (sends_processSendQueue _ _)⟩
      exact ⟨rfl, rfl, rfl, rfl⟩
  | incoming data =>
    cases ht
    have ha := receive_acknowledges h data
    unfold handleIncomingBleData at quiet ⊢
    split_ifs at quiet ⊢
    · exact quiet ⟨rfl, rfl, rfl, rfl⟩
    · refine ⟨(h.receive data).1, ha, ?_⟩
      split
      case h_1 g e he =>
        rw [he]
        exact (sameWindow_throwTo g .incomingQueue e).sends
      case h_2 g payload he =>
        rw [he]
        exact SameWindow.sends ⟨rfl, rfl, rfl, rfl⟩
      case h_3 g he =>
        rw [he]
        exact sends_processSendQueue g _
  | settle index o =>
    obtain ⟨task, -, rfl⟩ := Option.map_eq_some_iff.mp ht
    refine ⟨h, sa ⟨rfl, rfl, rfl, rfl⟩, SameWindow.trans_sends ?_ (sends_resume _ task o)⟩
    exact ⟨rfl, rfl, rfl, rfl⟩
  | sendAckTimeout =>
    simp only [step] at ht
    split_ifs at ht <;> obtain rfl := Option.some.inj ht
    · refine ⟨h, sa ⟨rfl, rfl, rfl, rfl⟩, SameWindow.trans_sends ?_ (sends_standaloneAck _ _)⟩
      exact ⟨rfl, rfl, rfl, rfl⟩
    · exact quiet ⟨rfl, rfl, rfl, rfl⟩
  | ackTimeout =>
    simp only [step] at ht
    split_ifs at ht <;> obtain rfl := Option.some.inj ht <;> exact quiet ⟨rfl, rfl, rfl, rfl⟩
  | idleTimeout =>
    obtain ⟨-, rfl⟩ := of_enabled ht
    exact quiet ⟨rfl, rfl, rfl, rfl⟩
  | close =>
    cases ht
    exact quiet ⟨rfl, rfl, rfl, rfl⟩

/-- An incoming packet does not acknowledge again what is acknowledged. -/
def ackIsNew (h : BtpSessionHandler) : Event → Bool
  | .incoming data =>
    match decodeBtpPacket data with
    | .ok packet => packet.payload.ackNumber.all
        (fun ackNumber => modularDistance h.prevIncomingAckNumber ackNumber ≠ 0)
    | .error _ => true
  | _ => true

/-- The interval of what was sent and is not acknowledged. -/
def IsOutstanding (h : BtpSessionHandler) (ackNumber : Int) : Prop :=
  0 < modularDistance h.prevIncomingAckNumber ackNumber ∧
    modularDistance h.prevIncomingAckNumber ackNumber ≤ h.outstanding

instance (h : BtpSessionHandler) (ackNumber : Int) : Decidable (h.IsOutstanding ackNumber) :=
  inferInstanceAs (Decidable (_ ∧ _))

/-- What is claimed of the window in a state of a run: it is not exceeded, a packet that fills its
last slot carries an acknowledgement, and no packet is accepted that acknowledges what is not
outstanding. -/
structure WindowRespected (allowed : BtpSessionHandler → Event → Bool) (h : BtpSessionHandler) :
    Prop where
  bound : h.outstanding ≤ h.clientWindowSize
  lastSlot : ∀ e h' bytes, allowed h e → h.step e = some h' →
    h'.written = h.written ++ [bytes] → h'.outstanding = h'.clientWindowSize → carriesAck bytes
  accepted : ∀ data message packet ackNumber, allowed h (.incoming data) →
    (h.receive data).2 = .ok message → decodeBtpPacket data = .ok packet →
    packet.payload.ackNumber = some ackNumber → h.IsOutstanding ackNumber

/-- A session when its factory returns; that of a peripheral waits for the acknowledgement of its
response. -/
def start (role : Role) (fragmentSize clientWindowSize : Nat) : BtpSessionHandler :=
  { create role fragmentSize clientWindowSize with ackReceiveTimer := role == .peripheral }

theorem withinWindow_start {role : Role} {f c : Nat} (hw : role = .peripheral → 0 < c) :
    (start role f c).WithinWindow := by
  cases role with
  | central => exact ⟨by simp [start, create, outstanding, modularDistance_eq],
      by simp [start, create]⟩
  | peripheral =>
    have := hw rfl
    refine ⟨?_, by simp [start, create]⟩
    simp only [start, create, outstanding, modularDistance_eq]
    omega

theorem withinWindow_run {es : List Event} {G : BtpSessionHandler → Event → Prop}
    [∀ h e, Decidable (G h e)] (hu : Run (guarded step G) h es h') (hw : h.WithinWindow) :
    h'.WithinWindow := by
  refine run_invariant ?_ hu hw
  intro s e t ht hs
  obtain ⟨g, ha, hn⟩ := step_window (guarded_eq_some.mp ht).2
  exact hn.withinWindow (ha.withinWindow hs)

/-- In every run in which no packet acknowledges again what is acknowledged, the window is
respected. A peripheral needs a slot for its response to the handshake. -/
theorem window_respected {role : Role} {fragmentSize clientWindowSize : Nat} {es : List Event}
    (hwindow : role = .peripheral → 0 < clientWindowSize)
    (hrun : Run (guarded step (fun h e => ackIsNew h e = true))
      (start role fragmentSize clientWindowSize) es h) : WindowRespected ackIsNew h where
  bound := (withinWindow_run hrun (withinWindow_start hwindow)).bound
  lastSlot := by
    intro e h' bytes _ hs hwr hf
    have hw := withinWindow_run hrun (withinWindow_start hwindow)
    obtain ⟨g, ha, hsn⟩ := step_window hs
    exact hsn.carriesAck (ha.withinWindow hw) (by rw [ha.written]; exact hwr) hf
  accepted := by
    intro data m p n hn ho hp ha
    have he : modularDistance h.prevIncomingAckNumber n ≠ 0 := by
      simpa [ackIsNew, hp, ha] using hn
    have hnn := modularDistance_nonneg h.prevIncomingAckNumber n
    exact ⟨by omega, receive_ok ho hp ha⟩

theorem window_respected_acked :
    ∃ h, exec (guarded step (fun h e => ackIsNew h e = true)) (start .peripheral 20 4)
        [.incoming [8, 0, 0], .send [1, 2]] = some h ∧ WindowRespected ackIsNew h := by
  refine ⟨_, rfl, ?_⟩
  have hu : Run (guarded step (fun h e => ackIsNew h e)) (start .peripheral 20 4)
      [.incoming [8, 0, 0], .send [1, 2]] _ := run_of_exec rfl
  exact window_respected (fun _ => by decide) hu

/-- The response to the handshake is acknowledged twice, and the second time accepted while nothing
is outstanding. With a window of size zero the response itself exceeds the window. -/
theorem acknowledgedTwice_accepted :
    (∃ h, exec step (start .peripheral 20 4) [.incoming [8, 0, 0]] = some h ∧ h.outstanding = 0 ∧
      decodeBtpPacket [8, 0, 1] = .ok (ackPacket 0 1) ∧ (h.receive [8, 0, 1]).2 = .ok none ∧
      ¬ h.IsOutstanding 0) ∧
    (start .peripheral 20 0).clientWindowSize < (start .peripheral 20 0).outstanding :=
  ⟨⟨_, rfl, by decide, rfl, by decide, by decide⟩, by decide⟩

end Run

end BtpSessionHandler

end MatterJs.Btp
