import MatterJs.Foundation.Framing

/-! The TCP channel with Matter message framing. A call of `close` sets `#closed` before its first
`await`; the close listeners and the socket are left out. -/
namespace MatterJs.Tcp

open Framing List

def FRAMING_HEADER_SIZE : Nat := 4
def MAX_RECEIVE_BUFFER_FACTOR : Nat := 2

/-- The accumulated chunks not yet consumed, with the count of their bytes. -/
structure ReceiveBuffer where
  receiveChunks : List (List UInt8) := []
  receiveLength : Nat := 0
  length_eq : receiveLength = receiveChunks.flatten.length := by rfl

namespace ReceiveBuffer

def push (b : ReceiveBuffer) (chunk : List UInt8) : ReceiveBuffer where
  receiveChunks := b.receiveChunks ++ [chunk]
  receiveLength := b.receiveLength + chunk.length
  length_eq := by simp [b.length_eq]

def flatten (b : ReceiveBuffer) : List UInt8 × ReceiveBuffer :=
  match b.receiveChunks with
  | [chunk] => (chunk, b)
  | chunks => (chunks.flatten, ⟨[b.receiveChunks.flatten], b.receiveLength, by simp [b.length_eq]⟩)

/-- Advance past the first `count` bytes of the collapsed buffer. -/
def consume (flat : List UInt8) (count : Nat) : ReceiveBuffer :=
  if flat.length > count then ⟨[flat.drop count], flat.length - count, by simp⟩ else {}

end ReceiveBuffer

inductive SendError
  | closed
  | network (size : Nat) (limit : Int)

def SendError.message : SendError → String
  | .closed => "Connection is closed"
  | .network size limit => s!"Message size {size} exceeds TCP limit of {limit}"

structure TcpChannel where
  maxPayloadSize : Nat
  buffer : ReceiveBuffer := {}
  messageListeners : Nat := 0
  iteratorQueue : List (List UInt8) := []
  iteratorWaiter : Bool := false
  iteratorDone : Bool := false
  closed : Bool := false
  /-- What the listeners, a waiting `next` or the iterator's queue were given, in this order. -/
  delivered : List (List UInt8) := []

namespace TcpChannel

variable {c : TcpChannel}

section

variable (c)

def maxReceiveBufferSize : Nat := c.maxPayloadSize * MAX_RECEIVE_BUFFER_FACTOR

def maxMessageSize : Int := c.maxPayloadSize - FRAMING_HEADER_SIZE

variable (message : List UInt8)

/-- The frame that `send` hands to the socket. -/
def send : Except SendError (List UInt8) :=
  if c.closed then .error .closed
  else if (message.length : Int) > c.maxMessageSize then
    .error (.network message.length c.maxMessageSize)
  else .ok (frame FRAMING_HEADER_SIZE message)

def close : TcpChannel :=
  if c.closed then c
  else { c with
    closed := true
    iteratorDone := true
    iteratorWaiter := if c.iteratorDone then c.iteratorWaiter else false }

/-- The callback listeners get the message, the iterator only when there are none. -/
def deliver : TcpChannel :=
  if c.messageListeners ≠ 0 then { c with delivered := c.delivered ++ [message] }
  else if c.iteratorWaiter then
    { c with iteratorWaiter := false, delivered := c.delivered ++ [message] }
  else if !c.iteratorDone then
    { c with
      iteratorQueue := c.iteratorQueue ++ [message]
      delivered := c.delivered ++ [message] }
  else c

end

/-- The passes of the loop, each of which consumes a frame. -/
def extractMessages : Nat → TcpChannel → TcpChannel
  | 0, c => c
  | fuel + 1, c =>
    if c.buffer.receiveLength < FRAMING_HEADER_SIZE then c
    else
      let (flat, buffer) := c.buffer.flatten
      let c := { c with buffer }
      let messageLength := header FRAMING_HEADER_SIZE flat
      if messageLength = 0 then c.close
      else if (messageLength : Int) > c.maxMessageSize then c.close
      else
        let totalNeeded := FRAMING_HEADER_SIZE + messageLength
        if c.buffer.receiveLength < totalNeeded then c
        else
          let message := (flat.take totalNeeded).drop FRAMING_HEADER_SIZE
          let c := { c with buffer := ReceiveBuffer.consume flat totalNeeded }
          extractMessages fuel (c.deliver message)

section

variable (c)

def handleData (chunk : List UInt8) : TcpChannel :=
  if c.closed then c
  else
    let c := { c with buffer := c.buffer.push chunk }
    if c.buffer.receiveLength > c.maxReceiveBufferSize then c.close
    else extractMessages (c.buffer.receiveLength + 1) c

def buffered : List UInt8 := c.buffer.receiveChunks.flatten

/-- The lengths that the receiver takes. -/
def Admits (length : Nat) : Prop := length ≠ 0 ∧ length ≤ c.maxMessageSize

/-- An open channel that has delivered the messages at the front of the stream it received. -/
structure Aligned (c : TcpChannel) (stream : List UInt8) : Prop where
  isOpen : c.closed = false
  iterating : c.iteratorDone = false
  accepted : ∀ m ∈ c.delivered, Accepted FRAMING_HEADER_SIZE c.Admits m
  stream_eq : stream = frames FRAMING_HEADER_SIZE c.delivered ++ c.buffered

/-- The stream has messages in front of a header that the receiver refuses. -/
def Malformed (stream : List UInt8) : Prop :=
  ∃ ds rest, stream = frames FRAMING_HEADER_SIZE ds ++ rest ∧
    (∀ d ∈ ds, Accepted FRAMING_HEADER_SIZE c.Admits d) ∧
    FRAMING_HEADER_SIZE ≤ rest.length ∧ ¬ c.Admits (header FRAMING_HEADER_SIZE rest)

theorem flatten_spec (b : ReceiveBuffer) : b.flatten.1 = b.receiveChunks.flatten ∧
    b.flatten.2.receiveChunks.flatten = b.receiveChunks.flatten := by
  unfold ReceiveBuffer.flatten
  split <;> simp_all

theorem flatten_consume (f : List UInt8) (count : Nat) :
    (ReceiveBuffer.consume f count).receiveChunks.flatten = f.drop count := by
  unfold ReceiveBuffer.consume
  split <;> simp_all

theorem receiveLength_eq : c.buffer.receiveLength = c.buffered.length :=
  c.buffer.length_eq

@[simp] theorem closed_close : c.close.closed := by
  unfold close
  split <;> simp_all

@[simp] theorem maxPayloadSize_close : c.close.maxPayloadSize = c.maxPayloadSize := by
  unfold close
  split <;> rfl

end

theorem deliver_spec (h : c.iteratorDone = false) (ma : List UInt8) : (c.deliver ma).delivered =
    c.delivered ++ [ma] ∧ (c.deliver ma).buffer = c.buffer ∧ (c.deliver ma).maxPayloadSize =
    c.maxPayloadSize ∧ (c.deliver ma).closed = c.closed ∧ (c.deliver ma).iteratorDone = false := by
  unfold deliver
  split_ifs <;> simp_all

theorem admits_congr {d : TcpChannel} (h : d.maxPayloadSize = c.maxPayloadSize) :
    d.Admits = c.Admits := by
  funext length
  simp [Admits, maxMessageSize, h]

variable {t : List UInt8} {e : List (List UInt8)}

/-- A complete frame at the front of the buffer moves to the delivered messages. -/
theorem Aligned.deliver {buffer : ReceiveBuffer} (h : c.Aligned t)
    (hl : FRAMING_HEADER_SIZE + header FRAMING_HEADER_SIZE c.buffered ≤ c.buffered.length)
    (ha : c.Admits (header FRAMING_HEADER_SIZE c.buffered)) (hb : buffer.receiveChunks.flatten =
      c.buffered.drop (FRAMING_HEADER_SIZE + header FRAMING_HEADER_SIZE c.buffered)) :
    let next := { c with buffer }.deliver ((c.buffered.take (FRAMING_HEADER_SIZE +
      header FRAMING_HEADER_SIZE c.buffered)).drop FRAMING_HEADER_SIZE)
    next.Aligned t ∧ next.maxPayloadSize = c.maxPayloadSize ∧ next.buffered =
      c.buffered.drop (FRAMING_HEADER_SIZE + header FRAMING_HEADER_SIZE c.buffered) := by
  set n := header FRAMING_HEADER_SIZE c.buffered with hn
  set ma := (c.buffered.take (FRAMING_HEADER_SIZE + n)).drop FRAMING_HEADER_SIZE
  have hs : ma.length = n := by simp [ma]; omega
  have hbn : n < 256 ^ FRAMING_HEADER_SIZE := by
    have := LittleEndian.decode_lt (c.buffered.take FRAMING_HEADER_SIZE)
    simpa [hn, header, show FRAMING_HEADER_SIZE ≤ c.buffered.length by omega] using this
  have hf : frame FRAMING_HEADER_SIZE ma = c.buffered.take (FRAMING_HEADER_SIZE + n) := by
    have hh : LittleEndian.encode FRAMING_HEADER_SIZE n = c.buffered.take FRAMING_HEADER_SIZE := by
      have := LittleEndian.encode_decode (c.buffered.take FRAMING_HEADER_SIZE)
      rwa [length_take_of_le (by omega)] at this
    rw [frame, hs, hh, ← take_append_drop FRAMING_HEADER_SIZE
      (c.buffered.take (FRAMING_HEADER_SIZE + n)), take_take]
    simp [ma]
  obtain ⟨hd, hu, hx, hc, hdn⟩ :=
    deliver_spec (c := { c with buffer }) h.iterating ma
  have hrs := (congrArg (List.flatten ∘ ReceiveBuffer.receiveChunks) hu).trans hb
  refine ⟨⟨hc.trans h.isOpen, hdn, ?_, ?_⟩, hx, hrs⟩
  · intro m hm
    rw [admits_congr hx]
    rw [hd, mem_append, mem_singleton] at hm
    rcases hm with hm | rfl
    · exact h.accepted m hm
    · exact ⟨hs ▸ ha, hs ▸ hbn⟩
  · rw [hd, show buffered _ = _ from hrs, frames_append, frames_cons, hf,
      frames_nil, append_nil, append_assoc, take_append_drop]
    exact h.stream_eq

/-- The loop ends behind the last complete frame, or closes the channel at a refused header. -/
theorem extractMessages_spec {f : Nat} (h : c.Aligned t) (hfu : c.buffered.length < f) :
    (extractMessages f c).maxPayloadSize = c.maxPayloadSize ∧ ((extractMessages f c).Aligned t ∧
          Incomplete FRAMING_HEADER_SIZE c.Admits (extractMessages f c).buffered ∨
        (extractMessages f c).closed ∧ c.Malformed t) := by
  induction f generalizing c with
  | zero => omega
  | succ f ih =>
    rw [extractMessages, receiveLength_eq]
    split_ifs with hs
    · exact ⟨rfl, .inl ⟨h, fun he => by omega⟩⟩
    have hsp := flatten_spec c.buffer
    generalize c.buffer.flatten = collapsed at hsp ⊢
    obtain ⟨l, b⟩ := collapsed
    obtain ⟨hf, hc⟩ := hsp
    obtain rfl : l = c.buffered := hf
    have he : b.receiveLength = c.buffered.length := by rw [b.length_eq, hc]; rfl
    dsimp only at hc ⊢
    split_ifs with hz hl hp
    · refine ⟨by simp, .inr ⟨by simp, _, _, h.stream_eq, h.accepted, not_lt.mp hs, ?_⟩⟩
      exact fun ha => ha.1 hz
    · refine ⟨by simp, .inr ⟨by simp, _, _, h.stream_eq, h.accepted, not_lt.mp hs, ?_⟩⟩
      exact fun ha => absurd ha.2 (not_le.mpr hl)
    · refine ⟨rfl, .inl ⟨⟨h.isOpen, h.iterating, h.accepted, ?_⟩, ?_⟩⟩
      · rw [buffered, hc]
        exact h.stream_eq
      · rw [buffered, hc]
        exact fun _ => ⟨⟨hz, not_lt.mp hl⟩, he ▸ hp⟩
    · rw [he] at hp
      have hb := flatten_consume c.buffered
        (FRAMING_HEADER_SIZE + header FRAMING_HEADER_SIZE c.buffered)
      obtain ⟨hn, hm, hu⟩ := h.deliver (not_lt.mp hp) ⟨hz, not_lt.mp hl⟩ hb
      obtain ⟨hm', hrs⟩ := ih hn (by rw [hu, length_drop]; omega)
      refine ⟨hm'.trans hm, ?_⟩
      rwa [Malformed, admits_congr hm] at hrs

theorem handleData_of_closed (h : c.closed) (ch : List UInt8) : c.handleData ch = c := if_pos h

theorem handleData_spec (h : c.Aligned t) (cu : List UInt8) : (c.handleData cu).maxPayloadSize =
    c.maxPayloadSize ∧ ((c.handleData cu).Aligned (t ++ cu) ∧
    c.buffered.length + cu.length ≤ c.maxReceiveBufferSize ∧
    Incomplete FRAMING_HEADER_SIZE c.Admits (c.handleData cu).buffered ∨ (c.handleData cu).closed ∧
    (c.maxReceiveBufferSize < c.buffered.length + cu.length ∨ c.Malformed (t ++ cu))) := by
  have hs : { c with buffer := c.buffer.push cu }.buffered = c.buffered ++ cu := by
    simp [buffered, ReceiveBuffer.push]
  have hn : { c with buffer := c.buffer.push cu }.Aligned (t ++ cu) :=
    ⟨h.isOpen, h.iterating, h.accepted, by rw [hs, h.stream_eq, append_assoc]⟩
  have hl : (c.buffer.push cu).receiveLength = c.buffered.length + cu.length := by
    rw [(c.buffer.push cu).length_eq, ← length_append, ← hs]
    rfl
  rw [handleData, if_neg (by simp [h.isOpen])]
  dsimp only
  split_ifs with hp
  · rw [hl] at hp
    exact ⟨by simp, .inr ⟨by simp, .inl hp⟩⟩
  · rw [hl] at hp ⊢
    obtain ⟨hx, hsp⟩ := extractMessages_spec hn
      (show _ < c.buffered.length + cu.length + 1 by rw [hs, length_append]; omega)
    refine ⟨hx, ?_⟩
    rcases hsp with ⟨ha, hi⟩ | ⟨hc, hm⟩
    · exact .inl ⟨ha, not_lt.mp hp, hi⟩
    · exact .inr ⟨hc, .inr hm⟩

/-- A channel after the chunks of a stream. -/
def handleAll (c : TcpChannel) (chunks : List (List UInt8)) : TcpChannel :=
  chunks.foldl handleData c

theorem handleAll_of_closed (h : c.closed) (s : List (List UInt8)) : c.handleAll s = c := by
  induction s with
  | nil => rfl
  | cons u s ih => rw [handleAll, foldl_cons, handleData_of_closed h]; exact ih

/-- Every stream, however it is cut, leaves less than one frame in the buffer of an open
channel. -/
theorem handleAll_aligned (h : c.Aligned t)
    (hs : Incomplete FRAMING_HEADER_SIZE c.Admits c.buffered) (s : List (List UInt8)) :
    (c.handleAll s).closed ∨ (c.handleAll s).Aligned (t ++ s.flatten) ∧
      (c.handleAll s).maxPayloadSize = c.maxPayloadSize ∧
      Incomplete FRAMING_HEADER_SIZE c.Admits (c.handleAll s).buffered := by
  induction s generalizing c t with
  | nil => exact .inr ⟨by simpa [handleAll] using h, rfl, hs⟩
  | cons u s ih =>
    obtain ⟨hm, ⟨ha, -, hi⟩ | ⟨hc, -⟩⟩ := handleData_spec h u
    · have hn := ih ha (admits_congr hm ▸ hi)
      rw [admits_congr hm, hm, append_assoc] at hn
      exact hn
    · exact .inl ((congrArg closed (handleAll_of_closed hc s)).trans hc)

/-- Each chunk fits into the buffer behind the pending bytes of the messages, of which `p` bytes
have arrived. -/
def fits (limit : Nat) (messages : List (List UInt8)) : Nat → List (List UInt8) → Bool
  | _, [] => true
  | p, chunk :: chunks =>
    decide (pending FRAMING_HEADER_SIZE messages p + chunk.length ≤ limit) &&
      fits limit messages (p + chunk.length) chunks

/-- The frames of acceptable messages hold no refused header. -/
theorem not_malformed (he : ∀ m ∈ e, Accepted FRAMING_HEADER_SIZE c.Admits m)
    (h : t <+: frames FRAMING_HEADER_SIZE e) : ¬ c.Malformed t := by
  rintro ⟨d, rest, rfl, hd, hl, hr⟩
  obtain ⟨ms, rfl, hrs⟩ := frames_prefix he hd (by decide) h
  have hs : ∀ m ∈ ms, Accepted FRAMING_HEADER_SIZE c.Admits m :=
    fun m hm => he m (mem_append_right d hm)
  obtain ⟨m, ms, rfl, hh⟩ := header_of_prefix hs (by decide) hrs hl
  exact hr (hh ▸ (hs m (by simp)).1)

/-- The frames of acceptable messages close the channel exactly if some chunk does not fit. -/
theorem handleAll_closed (h : c.Aligned t)
    (hrs : Incomplete FRAMING_HEADER_SIZE c.Admits c.buffered)
    (he : ∀ m ∈ e, Accepted FRAMING_HEADER_SIZE c.Admits m) (cn : List (List UInt8))
    (hs : t ++ cn.flatten <+: frames FRAMING_HEADER_SIZE e) :
    (c.handleAll cn).closed = !fits c.maxReceiveBufferSize e t.length cn := by
  induction cn generalizing c t with
  | nil => exact h.isOpen
  | cons u cn ih =>
    rw [flatten_cons, ← append_assoc] at hs
    have hp : t ++ u <+: frames FRAMING_HEADER_SIZE e :=
      (prefix_append _ _).trans hs
    -- what is buffered is what is pending of the messages
    have hpn : pending FRAMING_HEADER_SIZE e t.length = c.buffered.length := by
      have hf := (prefix_append t u).trans hp
      rw [h.stream_eq] at hf ⊢
      obtain ⟨ms, rfl, hms⟩ := frames_prefix he h.accepted (by decide) hf
      rw [length_append, pending_append]
      exact pending_of_incomplete (fun m hm => he m (mem_append_right _ hm))
        (by decide) hms hrs
    rw [fits, hpn]
    obtain ⟨hx, ⟨ha, hcap, hi⟩ | ⟨hl, hc⟩⟩ := handleData_spec h u
    · have hn := ih ha (admits_congr hx ▸ hi)
        (admits_congr hx ▸ he) hs
      rw [maxReceiveBufferSize, hx, length_append] at hn
      rw [decide_eq_true hcap, Bool.true_and]
      exact hn
    · have hcap := hc.resolve_right (not_malformed he hp)
      have ht := handleAll_of_closed hl cn
      simp only [not_le.mpr hcap]
      exact (congrArg closed ht).trans hl

/-- The messages of some frames are delivered, without a close, exactly if their lengths have 32
bits and every chunk fits. -/
theorem handleAll_delivers_iff {s : List (List UInt8)} (h : c.Aligned [])
    (hrs : Incomplete FRAMING_HEADER_SIZE c.Admits c.buffered) (ham : ∀ m ∈ e, c.Admits m.length)
    (hc : s.flatten = frames FRAMING_HEADER_SIZE e) :
    ((c.handleAll s).delivered = e ∧ (c.handleAll s).closed = false) ↔
      (∀ m ∈ e, m.length < 2 ^ 32) ∧ fits c.maxReceiveBufferSize e 0 s := by
  have he (hl : ∀ m ∈ e, m.length < 2 ^ 32) :=
    handleAll_closed h hrs (fun m hm => ⟨ham m hm, hl m hm⟩) s
      (by rw [nil_append, hc])
  have hp := handleAll_aligned h hrs s
  constructor
  · rintro ⟨hd, ho⟩
    obtain ⟨ha, -, -⟩ := hp.resolve_left (by simp [ho])
    -- a delivered message had its length in a header
    have hl : ∀ m ∈ e, m.length < 2 ^ 32 :=
      fun m hm => (ha.accepted m (hd ▸ hm)).2
    refine ⟨hl, ?_⟩
    simpa [ho] using (he hl).symm
  · rintro ⟨hl, hf⟩
    have ho : (c.handleAll s).closed = false := by simp [he hl, hf]
    obtain ⟨ha, hx, hi⟩ := hp.resolve_left (by simp [ho])
    have hs := ha.stream_eq
    rw [nil_append, hc] at hs
    refine ⟨?_, ho⟩
    exact frames_unique (fun m hm => ⟨ham m hm, hl m hm⟩)
      (admits_congr hx ▸ ha.accepted) (by decide) hi hs.symm

theorem send_all (h : c.closed = false) (hs : ∀ m ∈ e, (m.length : Int) ≤ c.maxMessageSize) :
    e.mapM c.send = .ok (e.map (frame FRAMING_HEADER_SIZE)) := by
  induction e with
  | nil => rfl
  | cons m e ih =>
    have hm : c.send m = .ok (frame FRAMING_HEADER_SIZE m) := by
      rw [send, if_neg (by simp [h]), if_neg (not_lt.mpr (hs m (by simp)))]
    rw [mapM_cons, hm, ih (fun m hm => hs m (by simp [hm]))]
    rfl

def opened (maxPayloadSize messageListeners : Nat) (iteratorWaiter : Bool) : TcpChannel :=
  { maxPayloadSize, messageListeners, iteratorWaiter }

/-- The peer delivers the messages and stays open exactly if every message has a 32-bit length and
no chunk, with the incomplete frame before it, is longer than twice the payload limit. Whatever the
bytes are, an open channel buffers a proper prefix of a frame, of an admitted length once the header
is there. -/
theorem messages_are_framed (maxPayloadSize listeners : Nat) (waiter : Bool) :
    (∀ (sender : TcpChannel) (messages : List (List UInt8)),
      sender.maxPayloadSize = maxPayloadSize → sender.closed = false →
      (∀ m ∈ messages, 1 ≤ m.length ∧ (m.length : Int) ≤ sender.maxMessageSize) →
      ∃ sent, messages.mapM sender.send = .ok sent ∧
        ∀ chunks : List (List UInt8), chunks.flatten = sent.flatten →
          let peer := (opened maxPayloadSize listeners waiter).handleAll chunks
          ((peer.delivered = messages ∧ peer.closed = false) ↔
            ((∀ m ∈ messages, m.length < 2 ^ 32) ∧
              fits (maxPayloadSize * MAX_RECEIVE_BUFFER_FACTOR) messages 0 chunks))) ∧
    ∀ chunks : List (List UInt8),
      let peer := (opened maxPayloadSize listeners waiter).handleAll chunks
      peer.closed ∨ ∃ message, message.length < 2 ^ 32 ∧
        (FRAMING_HEADER_SIZE ≤ peer.buffered.length → peer.Admits message.length) ∧
        peer.buffered.length < (frame FRAMING_HEADER_SIZE message).length ∧
        peer.buffered <+: frame FRAMING_HEADER_SIZE message := by
  have ho : (opened maxPayloadSize listeners waiter).Aligned [] :=
    ⟨rfl, rfl, by simp [opened], rfl⟩
  have he : Incomplete FRAMING_HEADER_SIZE (opened maxPayloadSize listeners waiter).Admits
      (opened maxPayloadSize listeners waiter).buffered :=
    fun hl => absurd hl (by simp [opened, buffered, FRAMING_HEADER_SIZE])
  refine ⟨?_, ?_⟩
  · intro sender messages ha hop hs
    refine ⟨_, send_all hop (fun m hm => (hs m hm).2), ?_⟩
    intro chunks hc
    refine handleAll_delivers_iff ho he ?_ hc
    intro m hm
    obtain ⟨hp, hle⟩ := hs m hm
    rw [maxMessageSize, ha] at hle
    exact ⟨by omega, hle⟩
  · intro chunks
    refine (handleAll_aligned ho he chunks).imp_right ?_
    rintro ⟨-, hx, hi⟩
    rw [admits_congr hx]
    exact incomplete_prefix hi

theorem messages_are_framed_across_chunks :
    let peer := (opened 8 1 false).handleAll [[1, 0], [0, 0, 7, 2, 0, 0, 0, 8], [9]]
    peer.delivered = [[7], [8, 9]] ∧ peer.closed = false := by
  obtain ⟨sent, hs, hp⟩ := (messages_are_framed 8 1 false).1 (opened 8 0 false)
    [[7], [8, 9]] rfl rfl (by decide)
  refine (hp [[1, 0], [0, 0, 7, 2, 0, 0, 0, 8], [9]] ?_).mpr ⟨by decide, by decide⟩
  cases hs
  rfl

/-- Three messages that arrive together close the channel before any is delivered. -/
theorem messages_in_one_chunk_close :
    ∃ sent, [[1, 2, 3, 4], [5, 6, 7, 8], [9, 10, 11, 12]].mapM (opened 8 1 false).send = .ok sent ∧
      ((opened 8 1 false).handleAll [sent.flatten]).closed = true ∧
      ((opened 8 1 false).handleAll [sent.flatten]).delivered = [] :=
  ⟨_, rfl, rfl, rfl⟩

/-- Whatever the bytes are, the messages delivered and the bytes buffered are together what an open
channel has received. -/
theorem received_bytes_kept (maxPayloadSize listeners : Nat) (waiter : Bool)
    (chunks : List (List UInt8)) :
    ((opened maxPayloadSize listeners waiter).handleAll chunks).closed ∨
      ((opened maxPayloadSize listeners waiter).handleAll chunks).Aligned chunks.flatten := by
  have ho : (opened maxPayloadSize listeners waiter).Aligned [] :=
    ⟨rfl, rfl, by simp [opened], rfl⟩
  refine (handleAll_aligned ho (fun hl => ?_) chunks).imp_right And.left
  exact absurd hl (by simp [opened, buffered, FRAMING_HEADER_SIZE])

end TcpChannel

end MatterJs.Tcp
