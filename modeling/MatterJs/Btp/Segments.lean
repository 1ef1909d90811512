import MatterJs.Btp.Window

/-!
# Segments of messages

What a packet carries of the messages that are left to send, and that the segments of a
message are put together to the message.
-/
namespace MatterJs.Btp

open BtpCodec List

namespace BtpSessionHandler

/-- What a packet carries of the messages left: nothing, a part of the first, or its rest. -/
inductive Carries (p : BtpPacket) : List MessageReader → List MessageReader → Prop
  | nothing (ms : List MessageReader) : p.header.isBeginningSegment = false →
      p.header.isContinuingSegment = false → p.header.isEndingSegment = false → Carries p ms ms
  | part (m : MessageReader) (n : Nat) (ms : List MessageReader) : 0 < n →
      m.offset + n < m.data.length → p.header.isBeginningSegment = (m.offset == 0) →
      p.header.isContinuingSegment = !(m.offset == 0) → p.header.isEndingSegment = false →
      (m.offset = 0 → p.payload.messageLength = some m.data.length) →
      p.payload.segmentPayload = (m.data.drop m.offset).take n →
      Carries p (m :: ms) (⟨m.data, m.offset + n⟩ :: ms)
  | rest (m : MessageReader) (ms : List MessageReader) : m.offset < m.data.length →
      p.header.isBeginningSegment = (m.offset == 0) →
      p.header.isContinuingSegment = !(m.offset == 0) → p.header.isEndingSegment →
      (m.offset = 0 → p.payload.messageLength = some m.data.length) →
      p.payload.segmentPayload = m.data.drop m.offset → Carries p (m :: ms) ms

theorem Carries.append {p : BtpPacket} {ms ms' : List MessageReader} (h : Carries p ms ms')
    (m : MessageReader) : Carries p (ms ++ [m]) (ms' ++ [m]) := by
  cases h with
  | nothing _ h1 h2 h3 => exact .nothing _ h1 h2 h3
  | part m' n ms h1 h2 h3 h4 h5 h6 h7 => exact .part m' n _ h1 h2 h3 h4 h5 h6 h7
  | rest m' _ h1 h2 h3 h4 h5 h6 => exact .rest m' _ h1 h2 h3 h4 h5 h6

/-- What a receiver has put together of the messages it was sent so far. -/
structure Inbox where
  length : Option Nat
  payload : Option (List UInt8)
  handed : List (List UInt8)

def inbox (h : BtpSessionHandler) : Inbox :=
  ⟨h.currentIncomingSegmentedMsgLength, h.currentIncomingSegmentedPayload, h.handed⟩

/-- The receiver has all that was asked for but the messages left, and of the first of these what
is read of it. -/
structure InSync (inbox : Inbox) (left : List MessageReader) (asked : List (List UInt8)) :
    Prop where
  asked : asked = inbox.handed ++ left.map MessageReader.data
  length : inbox.length = (left.head?.filter (·.offset ≠ 0)).map (·.data.length)
  payload : inbox.payload = (left.head?.filter (·.offset ≠ 0)).map (fun m => m.data.take m.offset)
  fresh : ∀ m ∈ left.tail, m.offset = 0

theorem InSync.append {i : Inbox} {left : List MessageReader} {asked : List (List UInt8)}
    (h : InSync i left asked) (data : List UInt8) :
    InSync i (left ++ [⟨data, 0⟩]) (asked ++ [data]) where
  asked := by simp [h.asked]
  length := by
    cases left with
    | nil => simpa [Option.filter] using h.length
    | cons m ms => simpa using h.length
  payload := by
    cases left with
    | nil => simpa [Option.filter] using h.payload
    | cons m ms => simpa using h.payload
  fresh := by
    cases left with
    | nil => simp
    | cons m ms =>
      intro m' hm'
      simp only [cons_append, tail_cons, mem_append, mem_singleton] at hm'
      rcases hm' with hm' | rfl
      · exact h.fresh m' hm'
      · rfl

variable {h : BtpSessionHandler} {p : BtpPacket} {left l' : List MessageReader}
  {a : List (List UInt8)}

/-- A segment is added to what was read of its message before. -/
theorem storeSegment_eq {m : MessageReader} {ms : List MessageReader} {n : Nat}
    (hy : InSync h.inbox (m :: ms) a) (hpos : 0 < n)
    (hle : m.offset + n ≤ m.data.length) (hb : p.header.isBeginningSegment = (m.offset == 0))
    (hc : p.header.isContinuingSegment = !(m.offset == 0))
    (hl : m.offset = 0 → p.payload.messageLength = some m.data.length)
    (hs : p.payload.segmentPayload = (m.data.drop m.offset).take n) :
    h.storeSegment p = .ok { h with
      currentIncomingSegmentedMsgLength := some m.data.length
      currentIncomingSegmentedPayload := some (m.data.take (m.offset + n)) } := by
  have hn : h.currentIncomingSegmentedMsgLength =
      ((some m).filter (·.offset ≠ 0)).map (·.data.length) := hy.length
  have hp : h.currentIncomingSegmentedPayload =
      ((some m).filter (·.offset ≠ 0)).map (fun m => m.data.take m.offset) :=
    hy.payload
  have hsz : p.payload.segmentPayload.length = n := by
    rw [hs, length_take, length_drop]
    omega
  unfold storeSegment
  by_cases hz : m.offset = 0
  · have hnn : h.currentIncomingSegmentedPayload = none := by simpa [Option.filter, hz] using hp
    simp [hb, hz, hnn, hl hz, hs]
  · have ho : h.currentIncomingSegmentedPayload = some (m.data.take m.offset) := by
      simpa [Option.filter, hz] using hp
    have hm : h.currentIncomingSegmentedMsgLength = some m.data.length := by
      simpa [Option.filter, hz] using hn
    have he : p.payload.segmentPayload.isEmpty = false := by
      rw [isEmpty_eq_false_iff, ← length_pos_iff]
      omega
    have hf : ¬ m.data.length < (m.data.take m.offset).length +
        p.payload.segmentPayload.length := by
      rw [hsz, length_take]
      omega
    have hz' : (m.offset == 0) = false := by simpa using hz
    rw [hs] at he hf
    simp only [hb, hc, hz', Bool.false_eq_true, if_false, Bool.not_false,
      Bool.true_or, if_true, ho, he, hm, Option.any_some, decide_eq_true_eq, hf, hs, take_add]

/-- The segment of a packet is put where it belongs. -/
theorem receive_segment (hy : InSync h.inbox left a) (hcr : Carries p left l') :
    ∃ h₁ length payload e, h.storeSegment p = .ok h₁ ∧
      h₁.completeMessage p = .ok ({ h with
        currentIncomingSegmentedMsgLength := length
        currentIncomingSegmentedPayload := payload }, e) ∧
      InSync ⟨length, payload, h.handed ++ e.toList⟩ l' a := by
  cases hcr with
  | nothing _ hb hc he =>
    refine ⟨h, h.currentIncomingSegmentedMsgLength, h.currentIncomingSegmentedPayload, none,
      ?_, ?_, ?_⟩
    · simp [storeSegment, hb, hc, he]
    · simp [completeMessage, he]
    · simpa [inbox] using hy
  | part m n ms hp hlt hb hc he hl hs =>
    have ht := storeSegment_eq hy hp hlt.le hb hc hl hs
    refine ⟨_, _, _, none, ht, by simp only [completeMessage, he]; rfl, ?_⟩
    exact {
      asked := by simpa [inbox] using hy.asked
      length := by simp [hp.ne']
      payload := by simp [Option.filter, hp.ne']
      fresh := hy.fresh }
  | rest m _ hlt hb hc he hl hs =>
    have hs' : p.payload.segmentPayload =
        (m.data.drop m.offset).take (m.data.length - m.offset) := by
      rw [hs, take_of_length_le (by simp)]
    have ht := storeSegment_eq hy (by omega) (by omega) hb hc hl hs'
    have ha : m.offset + (m.data.length - m.offset) = m.data.length := by omega
    rw [ha, take_length] at ht
    refine ⟨_, none, none, some m.data, ht, by simp [completeMessage, he], ?_⟩
    have hf : l'.head?.filter (·.offset ≠ 0) = none := by
      cases l' with
      | nil => rfl
      | cons m' ms => simp [hy.fresh m' mem_cons_self]
    exact {
      asked := by simpa [inbox] using hy.asked
      length := by rw [hf]; rfl
      payload := by rw [hf]; rfl
      fresh := fun m' hm' => hy.fresh m' (mem_of_mem_tail hm') }

end BtpSessionHandler

end MatterJs.Btp
