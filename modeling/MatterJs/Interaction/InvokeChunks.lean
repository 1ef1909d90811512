import MatterJs.Tlv.ByteLength

/-!
# The messages of an invoke response

`handleInvokeRequest` puts the results of a unicast invoke into messages. What fits a message is
reckoned without the field `moreChunkedMessages`, which all messages but the last are sent with.
-/
namespace MatterJs.Interaction

open Tlv AnySchema List Bool

/-- What `TlvInvokeResponseData.encodeTlv` makes of a result. -/
structure InvokeResponseData where
  /-- Its kind is `cmd-response`. -/
  isCommand : Bool
  encoded : TlvStream
  byteLength : Nat
  measured : getEncodedByteLength encoded = .ok byteLength

structure InvokeResponseForSend where
  invokeResponses : List InvokeResponseData
  moreChunkedMessages : Bool

def emptyInvokeResponseLength : Nat := 10

namespace InvokeResponseForSend

/-- What `TlvInvokeResponseForSend` encodes. -/
def elements (interactionModelRevision : Nat) (m : InvokeResponseForSend) : TlvStream :=
  [⟨none, .struct, none⟩, ⟨some ⟨none, some 0⟩, .boolean false, some (.boolean false)⟩,
    ⟨some ⟨none, some 1⟩, .array, none⟩] ++ m.invokeResponses.flatMap InvokeResponseData.encoded ++
  [⟨none, .endOfContainer, none⟩] ++
  (if m.moreChunkedMessages then [⟨some ⟨none, some 2⟩, .boolean true, some (.boolean true)⟩]
    else []) ++
  [⟨some ⟨none, some 0xff⟩, .unsignedInt .oneByte, some (.int interactionModelRevision)⟩,
    ⟨none, .endOfContainer, none⟩]

def byteLength (m : InvokeResponseForSend) : Nat :=
  emptyInvokeResponseLength + (m.invokeResponses.map InvokeResponseData.byteLength).sum +
    if m.moreChunkedMessages then 2 else 0

theorem measured_append {s t : TlvStream} {m n : Nat} (hs : getEncodedByteLength s = .ok m)
    (ht : getEncodedByteLength t = .ok n) : getEncodedByteLength (s ++ t) = .ok (m + n) := by
  have hb := byteLength_from t m
  rw [ht] at hb
  rw [getEncodedByteLength, foldlM_append]
  rw [getEncodedByteLength] at hs
  rw [hs]
  exact hb

theorem measured_elements (m : InvokeResponseForSend) (v : Nat) :
    getEncodedByteLength (m.elements v) = .ok m.byteLength := by
  have hr : ∀ rs : List InvokeResponseData, getEncodedByteLength (rs.flatMap (·.encoded)) =
      .ok (rs.map InvokeResponseData.byteLength).sum := by
    intro rs
    induction rs with
    | nil => rfl
    | cons r rs ih => exact measured_append r.measured ih
  have hm : getEncodedByteLength (if m.moreChunkedMessages then
      [⟨some ⟨none, some 2⟩, .boolean true, some (.boolean true)⟩] else []) =
      .ok (if m.moreChunkedMessages then 2 else 0) := by
    split_ifs <;> rfl
  refine Eq.trans (measured_append (measured_append (measured_append (measured_append (m := 5) rfl
    (hr _)) (n := 1) rfl) hm) (n := 4) rfl) (congrArg Except.ok ?_)
  unfold byteLength emptyInvokeResponseLength
  omega

end InvokeResponseForSend

structure InvokeResponder where
  currentChunkResponses : List InvokeResponseData := []
  messageSize : Nat := emptyInvokeResponseLength
  chunkedTransmissionTerminated : Bool := false
  suppressedBuffer : Option (List InvokeResponseData) := none
  /-- The loop is at a chunk that it only consumes. -/
  skipped : Bool := false
  /-- The messages handed to the messenger. -/
  sent : List InvokeResponseForSend := []

inductive ResultEvent
  | nextChunk
  | data (responseData : InvokeResponseData)

namespace InvokeResponder

-- `acknowledged` tells for each message but the last whether the client answers with success.
variable (maxPayloadSize : Nat) (acknowledged : Nat → Bool) (s : InvokeResponder)

def sendChunkIfNeeded (invokeResponse : InvokeResponseData) : InvokeResponder :=
  if s.messageSize + invokeResponse.byteLength > maxPayloadSize ∧ s.currentChunkResponses ≠ [] then
    let sent := s.sent ++ [⟨s.currentChunkResponses, true⟩]
    if acknowledged s.sent.length then { s with
      currentChunkResponses := [invokeResponse]
      messageSize := emptyInvokeResponseLength + invokeResponse.byteLength
      sent }
    else { s with chunkedTransmissionTerminated := true, sent }
  else { s with
    currentChunkResponses := s.currentChunkResponses ++ [invokeResponse]
    messageSize := s.messageSize + invokeResponse.byteLength }

def step : ResultEvent → InvokeResponder
  | .nextChunk => { s with skipped := s.chunkedTransmissionTerminated }
  | .data responseData =>
    if s.skipped then s
    else match s.suppressedBuffer with
    | none => s.sendChunkIfNeeded maxPayloadSize acknowledged responseData
    | some held =>
      if responseData.isCommand then
        (held ++ [responseData]).foldl (sendChunkIfNeeded maxPayloadSize acknowledged)
          { s with suppressedBuffer := none }
      else { s with suppressedBuffer := some (held ++ [responseData]) }

def finish : InvokeResponder :=
  if s.suppressedBuffer.isSome || s.chunkedTransmissionTerminated then s
  else { s with sent := s.sent ++ [⟨s.currentChunkResponses, false⟩] }

def events (results : List (List InvokeResponseData)) : List ResultEvent :=
  results.flatMap (fun chunk => .nextChunk :: chunk.map .data)

/-- The messages for the results of an invoke. -/
def respond (suppressResponse : Bool) (results : List (List InvokeResponseData)) :
    List InvokeResponseForSend :=
  ((events results).foldl (step maxPayloadSize acknowledged)
    { suppressedBuffer := if suppressResponse then some [] else none }).finish.sent

/-- A message that has to go out has room for `moreChunkedMessages`, and the series goes on. -/
def orderly : ResultEvent → Bool
  | .nextChunk => true
  | .data r => s.skipped || s.messageSize + r.byteLength ≤ maxPayloadSize ||
    s.currentChunkResponses.isEmpty ||
    (s.messageSize + 2 ≤ maxPayloadSize && !s.chunkedTransmissionTerminated)

def orderlyRun (s : InvokeResponder) : List ResultEvent → Bool
  | [] => true
  | e :: es => s.orderly maxPayloadSize e && orderlyRun (s.step maxPayloadSize acknowledged e) es

open InvokeResponseForSend

variable {mx : Nat} {a : Nat → Bool} {s} {r : InvokeResponseData}
  {l : List InvokeResponseData} {e : ResultEvent} {es : List ResultEvent}

/-! ### What goes wrong stays wrong -/

variable (mx a) in
def Fails (sent : List InvokeResponseForSend) : Prop :=
  (∃ m ∈ sent, mx < m.byteLength) ∨ ∃ n, n + 1 < sent.length ∧ a n = false

theorem Fails.mono {ms ms' : List InvokeResponseForSend} (hp : ms <+: ms') (h : Fails mx a ms) :
    Fails mx a ms' := by
  obtain ⟨m, hm, hl⟩ | ⟨n, hn, ha⟩ := h
  · exact .inl ⟨m, hp.subset hm, hl⟩
  · exact .inr ⟨n, Nat.lt_of_lt_of_le hn hp.length_le, ha⟩

theorem prefix_send : s.sent <+: (s.sendChunkIfNeeded mx a r).sent := by
  unfold sendChunkIfNeeded
  split_ifs
  · exact prefix_append ..
  · exact prefix_append ..
  · exact prefix_refl _

theorem prefix_foldl {α : Type} {f : InvokeResponder → α → InvokeResponder}
    (hf : ∀ s a, s.sent <+: (f s a).sent) (as : List α) : s.sent <+: (as.foldl f s).sent := by
  induction as generalizing s with
  | nil => exact prefix_refl _
  | cons a as ih => exact (hf s a).trans ih

theorem prefix_step : s.sent <+: (s.step mx a e).sent := by
  cases e with
  | nextChunk => exact prefix_refl _
  | data r =>
    simp only [step]
    split
    · exact prefix_refl _
    · split
      · exact prefix_send
      · split
        · exact prefix_foldl (s := { s with suppressedBuffer := none }) (fun _ _ => prefix_send) _
        · exact prefix_refl _

theorem prefix_finish : s.sent <+: s.finish.sent := by
  unfold finish
  split_ifs
  · exact prefix_refl _
  · exact prefix_append ..

/-! ### What an orderly run leaves -/

variable (mx a) in
/-- After the results `l`. -/
structure Sound (l : List InvokeResponseData) (s : InvokeResponder) : Prop where
  buffer : s.suppressedBuffer = none
  size : s.messageSize = (InvokeResponseForSend.mk s.currentChunkResponses false).byteLength
  sizes : ∀ m ∈ s.sent, m.byteLength ≤ mx
  room : s.chunkedTransmissionTerminated = false → s.currentChunkResponses = [] ∨ s.messageSize ≤ mx
  answered : ∀ n < s.sent.length, a n ∨ s.chunkedTransmissionTerminated ∧ n + 1 = s.sent.length
  ended : s.chunkedTransmissionTerminated → ∃ n < s.sent.length, a n = false
  skips : s.skipped → s.chunkedTransmissionTerminated
  complete : s.chunkedTransmissionTerminated = false →
    s.sent.flatMap (·.invokeResponses) ++ s.currentChunkResponses = l

section
variable (h : Sound mx a l s)
include h

theorem Sound.send (hk : s.skipped = false) (hr : emptyInvokeResponseLength + 2 + r.byteLength ≤ mx)
    (ho : s.orderly mx (.data r)) : Sound mx a (l ++ [r]) (s.sendChunkIfNeeded mx a r) := by
  have hs := h.size
  have hc := h.complete
  simp only [byteLength] at hs
  simp only [orderly, hk] at ho
  unfold sendChunkIfNeeded
  by_cases hn : s.messageSize + r.byteLength > mx ∧ s.currentChunkResponses ≠ []
  · rw [if_pos hn]
    obtain ⟨hf, ht⟩ : s.messageSize + 2 ≤ mx ∧ s.chunkedTransmissionTerminated = false := by grind
    have hi : ∀ m ∈ s.sent ++ [⟨s.currentChunkResponses, true⟩], m.byteLength ≤ mx := by
      refine forall_mem_append.mpr ⟨h.sizes, forall_mem_singleton.mpr ?_⟩
      simp only [byteLength]
      grind
    have hl : ∀ n < s.sent.length, a n := by grind [h.answered]
    split_ifs with ha
    · refine ⟨h.buffer, by simp [byteLength], hi,
        fun _ => .inr (by dsimp only; omega), ?_, ?_, h.skips, fun _ => ?_⟩
      · grind
      · simp [ht]
      · simp [← hc ht]
    · refine ⟨h.buffer, h.size, hi, nofun, ?_, fun _ => ⟨_, ?_, eq_false_of_ne_true ha⟩,
        fun _ => rfl, nofun⟩
      · grind
      · simp
  · rw [if_neg hn]
    refine { h with size := ?_, room := fun ht => .inr ?_, complete := fun ht => ?_ }
    · simp [byteLength, hs, Nat.add_assoc]
    · have := h.room ht
      grind
    · rw [← hc ht, append_assoc]

theorem Sound.step_data (hk : s.skipped = false) :
    s.step mx a (.data r) = s.sendChunkIfNeeded mx a r := by
  simp [step, hk, h.buffer]

theorem Sound.data (hr : emptyInvokeResponseLength + 2 + r.byteLength ≤ mx)
    (ho : s.orderly mx (.data r)) : Sound mx a (l ++ [r]) (s.step mx a (.data r)) := by
  cases hk : s.skipped with
  | false => exact h.step_data hk ▸ h.send hk hr ho
  | true =>
    have ht := h.skips hk
    rw [show s.step mx a (.data r) = s by simp [step, hk]]
    exact { h with complete := by simp [ht] }

theorem fails_data (ho : s.orderly mx (.data r) = false) :
    Fails mx a (s.step mx a (.data r)).sent := by
  have hs := h.size
  simp only [byteLength] at hs
  simp only [orderly, or_eq_false_iff, and_eq_false_iff, decide_eq_false_iff_not,
    not_eq_false'] at ho
  obtain ⟨⟨⟨hk, hl⟩, hn⟩, ho⟩ := ho
  have he : (s.step mx a (.data r)).sent = s.sent ++ [⟨s.currentChunkResponses, true⟩] := by
    rw [h.step_data hk, sendChunkIfNeeded, if_pos ⟨Nat.lt_of_not_le hl, by simpa using hn⟩]
    split_ifs <;> rfl
  rw [he]
  obtain ho | ho := ho
  · refine .inl ⟨_, mem_append_right _ mem_cons_self, ?_⟩
    simp only [byteLength]
    grind
  · obtain ⟨n, hn, ha⟩ := h.ended ho
    exact .inr ⟨n, by simpa using hn, ha⟩

end

/-- The results that a loop has taken. -/
def taken (es : List ResultEvent) : List InvokeResponseData :=
  es.filterMap fun
    | .nextChunk => none
    | .data r => some r

theorem run_cases (h : Sound mx a l s)
    (hf : ∀ r ∈ taken es, emptyInvokeResponseLength + 2 + r.byteLength ≤ mx) :
    s.orderlyRun mx a es ∧ Sound mx a (l ++ taken es) (es.foldl (step mx a) s) ∨
      s.orderlyRun mx a es = false ∧ Fails mx a (es.foldl (step mx a) s).sent := by
  induction es generalizing s l with
  | nil => exact .inl ⟨rfl, by simpa [taken] using h⟩
  | cons e es ih =>
    cases e with
    | nextChunk =>
      exact ih { h with skips := id } hf
    | data r =>
      obtain ⟨hr, hf⟩ := forall_mem_cons.mp hf
      rw [show taken (.data r :: es) = r :: taken es from rfl, append_cons, foldl_cons, orderlyRun]
      cases ho : s.orderly mx (.data r) with
      | true => exact ih (h.data hr ho) hf
      | false => exact .inr ⟨rfl, (fails_data h ho).mono (prefix_foldl (fun _ _ => prefix_step) _)⟩

theorem taken_events (re : List (List InvokeResponseData)) : taken (events re) = re.flatten := by
  have h : ∀ c, taken (.nextChunk :: c.map .data) = c := fun c => by simp [taken]
  simp only [events, taken, filterMap_flatMap] at h ⊢
  simp only [h, flatten_eq_flatMap]
  rfl

theorem Sound.faithful (h : Sound mx a l s) (hm : emptyInvokeResponseLength ≤ mx) :
    (∀ m ∈ s.finish.sent, m.byteLength ≤ mx) ∧ ((∀ n, a n) →
    s.finish.sent.flatMap (·.invokeResponses) = l) ∧ ∀ n, n + 1 < s.finish.sent.length → a n := by
  have hs := h.size
  rw [finish, h.buffer]
  cases ht : s.chunkedTransmissionTerminated with
  | true =>
    refine ⟨h.sizes, fun ha => ?_, ?_⟩
    · obtain ⟨n, -, hn⟩ := h.ended ht
      cases (ha n).symm.trans hn
    · grind [h.answered]
  | false =>
    refine ⟨forall_mem_append.mpr ⟨h.sizes, forall_mem_singleton.mpr ?_⟩, fun _ => ?_, ?_⟩
    · obtain hc | hc := h.room ht
      · simpa [hc, byteLength] using hm
      · exact hs ▸ hc
    · simpa using h.complete ht
    · grind [h.answered]

theorem Sound.exists_sent (h : Sound mx a l s) : ∃ m, m ∈ s.finish.sent := by
  rw [finish, h.buffer]
  cases ht : s.chunkedTransmissionTerminated with
  | true =>
    obtain ⟨n, hn, -⟩ := h.ended ht
    exact ⟨_, getElem_mem hn⟩
  | false => exact ⟨_, mem_append_right _ mem_cons_self⟩

/-- The responses are chunked faithfully exactly if every message that has to go out before the last
one has room for `moreChunkedMessages` and is not sent after the client has ended the series. An
empty response has to fit as well. -/
theorem invoke_responses_are_chunked (maxPayloadSize interactionModelRevision : Nat)
    (acknowledged : Nat → Bool) (results : List (List InvokeResponseData))
    (hfit : ∀ response ∈ results.flatten, ∀ length,
      getEncodedByteLength ((InvokeResponseForSend.mk [response] true).elements
        interactionModelRevision) = .ok length → length ≤ maxPayloadSize) :
    ((∀ message ∈ respond maxPayloadSize acknowledged false results, ∀ length,
        getEncodedByteLength (message.elements interactionModelRevision) = .ok length →
          length ≤ maxPayloadSize) ∧
      ((∀ n, acknowledged n = true) → (respond maxPayloadSize acknowledged false results).flatMap
        invokeResponses = results.flatten) ∧
      (∀ n, n + 1 < (respond maxPayloadSize acknowledged false results).length →
        acknowledged n = true)) ↔
      orderlyRun maxPayloadSize acknowledged {} (events results) = true ∧
        emptyInvokeResponseLength ≤ maxPayloadSize := by
  simp only [measured_elements, Except.ok.injEq, forall_eq'] at hfit ⊢
  have he : Sound maxPayloadSize acknowledged [] {} :=
    ⟨rfl, rfl, nofun, fun _ => .inl rfl, nofun, nofun, nofun, fun _ => rfl⟩
  have hr : ∀ r ∈ taken (events results),
      emptyInvokeResponseLength + 2 + r.byteLength ≤ maxPayloadSize := by
    rw [taken_events]
    intro r hm
    have := hfit r hm
    simp only [byteLength, map_singleton, sum_singleton, if_true] at this
    omega
  obtain ⟨ho, hs⟩ | ⟨ho, hf⟩ := run_cases he hr
  · rw [taken_events] at hs
    rw [ho]
    refine ⟨fun h => ⟨rfl, ?_⟩, fun h => hs.faithful h.2⟩
    obtain ⟨m, hm⟩ := hs.exists_sent
    have := h.1 m hm
    unfold byteLength at this
    omega
  · rw [ho]
    refine ⟨fun h => ?_, fun h => nomatch h.1⟩
    obtain ⟨m, hm, hl⟩ | ⟨n, hn, ha⟩ := hf.mono prefix_finish
    · exact absurd (h.1 m hm) (Nat.not_le_of_lt hl)
    · cases ha.symm.trans (h.2.2 n hn)

/-- A response of ten bytes. -/
def tenBytes : InvokeResponseData :=
  ⟨true, [⟨none, .struct, none⟩, ⟨some ⟨none, some 0⟩, .byteString .oneByte,
    some (.bytes [1, 2, 3, 4, 5])⟩, ⟨none, .endOfContainer, none⟩], 10, rfl⟩

theorem invoke_responses_are_chunked_three :
    (respond 32 (fun _ => true) false [[tenBytes, tenBytes, tenBytes]]).flatMap
      invokeResponses = [tenBytes, tenBytes, tenBytes] :=
  ((invoke_responses_are_chunked 32 12 (fun _ => true) [[tenBytes, tenBytes, tenBytes]] (by
    simp [measured_elements]
    decide)).mpr ⟨by decide, by decide⟩).2.1 fun _ => rfl

/-- The first message is two bytes longer than the 30 that are allowed. In the second case a message
is sent again after the client has ended the series. -/
theorem chunk_too_long_and_resent :
    (respond 30 (fun _ => true) false [[tenBytes, tenBytes, tenBytes]]).map byteLength = [32, 20] ∧
      (respond 22 (fun _ => false) false [[tenBytes, tenBytes, tenBytes]]).map byteLength =
        [22, 22] := by
  decide

end InvokeResponder

end MatterJs.Interaction
