import MatterJs.Interaction.AttributeValue
import MatterJs.Tlv.Element

/-!
# Lists in chunks

A list is sent as an empty array and an addition for each element. What the receiver puts together
depends neither on how the chunks are divided nor on the list that it had before.
-/
namespace MatterJs.Tlv

open List

def encodeAsChunkedArray (options : TlvEncodingOptions) (elementSchema : Schema)
    (minLength maxLength : Nat) (value : List Value) : Except TlvError (List ArrayChunk) := do
  let empty ← (Schema.array elementSchema minLength maxLength).encodeTlv (.array []) options
  let additions ← value.mapM (fun element => do
    let elementStream ← elementSchema.encodeTlv element options
    return (⟨some none, elementStream⟩ : ArrayChunk))
  return ⟨none, empty⟩ :: additions

section

variable (options : TlvDecodingOptions) (elementSchema : Schema) (minLength maxLength : Nat)

/-- Each batch is applied to the result of the one before. -/
def decodeBatches (currentValue : Option (List Value)) (batches : List (List ArrayChunk)) :
    Except TlvError (Option (List Value)) :=
  batches.foldlM (fun currentValue batch => some <$>
    decodeFromChunkedArray options elementSchema minLength maxLength batch currentValue)
    currentValue

/-- One pass of the loop in memory, on the array at a place: an array that is decoded is a new one,
and all else changes the array in place. -/
def applyChunkInPlace (memory : List (List Value) × Nat) (chunk : ArrayChunk) :
    Except TlvError (List (List Value) × Nat) := do
  let (arrays, current) := memory
  let value ← applyChunk options elementSchema minLength maxLength (arrays.getD current []) chunk
  return match chunk.listIndex with
    | none => (arrays ++ [value], arrays.length)
    | some _ => (arrays.set current value, current)

/-- `decodeFromChunkedArray` on the array at a place, of which the loop gets a copy. -/
def decodeInPlace (arrays : List (List Value)) (supplied : Nat) (chunks : List ArrayChunk) :
    Except TlvError (List (List Value) × Nat) :=
  chunks.foldlM (applyChunkInPlace options elementSchema minLength maxLength)
    (arrays ++ [arrays.getD supplied []], arrays.length)

end

variable {p : TlvDecodingOptions} {o : TlvEncodingOptions} {es : Schema} {i m : Nat}
  {c : Option (List Value)} {bs : List (List ArrayChunk)} {f s cs : List ArrayChunk}
  {v : List Value}

theorem decodeFromChunkedArray_append (h : c = none → f ≠ []) :
    decodeFromChunkedArray p es i m (f ++ s) c =
      decodeFromChunkedArray p es i m f c >>= fun v =>
          decodeFromChunkedArray p es i m s (some v) := by
  cases c with
  | some v => exact foldlM_append
  | none =>
    obtain ⟨⟨l, e⟩, f, rfl⟩ := exists_cons_of_ne_nil (h rfl)
    cases l with
    | some index => rfl
    | none => exact foldlM_append

theorem decodeBatches_eq (h : c = none → bs.head? ≠ some []) (he : c = none → bs ≠ []) :
    decodeBatches p es i m c bs = some <$> decodeFromChunkedArray p es i m bs.flatten c := by
  induction bs generalizing c with
  | nil =>
    cases c with
    | some v => rfl
    | none => exact absurd rfl (he rfl)
  | cons batch bs ih =>
    have hb : c = none → batch ≠ [] := fun hn hq => h hn (by rw [hq]; rfl)
    rw [flatten_cons, decodeFromChunkedArray_append hb, map_bind, decodeBatches,
      foldlM_cons, bind_map_left]
    refine bind_congr fun v => ?_
    exact ih (by simp) (by simp)

/-- The additions put the elements behind those that are there, as their schema decodes them. -/
theorem foldlM_additions (s : List Value) (h : v.mapM (fun el => do
      let l ← es.encodeTlv el o return (⟨some none, l⟩ : ArrayChunk)) = .ok cs) :
    cs.foldlM (applyChunk p es i m) s = (s ++ ·) <$> v.mapM (fun el =>
        es.encodeTlv el o >>= es.decodeTlvWith p) := by
  induction v generalizing s cs with
  | nil =>
    cases h
    simp
  | cons el v ih =>
    rw [mapM_cons] at h
    obtain ⟨chunk, hc, h⟩ := ok_of_bind h
    obtain ⟨rest, hrs, h⟩ := ok_of_bind h
    obtain ⟨l, hs, hc⟩ := ok_of_bind hc
    cases h
    cases hc
    rw [foldlM_cons, mapM_cons, hs]
    cases hd : es.decodeTlvWith p l with
    | error e => simp [applyChunk, hd]
    | ok d => simp [applyChunk, hd, ih _ hrs]

theorem mapM_eq_ok_self_iff {α ε : Type} {f : α → Except ε α} {l : List α} :
    l.mapM f = .ok l ↔ ∀ a ∈ l, f a = .ok a := by
  induction l with
  | nil => exact ⟨fun _ a ha => (by cases ha), fun _ => rfl⟩
  | cons a l ih =>
    rw [mapM_cons, forall_mem_cons, ← ih]
    cases f a <;> cases l.mapM f <;> simp

theorem foldlM_inPlace (a o : List (List Value)) {c : Nat}
    (he : a.length ≤ c) (hl : c < (a ++ o).length) :
    (cs.foldlM (applyChunkInPlace p es i m) (a ++ o, c)).map
      (fun d => (d.1.take a.length, d.1.getD d.2 [])) = (cs.foldlM (applyChunk p es i m)
      ((a ++ o).getD c [])).map (a, ·) := by
  induction cs generalizing o c with
  | nil => exact congrArg Except.ok (Prod.ext take_left rfl)
  | cons chunk cs ih =>
    simp only [foldlM_cons, applyChunkInPlace]
    cases applyChunk p es i m ((a ++ o).getD c [])
      chunk with
    | error e => rfl
    | ok v =>
      cases hi : chunk.listIndex with
      | none =>
        have hn := @ih (o ++ [v]) (a ++ o).length (by simp) (by simp)
        simpa [append_assoc] using hn
      | some index =>
        have hs := ih (o.set (c - a.length) v) he (by simpa using hl)
        rw [← set_append_right _ _ he] at hs
        simpa [getElem?_set_self hl] using hs

/-- However the chunks of a list are divided, and whatever list was there before, the batches give
the list back if and only if every element comes back from its own encoding. Chunks give the same at
once and one part after the other. No array that was there before is changed. -/
theorem chunkedArray_restores (options : TlvDecodingOptions) (encodingOptions : TlvEncodingOptions)
    (elementSchema : Schema) (minLength maxLength : Nat) :
    (∀ value chunks batches currentValue,
      encodeAsChunkedArray encodingOptions elementSchema minLength maxLength value = .ok chunks →
      batches.flatten = chunks → (currentValue = none → batches.head? ≠ some []) →
      (decodeBatches options elementSchema minLength maxLength currentValue batches =
          .ok (some value) ↔
        ∀ element ∈ value, (elementSchema.encodeTlv element encodingOptions >>=
          elementSchema.decodeTlvWith options) = .ok element)) ∧
    (∀ first second currentValue, (currentValue = none → first ≠ []) →
      decodeFromChunkedArray options elementSchema minLength maxLength (first ++ second)
          currentValue =
        decodeFromChunkedArray options elementSchema minLength maxLength first currentValue >>=
          fun value => decodeFromChunkedArray options elementSchema minLength maxLength second
            (some value)) ∧
    ∀ arrays supplied chunks,
      (decodeInPlace options elementSchema minLength maxLength arrays supplied chunks).map
        (fun memory => (memory.1.take arrays.length, memory.1.getD memory.2 [])) =
      (decodeFromChunkedArray options elementSchema minLength maxLength chunks
        (some (arrays.getD supplied []))).map (arrays, ·) := by
  refine ⟨?_, fun _ _ _ h => decodeFromChunkedArray_append h, ?_⟩
  · intro value chunks batches currentValue he hf hh
    obtain ⟨empty, hm, he⟩ := ok_of_bind he
    obtain ⟨d, ha, he⟩ := ok_of_bind he
    cases hm
    cases he
    have hn : batches ≠ [] := by
      rintro rfl
      cases hf
    -- the empty array comes first and replaces what was there before
    have hd : decodeFromChunkedArray options elementSchema minLength maxLength batches.flatten
        currentValue = d.foldlM (applyChunk options elementSchema minLength maxLength)
          [] := by
      rw [hf]
      cases currentValue <;> rfl
    rw [decodeBatches_eq hh (fun _ => hn), hd, foldlM_additions [] ha, ← mapM_eq_ok_self_iff]
    cases value.mapM (fun element => elementSchema.encodeTlv element encodingOptions >>=
      elementSchema.decodeTlvWith options) <;> simp
  · intro arrays supplied chunks
    refine (foldlM_inPlace arrays [arrays.getD supplied []] (Nat.le_refl _) (by simp)).trans ?_
    rw [getD_eq_getElem?_getD, getElem?_concat_length]
    rfl

/-- Two texts that come in two batches replace a list of one. -/
theorem chunkedArray_restores_texts : ∃ chunks,
    encodeAsChunkedArray {} (.string tlvString) 0 65535 [.string [104], .string []] = .ok chunks ∧
    decodeBatches {} (.string tlvString) 0 65535 (some [.string [120]])
        [chunks.take 2, chunks.drop 2] = .ok (some [.string [104], .string []]) := by
  refine ⟨_, rfl, ((chunkedArray_restores {} {} (.string tlvString) 0 65535).1 _ _ _ _ rfl rfl
    (by simp)).mpr ?_⟩
  intro e he
  rcases mem_cons.mp he with rfl | he
  · rfl
  · obtain rfl := mem_singleton.mp he
    rfl

/-- Empty bytes where null is possible are valid, and come back as null. -/
theorem emptyBytes_come_back_null :
    (Schema.array (tlvNullable (.string tlvByteString)) 0 65535).validate (.array [.bytes []]) =
      .ok () ∧
    (encodeAsChunkedArray {} (tlvNullable (.string tlvByteString)) 0 65535 [.bytes []] >>=
        fun chunks => decodeFromChunkedArray {} (tlvNullable (.string tlvByteString)) 0 65535
          chunks) = .ok [.null] :=
  ⟨rfl, rfl⟩

end MatterJs.Tlv
