import MatterJs.Tlv.Any

/-!
# Readers make progress

Every tag a reader returns leaves less of its input, so that the bound on the
loops of a decoder is never reached.
-/
namespace MatterJs.Tlv

open TlvValue DataReader TlvCodec

/-- A reader whose input shrinks with every tag, and does not grow with a value. -/
structure TlvReader.Progresses {ρ : Type} (R : TlvReader ρ) : Prop where
  tag : ∀ {r x r'}, R.readTagType r = .ok (x, r') → R.remaining r' < R.remaining r
  value : ∀ {r typeLength x r'}, R.readPrimitive r typeLength = .ok (x, r') →
    R.remaining r' ≤ R.remaining r
  tag_error : ∀ r, R.readTagType r ≠ .error .outOfFuel
  value_error : ∀ r typeLength, R.readPrimitive r typeLength ≠ .error .outOfFuel

variable {α β : Type}

/-- A read that puts nothing back and has no bound of its own. -/
def Shrinks (f : DataReader → Except TlvError (α × DataReader)) : Prop :=
  ∀ r, f r ≠ .error .outOfFuel ∧
    ∀ a r', f r = .ok (a, r') → r'.remaining.length ≤ r.remaining.length

variable {f : DataReader → Except TlvError (α × DataReader)}

theorem Shrinks.bind {g : α → DataReader → Except TlvError (β × DataReader)} (hf : Shrinks f)
    (hg : ∀ a, Shrinks (g a)) : Shrinks (fun r => f r >>= fun (a, r) => g a r) := by
  intro r
  obtain ⟨he, ho⟩ := hf r
  cases hr : f r with
  | error e =>
    rw [hr] at he
    simp only [hr]
    exact ⟨fun h => he (congrArg _ (Except.error.inj h)), fun a r' h => by cases h⟩
  | ok x =>
    obtain ⟨a, r₁⟩ := x
    obtain ⟨he', hok'⟩ := hg a r₁
    simp only [hr, ok_bind]
    exact ⟨he', fun b r' h => (hok' b r' h).trans (ho a r₁ hr)⟩

theorem Shrinks.ok (a : α) : Shrinks (fun r => .ok (a, r)) := by
  intro r
  refine ⟨by simp, fun b r' h => ?_⟩
  obtain ⟨-, rfl⟩ := Prod.mk.inj (Except.ok.inj h)
  exact le_rfl

theorem Shrinks.map (hf : Shrinks f)
    (g : α → β) : Shrinks (fun r => f r >>= fun (a, r) => pure (g a, r)) :=
  Shrinks.bind (g := fun a r => .ok (g a, r)) hf (fun a => Shrinks.ok (g a))

theorem Shrinks.error {e : TlvError} (he : e ≠ .outOfFuel) :
    Shrinks (fun _ => (.error e : Except TlvError (α × DataReader))) :=
  fun _ => ⟨fun h => he (Except.error.inj h), fun _ _ h => by cases h⟩

theorem shrinks_advance (size : Nat) : Shrinks (fun r => r.advance size) := by
  intro r
  simp only [advance]
  split_ifs
  · exact ⟨by simp, fun a r' h => by cases h⟩
  · refine ⟨by simp, fun a r' h => ?_⟩
    cases h
    simp

theorem shrinks_readUInt (w : Nat) : Shrinks (readUInt w) :=
  (shrinks_advance w).map LittleEndian.decode

theorem shrinks_readInt (w : Nat) : Shrinks (readInt w) :=
  (shrinks_readUInt w).map (LittleEndian.signed w)

theorem readUInt8_lt {r r' : DataReader} {n : Nat} (h : r.readUInt8 = .ok (n, r')) :
    r'.remaining.length < r.remaining.length := by
  simp only [readUInt8, readUInt, advance] at h
  split_ifs at h with hl
  · cases h
  · cases h
    simp only [List.length_drop]
    omega

theorem shrinks_readTag (t : TagControl) : Shrinks (fun r => readTag r t) := by
  cases t with
  | anonymous => exact Shrinks.ok none
  | contextSpecific => exact (shrinks_readUInt 1).map (fun id => some (TlvTag.mk none (some id)))
  | commonProfile16 =>
    exact (shrinks_readUInt 2).map (fun id => some (TlvTag.mk (some matterCommonProfile) (some id)))
  | commonProfile32 =>
    exact (shrinks_readUInt 4).map (fun id => some (TlvTag.mk (some matterCommonProfile) (some id)))
  | fullyQualified48 =>
    exact (shrinks_readUInt 4).bind
      (fun p => (shrinks_readUInt 2).map (fun id => some (TlvTag.mk (some p) (some id))))
  | _ => exact Shrinks.error (by simp)

theorem shrinks_readLength (l : TlvLength) : Shrinks (fun r => readLength r l) := by
  cases l with
  | eightBytes =>
    exact (shrinks_readUInt 8).map (fun n => (Ieee754.roundInteger (n : Nat)).toNat)
  | _ => exact shrinks_readUInt _

theorem shrinks_readPrimitive (t : TlvTypeLength) : Shrinks (fun r => readPrimitive r t) := by
  cases t with
  | signedInt le => cases le <;> exact (shrinks_readInt _).map int
  | unsignedInt le =>
    cases le <;> exact (shrinks_readUInt _).map (fun n => int (n : Nat))
  | float le =>
    cases le with
    | fourBytes => exact ((shrinks_readUInt 4).map Ieee754.Double.ofSingle).map float
    | eightBytes => exact ((shrinks_readUInt 8).map Ieee754.Double.ofBits).map float
  | utf8String le =>
    exact (shrinks_readLength le).bind
      (fun n => ((shrinks_advance n).map TextCodec.decode).map string)
  | byteString le =>
    exact (shrinks_readLength le).bind (fun n => (shrinks_advance n).map bytes)
  | boolean value => exact Shrinks.ok (boolean value)
  | null => exact Shrinks.ok null
  | _ => exact Shrinks.error (by simp)

theorem shrinks_readTagType : Shrinks readTagType :=
  (shrinks_readUInt 1).bind (fun c => (shrinks_readTag (TagControl.ofCode (c / 32))).map
    (fun tag => (tag, parseTypeLength (c % 32))))

theorem byteArray_progresses : tlvByteArrayReader.Progresses where
  tag := by
    intro r x r' h
    obtain ⟨⟨c, r₁⟩, hc, h⟩ := ok_of_bind h
    have hl := (((shrinks_readTag (TagControl.ofCode (c / 32))).map
      (fun tag => (tag, parseTypeLength (c % 32)))) r₁).2 x r' h
    exact lt_of_le_of_lt hl (readUInt8_lt hc)
  value := by
    intro r t x r' h
    exact (((shrinks_readPrimitive t).map some) r).2 x r' h
  tag_error := fun r => (shrinks_readTagType r).1
  value_error := fun r t => (((shrinks_readPrimitive t).map some) r).1

theorem array_progresses : tlvArrayReader.Progresses where
  tag := by
    rintro ⟨c, _ | ⟨e, rest⟩⟩ x r' h
    · cases h
    · cases h
      exact Nat.lt_succ_self _
  value := by
    rintro ⟨_ | e, rest⟩ t x r' h
    · cases h
    · cases h
      exact le_rfl
  tag_error := by
    rintro ⟨c, _ | ⟨e, rest⟩⟩ h <;> cases h
  value_error := by
    rintro ⟨_ | e, rest⟩ t h <;> cases h

end MatterJs.Tlv
