import MatterJs.Tlv.Progress

/-!
# Element trees

What a reader finds in its input, as a tree of elements. Bytes and streams that
give the same tree cannot be told apart by a decoder.
-/
namespace MatterJs.Tlv

open AnySchema List

inductive ContainerKind
  | struct
  | array
  | list

def ContainerKind.typeLength : ContainerKind → TlvTypeLength
  | .struct => .struct
  | .array => .array
  | .list => .list

inductive Tree
  | leaf (element : TlvElement)
  | node (tag : Option TlvTag) (kind : ContainerKind) (children : List Tree)
      (endTag : Option TlvTag)

namespace Tree

def tag : Tree → Option TlvTag
  | .leaf e => e.tag
  | .node tag .. => tag

def typeLength : Tree → TlvTypeLength
  | .leaf e => e.typeLength
  | .node _ kind .. => kind.typeLength

def withTag (tag : Option TlvTag) : Tree → Tree
  | .leaf e => .leaf { e with tag }
  | .node _ kind children endTag => .node tag kind children endTag

mutual

def stream : Tree → TlvStream
  | .leaf e => [e]
  | .node tag kind children endTag =>
    ⟨tag, kind.typeLength, none⟩ :: (streams children ++ [⟨endTag, .endOfContainer, none⟩])

def streams : List Tree → TlvStream
  | [] => []
  | t :: ts => t.stream ++ streams ts

end

@[simp] theorem withTag_tag (t : Tree) : t.withTag t.tag = t := by
  cases t <;> rfl

end Tree

section Yields

variable {ρ : Type} (R : TlvReader ρ)

/-- What a decoder of any elements reads behind the tag of an element that is no container. -/
def ReadsValue (typeLength : TlvTypeLength) (value : Option TlvValue) (r r' : ρ) : Prop :=
  match typeLength with
  | .null => value = some .null ∧ r' = r
  | .boolean b =>
    value = some (.boolean b) ∧ R.readPrimitive r typeLength = .ok (value, r) ∧ r' = r
  | .unsignedInt _ | .signedInt _ | .float _ | .utf8String _ | .byteString _ =>
    R.readPrimitive r typeLength = .ok (value, r')
  | .endOfContainer | .reserved _ => value = none ∧ r' = r
  | .struct | .array | .list => False

mutual

/-- Behind the tag of its root, the reader goes through a tree. -/
def YieldsValue : Tree → ρ → ρ → Prop
  | .leaf e, r, r' => ReadsValue R e.typeLength e.value r r'
  | .node _ _ children endTag, r, r' => ∃ r₁, YieldsAll children r r₁ ∧
      R.readTagType r₁ = .ok ((endTag, .endOfContainer), r')

def YieldsAll : List Tree → ρ → ρ → Prop
  | [], r, r' => r = r'
  | t :: ts, r, r' => ∃ r₁ r₂, t.typeLength ≠ .endOfContainer ∧
      R.readTagType r = .ok ((t.tag, t.typeLength), r₁) ∧ YieldsValue t r₁ r₂ ∧ YieldsAll ts r₂ r'

end

/-- The next element the reader goes through is this tree. -/
def Yields (t : Tree) (r r' : ρ) : Prop :=
  ∃ r₁, R.readTagType r = .ok ((t.tag, t.typeLength), r₁) ∧ YieldsValue R t r₁ r'

end Yields

/-- The types above 0x18. -/
def TlvTypeLength.IsReserved : TlvTypeLength → Prop
  | .reserved _ => True
  | _ => False

instance : DecidablePred TlvTypeLength.IsReserved
  | .reserved _ => isTrue trivial
  | .signedInt _ | .unsignedInt _ | .boolean _ | .float _ | .utf8String _ | .byteString _ | .null
  | .struct | .array | .list | .endOfContainer => isFalse id

/-- A stream that skips nothing: no element has a type above 0x18. -/
def NoReserved (s : TlvStream) : Prop := ∀ e ∈ s, ¬ e.typeLength.IsReserved

variable {ρ : Type} {R : TlvReader ρ}

theorem NoReserved.append {s s₂ : TlvStream} :
    NoReserved (s ++ s₂) ↔ NoReserved s ∧ NoReserved s₂ := by
  simp [NoReserved, or_imp, forall_and]

theorem Tree.streams_append (ts ts' : List Tree) :
    Tree.streams (ts ++ ts') = Tree.streams ts ++ Tree.streams ts' := by
  induction ts with
  | nil => rfl
  | cons t ts ih => simp [Tree.streams, ih]

theorem YieldsAll.append {ts ts' : List Tree} {r r₁ r' : ρ} (h : YieldsAll R ts r r₁)
    (h' : YieldsAll R ts' r₁ r') : YieldsAll R (ts ++ ts') r r' := by
  induction ts generalizing r with
  | nil =>
    obtain rfl : r = r₁ := h
    exact h'
  | cons t ts ih =>
    obtain ⟨r₂, r₃, he, ht, hv, hs⟩ := h
    exact ⟨r₂, r₃, he, ht, hv, ih hs⟩

theorem Tree.stream_ne_nil (t : Tree) : 0 < t.stream.length := by
  cases t with
  | leaf e => simp [Tree.stream]
  | node tag kind c et => simp [Tree.stream]

mutual

/-- The decoder of any elements reads a tree into its stream. -/
theorem decodeRec_of_yields {r r' : ρ} {f : Nat} (c : TlvStream)
    (tag : Option TlvTag) : (t : Tree) → YieldsValue R t r r' → NoReserved t.stream →
    t.stream.length + 1 ≤ f → decodeTlvValueRec R f r t.typeLength c tag =
      .ok (c ++ (t.withTag tag).stream, r')
  | .leaf ⟨tag', typeLength, value⟩, h, hn, hf => by
    obtain ⟨f, rfl⟩ : ∃ n, f = n + 1 := ⟨f - 1, by omega⟩
    have hn := hn _ (mem_singleton_self _)
    cases typeLength <;>
      simp_all [YieldsValue, ReadsValue, Tree.typeLength, Tree.withTag, Tree.stream,
        decodeTlvValueRec, TlvTypeLength.IsReserved, pure, Except.pure]
  | .node tag' kind children endTag, h, hn, hf => by
    obtain ⟨f, rfl⟩ : ∃ n, f = n + 1 := ⟨f - 1, by omega⟩
    obtain ⟨r₁, hc, he⟩ := h
    have hh : NoReserved (Tree.streams children) := by
      intro e hm
      exact hn e (by simp [Tree.stream, hm])
    simp only [Tree.stream, length_cons, length_append] at hf
    have hrec := decodeElements_of_yields (c ++ [⟨tag, kind.typeLength, none⟩]) children
      hc he hh (by omega : (Tree.streams children).length + 2 ≤ f)
    rw [append_assoc] at hrec
    cases kind <;> exact hrec

theorem decodeElements_of_yields {r r₁ r' : ρ} {f : Nat} (a : TlvStream)
    {endTag : Option TlvTag} : (ts : List Tree) → YieldsAll R ts r r₁ →
    R.readTagType r₁ = .ok ((endTag, .endOfContainer), r') → NoReserved (Tree.streams ts) →
    (Tree.streams ts).length + 2 ≤ f → decodeElements R f r a =
      .ok (a ++ (Tree.streams ts ++ [⟨endTag, .endOfContainer, none⟩]), r')
  | [], h, he, _, hf => by
    obtain ⟨f, rfl⟩ : ∃ n, f = n + 2 := ⟨f - 2, by simp [Tree.streams] at hf; omega⟩
    obtain rfl : r = r₁ := h
    simp [decodeElements, decodeTlvValueRec, he, Tree.streams, pure, Except.pure]
  | t :: ts, h, he, hn, hf => by
    obtain ⟨f, rfl⟩ : ∃ n, f = n + 1 := ⟨f - 1, by omega⟩
    obtain ⟨r₂, r₃, hd, ht, hv, hs⟩ := h
    obtain ⟨hn1, hn2⟩ := NoReserved.append.mp hn
    simp only [Tree.streams, length_append] at hf
    have hp := t.stream_ne_nil
    have h1 := decodeRec_of_yields a t.tag t hv hn1
      (by omega : t.stream.length + 1 ≤ f)
    have h2 := decodeElements_of_yields (a ++ t.stream) ts hs he hn2
      (by omega : (Tree.streams ts).length + 2 ≤ f)
    rw [t.withTag_tag] at h1
    simp [decodeElements, ht, h1, ok_bind, if_neg hd, h2, Tree.streams]

end

/-- The loop of a container goes on behind an element it has read. -/
theorem decodeElements_cons {r r₁ r₂ : ρ} {f : Nat} {c : TlvStream} {t : Tree}
    (he : t.typeLength ≠ .endOfContainer) (ht : R.readTagType r = .ok ((t.tag, t.typeLength), r₁))
    (hv : YieldsValue R t r₁ r₂) (hn : NoReserved t.stream) (hf : t.stream.length + 1 ≤ f) :
    decodeElements R (f + 1) r c = decodeElements R f r₂ (c ++ t.stream) := by
  have h := decodeRec_of_yields c t.tag t hv hn hf
  rw [t.withTag_tag] at h
  simp [decodeElements, ht, ok_bind, h, if_neg he]

mutual

/-- Every element of a tree takes some of the input. -/
theorem yieldsValue_length (hR : R.Progresses) {r r' : ρ} : (t : Tree) → YieldsValue R t r r' →
    t.stream.length + R.remaining r' ≤ R.remaining r + 1
  | .leaf ⟨_, typeLength, value⟩, h => by
    have hl : R.remaining r' ≤ R.remaining r := by
      cases typeLength with
      | signedInt length | unsignedInt length | float length | utf8String length
      | byteString length => exact hR.value h
      | boolean b => rw [h.2.2]
      | null | endOfContainer | reserved code => rw [h.2]
      | struct | array | list => cases h
    simp only [Tree.stream, length_singleton]
    omega
  | .node _ _ ch _, ⟨r₁, hc, he⟩ => by
    have := yieldsAll_length hR ch hc
    have := hR.tag he
    simp only [Tree.stream, length_cons, length_append, length_nil]
    omega

theorem yieldsAll_length (hR : R.Progresses) {r r' : ρ} : (ts : List Tree) → YieldsAll R ts r r' →
    (Tree.streams ts).length + R.remaining r' ≤ R.remaining r
  | [], h => by
    obtain rfl : r = r' := h
    simp [Tree.streams]
  | t :: ts, ⟨r₁, r₂, _, ht, hv, hs⟩ => by
    have := hR.tag ht
    have := yieldsValue_length hR t hv
    have := yieldsAll_length hR ts hs
    simp only [Tree.streams, length_append]
    omega

end

theorem anyValue_of_yields (hR : R.Progresses) {r r' : ρ} {t : Tree} (h : YieldsValue R t r r')
    (hn : NoReserved t.stream) :
    decodeTlvInternalValue R r t.typeLength = .ok ((t.withTag none).stream, r') := by
  have hl := yieldsValue_length hR t h
  have := decodeRec_of_yields [] none t h hn
    (by omega : t.stream.length + 1 ≤ 2 * R.remaining r + 2)
  rwa [nil_append] at this

end MatterJs.Tlv
