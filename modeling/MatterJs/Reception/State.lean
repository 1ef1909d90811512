import MatterJs.Foundation.JsInt32

/-!
# Message reception states

Duplicate detection for incoming message counters: a maximum and a 32-bit
bitmap of the counters right below it. The three variants of the source share
one body and override the initial bitmap and the difference to the maximum.
-/
namespace MatterJs.Reception

open JsInt32

def maxCounterValue32Bit : Int := 0xffffffff

def maxCounterIncrease2Pow31 : Int := 2 ^ 31

/-- Number of previously processed message counters that stay acceptable. -/
def msgCounterWindowSize : Int := 32

inductive ReceptionError
  | internal (message : String)
  | duplicateMessage (message : String)

structure ReceptionState where
  maximumMessageCounter : Option Int
  messageCounterBitmap : Int

/-- What a subclass overrides. -/
structure ReceptionClass where
  initialBitmap : Int
  calculateDiff (maximumMessageCounter : Option Int) (messageCounter : Int) : Int

/-- `MessageReceptionStateEncryptedWithoutRollover`: the plain difference. -/
def encryptedWithoutRollover : ReceptionClass where
  initialBitmap := 0xffffffff
  calculateDiff maximum messageCounter :=
    match maximum with
    | none => 0
    | some maximum => messageCounter - maximum

/-- `MessageReceptionStateEncryptedWithRollover`: differences of 2^31 and more
count backwards, differences below -2^31 count forwards. -/
def encryptedWithRollover : ReceptionClass where
  initialBitmap := 0xffffffff
  calculateDiff maximum messageCounter :=
    match maximum with
    | none => 0
    | some maximum =>
      let diff := messageCounter - maximum
      if 0 < diff then
        if diff < maxCounterIncrease2Pow31 then diff else diff - maxCounterValue32Bit - 1
      else if diff < 0 then
        if -maxCounterIncrease2Pow31 ≤ diff then diff else diff + maxCounterValue32Bit + 1
      else 0

/-- `MessageReceptionStateUnencryptedWithRollover`: whatever lies outside the
window counts forwards, and nothing is known below the first counter. -/
def unencryptedWithRollover : ReceptionClass where
  initialBitmap := 0
  calculateDiff maximum messageCounter :=
    match maximum with
    | none => 0
    | some maximum =>
      let diff := messageCounter - maximum
      if 0 < diff then
        if -diff + maxCounterValue32Bit < msgCounterWindowSize then
          diff - maxCounterValue32Bit - 1
        else diff
      else if diff < 0 then
        if diff < -msgCounterWindowSize then maxCounterValue32Bit + 1 + diff else diff
      else 0

variable (messageCounterBitmap diff : Int)

/-- Move the window, or mark a late counter in it. -/
def calculateMessageCounterBitmap : Int :=
  let bitmap :=
    if diff < 0 then bitOr messageCounterBitmap (shiftLeft 1 (-diff - 1))
    else if 0 < diff then
      if diff ≤ msgCounterWindowSize then
        -- `x << 32` is a no-op, so a jump of the window size clears the prior bits itself
        let shifted :=
          if diff < msgCounterWindowSize then toUint32 (shiftLeft messageCounterBitmap diff) else 0
        bitOr shifted (shiftLeft 1 (diff - 1))
      else 0
    else messageCounterBitmap
  toUint32 bitmap

def isCounterKnownInBitmap : Bool :=
  bitAnd messageCounterBitmap (shiftLeft 1 (-diff - 1)) ≠ 0

namespace ReceptionClass
variable (K : ReceptionClass)

def initializeState (messageCounter : Int) : ReceptionState where
  maximumMessageCounter := some messageCounter
  messageCounterBitmap := K.initialBitmap

/-- The constructor, with or without an initial counter. -/
def construct : Option Int → ReceptionState
  | none => { maximumMessageCounter := none, messageCounterBitmap := K.initialBitmap }
  | some messageCounter => K.initializeState messageCounter

def updateMessageCounterAndBitmap (s : ReceptionState) (messageCounter diff : Int) :
    ReceptionState :=
  match s.maximumMessageCounter with
  | none => K.initializeState messageCounter
  | some maximum =>
    { maximumMessageCounter := some (if 0 < diff then messageCounter else maximum)
      messageCounterBitmap := calculateMessageCounterBitmap s.messageCounterBitmap diff }

/-- The method body, with the state it leaves behind. It throws on a duplicate. -/
def updateMessageCounter (s : ReceptionState) (messageCounter : Int) :
    Except ReceptionError Unit × ReceptionState :=
  if messageCounter < 0 ∨ maxCounterValue32Bit < messageCounter then
    (.error (.internal s!"Invalid message counter value: {messageCounter}"), s)
  else
    match s.maximumMessageCounter with
    | none => (.ok (), K.updateMessageCounterAndBitmap s messageCounter 0)
    | some maximum =>
      if messageCounter = maximum then
        (.error (.duplicateMessage "Message counter equals the maximum message counter."), s)
      else
        let diff := K.calculateDiff (some maximum) messageCounter
        if diff < 0 ∧ diff < -msgCounterWindowSize then
          (.error (.duplicateMessage "Message counter is considered duplicate."), s)
        else if diff < 0 ∧ isCounterKnownInBitmap s.messageCounterBitmap diff then
          (.error (.duplicateMessage
            "Message counter is within the message counter window and duplicate."), s)
        else (.ok (), K.updateMessageCounterAndBitmap s messageCounter diff)

def accepts (s : ReceptionState) (messageCounter : Int) : Bool :=
  match (K.updateMessageCounter s messageCounter).1 with
  | .ok _ => true
  | .error _ => false

def after (s : ReceptionState) (counters : List Int) : ReceptionState :=
  counters.foldl (fun s c => (K.updateMessageCounter s c).2) s

def accepted (s : ReceptionState) : List Int → List Int
  | [] => []
  | c :: counters =>
    if K.accepts s c then c :: accepted (K.updateMessageCounter s c).2 counters
    else accepted (K.updateMessageCounter s c).2 counters

end ReceptionClass

/-- The counters the method does not refuse as invalid. -/
def ValidCounter (c : Int) : Prop := 0 ≤ c ∧ c ≤ maxCounterValue32Bit

instance (c : Int) : Decidable (ValidCounter c) := inferInstanceAs (Decidable (_ ∧ _))

variable {K : ReceptionClass} {s : ReceptionState} {c m d : Int}

theorem update_unanchored (hc : ValidCounter c) (hs : s.maximumMessageCounter = none) :
    K.updateMessageCounter s c = (.ok (), K.initializeState c) := by
  obtain ⟨h0, h1⟩ := hc
  have hr : ¬ (c < 0 ∨ maxCounterValue32Bit < c) := by omega
  simp [ReceptionClass.updateMessageCounter, ReceptionClass.updateMessageCounterAndBitmap, hr, hs]

/-- Every anchored call: it is refused and changes nothing, or the counter is
new or an unknown one inside the window and the window moves. -/
theorem update_anchored (hc : ValidCounter c) (hs : s.maximumMessageCounter = some m)
    (hd : K.calculateDiff (some m) c = d) (hz : c = m ↔ d = 0) :
    (K.accepts s c ↔ 0 < d ∨ (-msgCounterWindowSize ≤ d ∧ d < 0 ∧
      isCounterKnownInBitmap s.messageCounterBitmap d = false)) ∧
    (K.accepts s c → (K.updateMessageCounter s c).2 =
      { maximumMessageCounter := some (if 0 < d then c else m)
        messageCounterBitmap := calculateMessageCounterBitmap s.messageCounterBitmap d }) := by
  obtain ⟨h0, h1⟩ := hc
  have hr : ¬ (c < 0 ∨ maxCounterValue32Bit < c) := by omega
  simp only [ReceptionClass.accepts, ReceptionClass.updateMessageCounter, hr, hs, if_false, hd]
  by_cases hm : c = m
  · have := hz.mp hm
    simp only [hm, if_true, Bool.false_eq_true, false_iff, false_implies, and_true]
    omega
  · have hd0 : d ≠ 0 := fun h => hm (hz.mpr h)
    simp only [hm, if_false]
    by_cases hl : d < 0 ∧ d < -msgCounterWindowSize
    · simp only [hl, and_self, if_true, Bool.false_eq_true, false_iff, false_implies, and_true]
      omega
    · simp only [hl, if_false]
      by_cases hk : d < 0 ∧ isCounterKnownInBitmap s.messageCounterBitmap d
      · simp only [hk, and_self, if_true, Bool.false_eq_true, false_iff, false_implies,
          and_true, Bool.true_eq_false, and_false, or_false]
        omega
      · simp only [hk, if_false, true_iff, ReceptionClass.updateMessageCounterAndBitmap, hs,
          imp_self, and_true]
        by_cases hp : 0 < d
        · exact .inl hp
        · have hn : d < 0 := by omega
          refine .inr ⟨by omega, hn, ?_⟩
          simpa [hn] using hk

/-- A throwing call has not touched the state. -/
theorem update_rejected (h : K.accepts s c = false) : (K.updateMessageCounter s c).2 = s := by
  revert h
  unfold ReceptionClass.accepts ReceptionClass.updateMessageCounter
  split_ifs
  · simp
  · cases s.maximumMessageCounter with
    | none => simp
    | some m =>
      dsimp only
      split_ifs <;> simp

end MatterJs.Reception
