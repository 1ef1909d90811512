import MatterJs.Action.Protocol

/-!
# Enforcers of access to data

The enforcer of a schema has every check twice, as an assertion that throws and as a predicate. It
is built in layers, each of which wraps both. The predicate is what lists the properties of a
struct, the assertion is what guards a property when it is read or written.
-/
namespace MatterJs.Action

/-- Where a value is in the data model. -/
structure Location where
  path : List String
  endpoint : Option Nat
  cluster : Option Nat
  /-- The fabric that owns the subtree. -/
  owningFabric : Option Nat
  deriving DecidableEq

/-- The session of a remote actor. An optional flag that is not there is false. -/
structure RemoteActorSession where
  authorityAt : AccessLevel → Location → Authority
  /-- Zero without a fabric. -/
  fabric : Nat
  fabricFiltered : Bool
  timed : Bool
  command : Bool

/-- No session, and the session of a local actor, are `none`. -/
abbrev ActorSession := Option RemoteActorSession

inductive AccessError
  | read (location : Location) (message : String) (code : Status)
  | write (location : Location) (message : String) (code : Status)
  | implementation (location : Location) (message : String)
  deriving DecidableEq

abbrev Assertion := ActorSession → Location → Except AccessError Unit

abbrev Verification := ActorSession → Location → Bool

structure AccessControl where
  authorizeRead : Assertion
  mayRead : Verification
  authorizeWrite : Assertion
  mayWrite : Verification

/-- `hasLocalActor(session) || session.command` answers before anything else is looked at. -/
def unlessTrusted {α : Type} (trusted : α) (check : RemoteActorSession → Location → α)
    (session : ActorSession) (location : Location) : α :=
  match session with
  | none => trusted
  | some remote => if remote.command then trusted else check remote location

/-- `location?.owningFabric !== undefined && location.owningFabric !== session.fabric`. -/
def fabricMismatch (session : RemoteActorSession) (location : Location) : Bool :=
  location.owningFabric.any (· != session.fabric)

section Layers

variable (limits : Limits) (level : AccessLevel)

def mayAt : Verification :=
  unlessTrusted true fun session location => session.authorityAt level location = .granted

def authorizeAt (denied : Location → String → Status → AccessError) :
    Assertion :=
  unlessTrusted (.ok ()) fun session location =>
    if session.authorityAt level location = .granted then .ok ()
    else .error (denied location "Permission denied" .unsupportedAccess)

def levelLayer : AccessControl where
  authorizeRead := authorizeAt limits.readLevel .read
  mayRead := mayAt limits.readLevel
  authorizeWrite := authorizeAt limits.writeLevel .write
  mayWrite := mayAt limits.writeLevel

variable (wrapped : AccessControl)

def timedLayer : AccessControl :=
  { wrapped with
    authorizeWrite := fun session location =>
      if session.any (!·.timed) then
        .error (.write location "Permission denied because interaction is not timed"
          .needsTimedInteraction)
      else wrapped.authorizeWrite session location
    mayWrite := fun session location =>
      if session.any (!·.timed) then false else wrapped.mayWrite session location }

def maySensitive (wrapped : Verification) : Verification :=
  unlessTrusted true fun session location =>
    if session.fabric == 0 then false
    else if fabricMismatch session location then false
    else wrapped (some session) location

/-- Only `authorizeRead` asks whether the session is filtered by its fabric. -/
def fabricSensitiveLayer : AccessControl where
  authorizeRead := unlessTrusted (.ok ()) fun session location =>
    if session.fabricFiltered && session.fabric == 0 then
      .error (.read location "Permission denied: No accessing fabric" .unsupportedAccess)
    else if session.fabricFiltered && fabricMismatch session location then
      .error (.read location "Permission denied: Owning/accessing fabric mismatch"
        .unsupportedAccess)
    else wrapped.authorizeRead (some session) location
  mayRead := maySensitive wrapped.mayRead
  authorizeWrite := unlessTrusted (.ok ()) fun session location =>
    if session.fabric == 0 then
      .error (.write location "Permission denied: No accessing fabric" .unsupportedAccess)
    else if fabricMismatch session location then
      .error (.write location "Permission denied: Owning/accessing fabric mismatch"
        .unsupportedWrite)
    else wrapped.authorizeWrite (some session) location
  mayWrite := maySensitive wrapped.mayWrite

def unreadableLayer : AccessControl :=
  { wrapped with
    authorizeRead := unlessTrusted (.ok ()) fun _ location =>
      .error (.read location "Permission defined: Value is write-only" .unsupportedRead)
    mayRead := unlessTrusted true fun _ _ => false }

def unwritableLayer : AccessControl :=
  { wrapped with
    authorizeWrite := unlessTrusted (.ok ()) fun _ location =>
      .error (.write location "Permission denied: Value is read-only" .unsupportedWrite)
    mayWrite := unlessTrusted true fun _ _ => false }

def layerIf (condition : Bool) (layer : AccessControl → AccessControl) (control : AccessControl) :
    AccessControl :=
  if condition then layer control else control

def dataEnforcerFor : AccessControl :=
  layerIf (!limits.writable) unwritableLayer <|
  layerIf (!limits.readable) unreadableLayer <|
  layerIf limits.fabricSensitive fabricSensitiveLayer <|
  layerIf limits.timed timedLayer (levelLayer limits)

def commandEnforcerFor : AccessControl where
  authorizeRead _ location :=
    .error (.implementation location "Permission denied: Read request but command schema")
  mayRead _ _ := false
  authorizeWrite _ location :=
    .error (.implementation location "Permission denied: Write request but command schema")
  mayWrite _ _ := false

/-- `AccessControl(schema)`, for the limits of a schema that is a command or is not. -/
def enforcerFor (isCommand : Bool) : AccessControl :=
  if isCommand then commandEnforcerFor else dataEnforcerFor limits

end Layers

/-! ### Agreement of predicate and assertion -/

/-- The predicate is true exactly where the assertion does not throw. -/
def Agree (may : Verification) (authorize : Assertion) (session : ActorSession)
    (location : Location) : Prop :=
  may session location ↔ authorize session location = .ok ()

section Agreement

variable {ls : Limits} {a : AccessControl} {s : ActorSession} {location : Location}

variable {l : AccessControl → AccessControl}

theorem layerIf_true : layerIf true l a = l a := rfl

theorem layerIf_false : layerIf false l a = a := rfl

theorem layerIf_of {P : AccessControl → Prop} {c : Bool}
    {l : AccessControl → AccessControl} (h : P a) (hl : P a → P (l a)) : P (layerIf c l a) := by
  cases c with
  | false => exact h
  | true => exact hl h

/-- For a trusted session both pass, whatever the checks are. -/
theorem agree_unlessTrusted {m : RemoteActorSession → Location → Bool}
    {u : RemoteActorSession → Location → Except AccessError Unit}
    (h : ∀ r, s = some r → (m r location ↔ u r location = .ok ())) :
    Agree (unlessTrusted true m) (unlessTrusted (.ok ()) u) s location := by
  unfold Agree unlessTrusted
  cases s with
  | none => simp
  | some r =>
    dsimp only
    split
    · simp
    · exact h r rfl

theorem agree_level (level : AccessLevel) (d : Location → String → Status → AccessError) :
    Agree (mayAt level) (authorizeAt level d) s location := by
  refine agree_unlessTrusted ?_
  intro r _
  by_cases hg : r.authorityAt level location = .granted <;> simp [hg]

theorem agree_write (i : Limits) :
    Agree (dataEnforcerFor i).mayWrite (dataEnforcerFor i).authorizeWrite s location := by
  let P (c : AccessControl) := Agree c.mayWrite c.authorizeWrite s location
  have ht : P (layerIf i.timed timedLayer (levelLayer i)) := by
    refine layerIf_of (agree_level _ _) fun h => ?_
    unfold P Agree timedLayer
    dsimp only
    split
    · simp
    · exact h
  have hs : P (layerIf i.fabricSensitive fabricSensitiveLayer
      (layerIf i.timed timedLayer (levelLayer i))) := by
    refine layerIf_of ht fun h => agree_unlessTrusted ?_
    rintro r rfl
    split
    · simp
    · split
      · simp
      · exact h
  -- The layer of unreadable data leaves the checks of a write alone.
  exact layerIf_of (layerIf_of hs id) fun _ => agree_unlessTrusted (by simp)

/-- An unfiltered read of fabric-sensitive data that another fabric owns, or that is made without a
fabric, at a level that is granted. -/
def UnfilteredRead (limits : Limits) (session : ActorSession) (location : Location) : Prop :=
  limits.readable ∧ limits.fabricSensitive ∧
    ∃ remote, session = some remote ∧ remote.command = false ∧ remote.fabricFiltered = false ∧
      (remote.fabric = 0 ∨ fabricMismatch remote location) ∧
      remote.authorityAt limits.readLevel location = .granted

/-- The layer of timed data leaves the checks of a read alone. -/
theorem read_timedLayer {c : Bool} : (layerIf c timedLayer a).mayRead = a.mayRead ∧
      (layerIf c timedLayer a).authorizeRead = a.authorizeRead := by
  cases c <;> exact ⟨rfl, rfl⟩

theorem agree_read_iff :
    Agree (dataEnforcerFor ls).mayRead (dataEnforcerFor ls).authorizeRead s location ↔
      ¬UnfilteredRead ls s location := by
  let P (a : AccessControl) := Agree a.mayRead a.authorizeRead s location ↔
    ¬UnfilteredRead ls s location
  refine layerIf_of (P := P) ?_ id
  unfold P UnfilteredRead
  cases ls.readable with
  | false => exact iff_of_true (agree_unlessTrusted (by simp)) (by simp)
  | true =>
    cases ls.fabricSensitive with
    | false =>
      refine iff_of_true ?_ (by simp)
      simp only [Bool.not_true, layerIf_false, read_timedLayer]
      exact agree_level _ _
    | true =>
      simp only [Bool.not_true, layerIf_false, layerIf_true, fabricSensitiveLayer, maySensitive,
        read_timedLayer, levelLayer, Agree, mayAt, authorizeAt, unlessTrusted]
      rcases s with _ | r
      · simp
      · by_cases hg : r.authorityAt ls.readLevel location = .granted <;>
          by_cases hb : r.fabric = 0 <;> rcases hc : r.command <;> rcases hf : r.fabricFiltered <;>
          rcases hm : fabricMismatch r location <;> simp [hg, hb, hc, hf, hm]

end Agreement

/-- The predicate and the assertion of a write agree for every session. Those of a read agree except
for an unfiltered read, which the assertion lets pass and the predicate refuses. -/
theorem enforcer_agree_iff (isCommand : Bool) (limits : Limits) (session : ActorSession)
    (location : Location) :
    (Agree (enforcerFor limits isCommand).mayRead (enforcerFor limits isCommand).authorizeRead
        session location ↔ isCommand = true ∨ ¬UnfilteredRead limits session location) ∧
      Agree (enforcerFor limits isCommand).mayWrite (enforcerFor limits isCommand).authorizeWrite
        session location := by
  cases isCommand with
  | false => exact ⟨by simp [enforcerFor, agree_read_iff], agree_write limits⟩
  | true => simp [enforcerFor, commandEnforcerFor, Agree]

/-- A session of fabric 2, granted every level, reads data of fabric 1 without a filter. -/
theorem unfiltered_read_disagrees :
    let limits : Limits := ⟨true, .view, true, .operate, true, true, false, false⟩
    let session : ActorSession := some ⟨fun _ _ => .granted, 2, false, false, false⟩
    let location : Location := ⟨["acl"], some 0, some 31, some 1⟩
    (enforcerFor limits false).authorizeRead session location = .ok () ∧
      (enforcerFor limits false).mayRead session location = false := by
  decide

end MatterJs.Action
