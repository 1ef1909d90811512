import MatterJs.Action.AttributeWriteResponse

/-!
# Invoking commands

`CommandInvokeResponse` registers all paths of an invoke before the first command is run. A command
owes one entry, whatever its decoding, its handler or its transaction does.
-/
namespace MatterJs.Action

open List

structure CommandPath where
  endpointId : Nat
  clusterId : Nat
  commandId : Nat
  deriving DecidableEq

structure InvokeRequest where
  endpointId : Option Nat
  clusterId : Option Nat
  commandId : Option Nat
  commandRef : Option Nat

/-- The path unless it is a wildcard. -/
def InvokeRequest.path (r : InvokeRequest) : Option CommandPath :=
  match r.endpointId, r.clusterId, r.commandId with
  | some endpointId, some clusterId, some commandId => some ⟨endpointId, clusterId, commandId⟩
  | _, _, _ => none

/-- An error as `StatusResponseError.of` takes it. -/
inductive InvokeFault
  | status (code : Status) (clusterCode : Option Nat) (isValidationError : Bool)
  | other

/-- What the parts of one invocation do. `decode` includes the validation. -/
structure Invocation (D : Type) where
  decode : Except InvokeFault Unit := .ok ()
  handler : Except InvokeFault Unit := .ok ()
  encode : Except InvokeFault (List D) := .ok []
  commit : Except InvokeFault Unit := .ok ()
  rollback : Except InvokeFault Unit := .ok ()

inductive InvokeData (D : Type)
  | response (path : CommandPath) (commandRef : Option Nat) (data : List D)
  | status (path : CommandPath) (commandRef : Option Nat) (status : Status)
      (clusterStatus : Option Nat)

structure Invoker where
  request : InvokeRequest
  path : CommandPath
  type : CommandType

/-- A command that was run: whether its handler was called and its transaction committed. -/
structure Executed (D : Type) where
  request : InvokeRequest
  path : CommandPath
  called : Bool
  committed : Bool
  entry : InvokeData D

structure CommandInvokeResponse (D : Type) where
  registeredPaths : List CommandPath := []
  registeredCommandRefs : List Nat := []
  invokers : List Invoker := []
  /-- Empty where the source has none. -/
  chunk : List (InvokeData D) := []
  currentEndpoint : Option Nat := none
  emitted : List (List (InvokeData D)) := []
  executed : List (Executed D) := []

section Model

variable {D : Type} (node : Node) (session : Session) (inspectPath : CommandPath → String)

/-- The checks of `#processConcrete` after the command is known to exist. -/
def refuseInvoke (type : CommandType) (path : CommandPath) : Option Status :=
  (authorizeRemote session type.limits.writeLevel path.endpointId path.clusterId).or <|
  (refuseIf (session.hasRemoteActor && type.limits.largeMessage && !session.largeMessage)
    .invalidTransportType).or <|
  (refuseIf (session.hasRemoteActor && type.limits.fabricScoped && session.fabric == 0)
    .unsupportedAccess).or <|
  refuseIf (session.hasRemoteActor && type.limits.timed && !session.timed) .needsTimedInteraction

def invokeConcrete (path : CommandPath) : Except Status CommandType :=
  match refusePath node session .operate none path.endpointId path.clusterId,
    (node.cluster path.endpointId path.clusterId).bind (·.commandType path.commandId) with
  | some status, _ => .error status
  | none, none => .error .unsupportedCommand
  | none, some type =>
    match refuseInvoke session type path with
    | some status => .error status
    | none => .ok type

/-- `#addStatus` -/
def InvokeData.ofStatus (path : CommandPath) (commandRef : Option Nat) (status : Status)
    (clusterStatus : Option Nat) : InvokeData D :=
  .status path commandRef
    (if clusterStatus.isSome && status ≠ .success then .failure else status) clusterStatus

namespace CommandInvokeResponse

variable (s : CommandInvokeResponse D)

def processConcrete (r : InvokeRequest) (path : CommandPath) :
    Except String (CommandInvokeResponse D) :=
  if path ∈ s.registeredPaths then
    .error s!"Duplicate concrete command path {inspectPath path} on batch invoke"
  else
    match r.commandRef.filter (· ∈ s.registeredCommandRefs) with
    | some commandRef => .error s!"Duplicate commandRef {commandRef} on batch invoke"
    | none =>
      let s := { s with
        registeredPaths := s.registeredPaths ++ [path]
        registeredCommandRefs := s.registeredCommandRefs ++ r.commandRef.toList }
      match invokeConcrete node session path with
      | .error status =>
        .ok { s with chunk := s.chunk ++ [.ofStatus path r.commandRef status none] }
      | .ok type => .ok { s with invokers := s.invokers ++ [⟨r, path, type⟩] }

/-- The commands that `invokeWildcardEndpoints` runs. -/
def wildcardInvokers (r : InvokeRequest) (clusterId commandId : Nat) : List Invoker :=
  (groupEndpoints node session).filterMap fun endpoint =>
    let path := ⟨endpoint.id, clusterId, commandId⟩
    (((endpoint.cluster clusterId).bind (·.commandType commandId)).filter fun type =>
      (refuseInvoke session type path).isNone).map (⟨r, path, ·⟩)

def processWildcard (r : InvokeRequest) : Except String (CommandInvokeResponse D) :=
  if session.group.isSome && r.endpointId.isSome then
    .error "Illegal command invoke with group ID and endpoint ID"
  else
    match r.clusterId, r.commandId with
    | some clusterId, some commandId =>
      .ok { s with invokers := s.invokers ++ wildcardInvokers node session r clusterId commandId }
    | _, _ => .error "Wildcard path write must specify a clusterId and commandId"

def register (multipleInvokes : Bool) (r : InvokeRequest) :
    Except String (CommandInvokeResponse D) :=
  match r.path with
  | none =>
    if multipleInvokes then .error "Wildcard path must not be used with multiple invokes"
    else s.processWildcard node session r
  | some path =>
    if session.group.isSome then .error "Group commands cannot be concrete paths"
    else if multipleInvokes && r.commandRef.isNone then
      .error "The CommandRef field must be specified for all commands in a batch invoke"
    else s.processConcrete node session inspectPath r path

/-- The first loop of `process`, with the error it throws. -/
def registerAll (multipleInvokes : Bool) (s : CommandInvokeResponse D) :
    List InvokeRequest → Option String × CommandInvokeResponse D
  | [] => (none, s)
  | r :: rs =>
    match s.register node session inspectPath multipleInvokes r with
    | .error e => (some e, s)
    | .ok s => registerAll multipleInvokes s rs

def flush : CommandInvokeResponse D :=
  { s with emitted := if s.chunk = [] then s.emitted else s.emitted ++ [s.chunk], chunk := [] }

end CommandInvokeResponse

namespace Invocation

variable (b : Invocation D)

/-- The `try` block of `#invokeCommand`. -/
def attempt : Except InvokeFault (List D) := do
  b.decode
  b.handler
  let encodedResponse ← b.encode
  b.commit
  return encodedResponse

/-- Its `catch` block, where `other 0x85` is `InvalidCommand`. -/
def faultStatus (fault : InvokeFault) : Status × Option Nat :=
  match b.rollback, fault with
  | .ok _, .status code clusterCode isValidationError =>
    (if isValidationError && code = .invalidAction then .other 0x85 else code, clusterCode)
  | _, _ => (.failure, none)

def invokeCommand (v : Invoker) : InvokeData D :=
  match b.attempt with
  | .ok [] => .ofStatus v.path v.request.commandRef .success none
  | .ok data => .response { v.path with commandId := v.type.responseId } v.request.commandRef data
  | .error fault =>
    .ofStatus v.path v.request.commandRef (b.faultStatus fault).1 (b.faultStatus fault).2

def execute (v : Invoker) : Executed D :=
  ⟨v.request, v.path, b.decode.isOk, b.attempt.isOk, b.invokeCommand v⟩

end Invocation

namespace CommandInvokeResponse

/-- An invoker: what was collected for another endpoint is emitted first. -/
def invoke (behavior : Nat → Invocation D) (s : CommandInvokeResponse D) (v : Invoker) :
    CommandInvokeResponse D :=
  let s := if s.currentEndpoint = some v.path.endpointId then s else
    { s.flush with currentEndpoint := some v.path.endpointId }
  let x := (behavior s.executed.length).execute v
  { s with chunk := s.chunk ++ [x.entry], executed := s.executed ++ [x] }

/-- What was thrown and the state then, where the parts of the `n`-th command that is run do as
`behavior n` says. -/
def process (behavior : Nat → Invocation D) (requests : List InvokeRequest) :
    Option String × CommandInvokeResponse D :=
  match registerAll node session inspectPath (1 < requests.length) {} requests with
  | (some e, s) => (some e, s)
  | (none, s) => (none, (s.invokers.foldl (invoke behavior) s).flush)

end CommandInvokeResponse

end Model

def InvokeData.succeeded {D : Type} : InvokeData D → Bool
  | .response _ _ _ => true
  | .status _ _ code _ => code = .success

def InvokeData.Answers {D : Type} (r : InvokeRequest) : InvokeData D → Prop
  | .response p ref _ =>
    ref = r.commandRef ∧ r.endpointId = some p.endpointId ∧ r.clusterId = some p.clusterId
  | .status p ref _ _ => ref = r.commandRef ∧ r.path = some p

namespace CommandInvokeResponse

variable {D : Type} {node : Node} {session : Session} {ip : CommandPath → String}
  {s t : CommandInvokeResponse D} {r : InvokeRequest} {p : CommandPath} {m : Bool}
  {rs d : List InvokeRequest} {b : Nat → Invocation D}

/-- One entry for each request and one invocation for each that is not refused, in the order of the
requests; a success is one of a committed transaction, unless the command has thrown it. -/
def Answered (b : Nat → Invocation D) (rs : List InvokeRequest) (s : CommandInvokeResponse D) :
    Prop :=
  ∃ refused : List (InvokeRequest × InvokeData D),
    (refused.map Prod.fst ++ s.executed.map (·.request)).Perm rs ∧
    s.emitted.flatten = refused.map Prod.snd ++ s.executed.map (·.entry) ∧
    (∀ x ∈ refused, x.2.Answers x.1 ∧ x.2.succeeded = false) ∧
    (∀ n x, s.executed[n]? = some x → x.entry.Answers x.request ∧
      (x.committed → x.entry.succeeded) ∧
      (x.entry.succeeded →
        x.committed ∨ ∃ c f, (b n).attempt = .error (.status .success c f))) ∧
    (s.executed.map (·.path)).Sublist (rs.filterMap (·.path)) ∧
    (rs.filterMap (·.path)).Nodup

/-! ### Registration -/

/-- The requests `rs` are registered. -/
structure Registered (rs : List InvokeRequest) (s : CommandInvokeResponse D) : Prop where
  emitted : s.emitted = []
  paths : s.registeredPaths = rs.filterMap (·.path)
  nodup : s.registeredPaths.Nodup
  order : (s.invokers.map (·.path)).Sublist s.registeredPaths
  own : ∀ v ∈ s.invokers, v.request.path = some v.path
  refused : ∃ refused : List (InvokeRequest × InvokeData D), s.chunk = refused.map Prod.snd ∧
    (refused.map Prod.fst ++ s.invokers.map (·.request)).Perm rs ∧
    ∀ x ∈ refused, x.2.Answers x.1 ∧ x.2.succeeded = false

theorem refuseInvoke_ne_success {c : CommandType} : refuseInvoke session c p ≠ some .success := by
  refine or_ne_success authorize_ne_success ?_
  refine or_ne_success (refuseIf_ne_success (by decide)) ?_
  exact or_ne_success (refuseIf_ne_success (by decide)) (refuseIf_ne_success (by decide))

theorem invokeConcrete_refusal {e : Status} (h : invokeConcrete node session p = .error e) :
    e ≠ .success := by
  rintro rfl
  unfold invokeConcrete at h
  split at h
  · next hr => exact refusePath_ne_success (Except.error.inj h ▸ hr)
  · cases h
  · split at h
    · next hr => exact refuseInvoke_ne_success (Except.error.inj h ▸ hr)
    · cases h

theorem Registered.processConcrete (hs : Registered d s) (hr : r.path = some p)
    (h : s.processConcrete node session ip r p = .ok t) : Registered (d ++ [r]) t := by
  unfold CommandInvokeResponse.processConcrete at h
  obtain ⟨l, hc, hl, ha⟩ := hs.refused
  split at h
  · cases h
  next hp =>
  split at h
  · cases h
  have hn : (s.registeredPaths ++ [p]).Nodup := by grind [hs.nodup]
  have hf : s.registeredPaths ++ [p] = (d ++ [r]).filterMap (·.path) := by simp [hs.paths, hr]
  split at h <;> cases h
  · next e he =>
    have he := invokeConcrete_refusal he
    refine ⟨hs.emitted, hf, hn, hs.order.trans (sublist_append_left ..), hs.own,
      l ++ [(r, .ofStatus p r.commandRef e none)], by simp [hc], ?_, ?_⟩
    · simpa using (perm_middle.trans (hl.cons r)).trans (perm_append_singleton r d).symm
    · simp only [mem_append, mem_singleton]
      rintro x (hx | rfl)
      · exact ha x hx
      · simp [InvokeData.ofStatus, InvokeData.Answers, InvokeData.succeeded, hr, he]
  · next c hc' =>
    refine ⟨hs.emitted, hf, hn, ?_, by grind [hs.own], l, hc, ?_, ha⟩
    · simpa using hs.order.append (Sublist.refl [p])
    · simpa [← append_assoc] using hl.append_right [r]

theorem register_executed (h : s.register node session ip m r = .ok t) :
    t.executed = s.executed := by
  unfold register CommandInvokeResponse.processConcrete processWildcard at h
  grind

theorem registerAll_executed : (registerAll node session ip m s rs).2.executed = s.executed := by
  induction rs generalizing s with
  | nil => rfl
  | cons r rs ih =>
    unfold registerAll
    split
    · rfl
    · next t h => rw [ih, register_executed h]

theorem Registered.registerAll (hs : Registered d s) (hr : ∀ r ∈ rs, r.path ≠ none)
    (h : registerAll node session ip m s rs = (none, t)) : Registered (d ++ rs) t := by
  induction rs generalizing s d with
  | nil =>
    cases h
    simpa using hs
  | cons r rs ih =>
    unfold CommandInvokeResponse.registerAll at h
    obtain ⟨p, hp⟩ := Option.ne_none_iff_exists'.mp (hr r mem_cons_self)
    split at h
    · cases h
    · next u hu =>
      have hu : s.processConcrete node session ip r p = .ok u := by
        simp only [register, hp] at hu
        grind
      simpa using ih (hs.processConcrete hp hu) (fun x hx => hr x (mem_cons_of_mem r hx)) h

/-! ### Execution -/

def entries (s : CommandInvokeResponse D) : List (InvokeData D) := s.emitted.flatten ++ s.chunk

theorem flush_emitted : s.flush.emitted.flatten = s.entries := by
  unfold flush entries
  split <;> simp_all

theorem invoke_entries (v : Invoker) :
    (invoke b s v).executed = s.executed ++ [(b s.executed.length).execute v] ∧
      (invoke b s v).entries = s.entries ++ [(b s.executed.length).invokeCommand v] := by
  unfold invoke
  split
  · simp [entries, Invocation.execute]
  · rw [← flush_emitted (s := s)]
    exact ⟨rfl, rfl⟩

theorem invoke_run (vs : List Invoker) : ∃ xs : List (Executed D),
    (vs.foldl (invoke b) s).executed = s.executed ++ xs ∧
    (vs.foldl (invoke b) s).entries = s.entries ++ xs.map (·.entry) ∧
    xs.map (·.request) = vs.map (·.request) ∧
    xs.map (·.path) = vs.map (·.path) ∧
    ∀ n x, xs[n]? = some x → ∃ v ∈ vs, x = (b (s.executed.length + n)).execute v := by
  induction vs generalizing s with
  | nil => exact ⟨[], by simp⟩
  | cons v vs ih =>
    obtain ⟨hx, he⟩ := invoke_entries (b := b) (s := s) v
    obtain ⟨xs, hs, hes, hr, hp, hv⟩ := ih (s := invoke b s v)
    refine ⟨(b s.executed.length).execute v :: xs, ?_, ?_, ?_, ?_, ?_⟩
    · rw [foldl_cons, hs, hx, append_assoc, singleton_append]
    · rw [foldl_cons, hes, he, append_assoc]
      rfl
    · exact congrArg (v.request :: ·) hr
    · exact congrArg (v.path :: ·) hp
    · rintro (_ | n) x hn
      · cases hn
        exact ⟨v, mem_cons_self, rfl⟩
      · obtain ⟨u, hu, rfl⟩ := hv n x hn
        refine ⟨u, mem_cons_of_mem v hu, ?_⟩
        rw [hx, length_append, length_singleton, Nat.add_right_comm, Nat.add_assoc]

theorem execute_answers (a : Invocation D) {v : Invoker} (hv : v.request.path = some v.path) :
    (a.execute v).entry.Answers v.request ∧
      ((a.execute v).committed → (a.execute v).entry.succeeded) ∧
      ((a.execute v).entry.succeeded →
        (a.execute v).committed ∨ ∃ c f, a.attempt = .error (.status .success c f)) := by
  simp only [Invocation.execute, Invocation.invokeCommand]
  split
  · next h => simp [h, InvokeData.ofStatus, InvokeData.Answers,
      InvokeData.succeeded, hv, Except.toBool]
  · next h =>
    simp [h, InvokeData.Answers, InvokeData.succeeded, Except.toBool]
    grind [InvokeRequest.path]
  · next f h =>
    have hs : (a.faultStatus f).1 = .success → ∃ c e, f = .status .success c e := by
      unfold Invocation.faultStatus
      grind
    simp [h, InvokeData.ofStatus, InvokeData.Answers, InvokeData.succeeded, hv, Except.toBool,
      -Bool.exists_bool]
    grind

theorem batch_invoke_answers_each (node : Node) (session : Session) (ip : CommandPath → String)
    (b : Nat → Invocation D) (rs : List InvokeRequest) :
    ((process node session ip b rs).1 ≠ none → (process node session ip b rs).2.executed = []) ∧
    ((process node session ip b rs).1 = none → (∀ r ∈ rs, r.path ≠ none) →
      Answered b rs (process node session ip b rs).2) := by
  have hx : (registerAll node session ip (1 < rs.length)
      ({} : CommandInvokeResponse D) rs).2.executed = [] := registerAll_executed
  unfold process
  split
  · next h => exact ⟨fun _ => by simpa [h] using hx, fun h => by cases h⟩
  · next s h =>
    refine ⟨fun h => absurd rfl h, fun _ hr => ?_⟩
    have hi : Registered [] ({} : CommandInvokeResponse D) :=
      ⟨rfl, rfl, nodup_nil, .slnil, by simp, [], by simp⟩
    have hs : Registered rs s := hi.registerAll hr h
    obtain ⟨l, hc, hl, ha⟩ := hs.refused
    obtain ⟨xs, hxs, he, hq, hp, hv⟩ := invoke_run (b := b) (s := s) s.invokers
    replace hx : s.executed = [] := by simpa [h] using hx
    replace hxs : (s.invokers.foldl (invoke b) s).flush.executed = xs := by
      simpa [hx, flush] using hxs
    refine ⟨l, ?_, ?_, ha, ?_, ?_, ?_⟩
    · simpa [hxs, hq] using hl
    · rw [flush_emitted, he, hxs, entries, hs.emitted, hc]
      rfl
    · intro n x hn
      obtain ⟨v, hv, rfl⟩ := hv n x (hxs ▸ hn)
      rw [hx, length_nil, Nat.zero_add]
      exact execute_answers (b n) (hs.own v hv)
    · simpa [hxs, hp, ← hs.paths] using hs.order
    · exact hs.paths ▸ hs.nodup

/-- The process of one request to the only command of a node, whose handler does `h`. -/
private def singleInvoke (h : Except InvokeFault Unit) :
    Option String × CommandInvokeResponse Nat :=
  let limits : Limits := ⟨true, .view, true, .operate, false, false, false, false⟩
  let cluster : Cluster := ⟨6, 0, [], [⟨2, limits, 2⟩], by decide, by decide⟩
  process ⟨1, [⟨1, 0, [cluster], by decide⟩], by decide⟩
    ⟨true, fun _ _ _ => .granted, by simp, by simp, 1, false, false, none⟩ (fun _ => "on")
    (fun _ => { handler := h }) [⟨some 1, some 6, some 2, none⟩]

theorem batch_invoke_answers_each_single : (singleInvoke (.ok ())).1 = none ∧
    Answered (fun _ => {}) [⟨some 1, some 6, some 2, none⟩] (singleInvoke (.ok ())).2 :=
  ⟨by decide, (batch_invoke_answers_each _ _ _ _ _).2 (by decide) (by decide)⟩

/-- A handler may throw the code `Success`. Its transaction is rolled back, not committed. -/
theorem thrown_success_is_not_committed :
    (singleInvoke (.error (.status .success none false))).2.executed.map
      (fun x => (x.entry.succeeded, x.committed)) = [(true, false)] := by
  decide

end CommandInvokeResponse

end MatterJs.Action
