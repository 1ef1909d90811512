import MatterJs.Interaction.ChunkBoundaries

/-!
# A report read message by message

When the messages of a report give the same values as the report read at once.
-/
namespace MatterJs.Interaction

open MatterJs.Tlv AttributeReport AttributeData List Gen

namespace AttributeReport

variable (entry : AttributeReport)

/-- The path of the data or of the status of a report. -/
def path? : Option AttributePath :=
  (entry.attributeData.map path) <|> entry.attributeStatus.map AttributeStatus.path

def compressed : Bool := entry.path?.any AttributePath.compressed

/-- A report whose path is given in full. -/
def complete : Bool :=
  entry.path?.any (fun path => !path.compressed && path.endpointId.isSome &&
    path.clusterId.isSome && path.attributeId.isSome)

/-- Compressed data without a version of its own. -/
def inheritsVersion : Bool :=
  entry.attributeData.any (fun data => data.path.compressed && data.dataVersion.isNone)

end AttributeReport

variable (m : List AttributeReport)

/-- Every compressed path of a message comes after a full one of the same message. -/
def selfContained : Bool :=
  (m.takeWhile (fun entry => !entry.complete)).all (fun entry => !entry.compressed)

/-- Every version that is inherited in a message is that of data of the same message. -/
def ownVersions : Bool :=
  (m.takeWhile (fun entry => !(entry.attributeData.isSome && entry.complete))).all
    (fun entry => !entry.inheritsVersion)

/-- The reports left over start with a full path, and the message read after them has all
versions it inherits from itself. -/
def resumable (leftover m : List AttributeReport) : Bool :=
  leftover.head?.all (fun entry => !entry.compressed) &&
    (leftover.isEmpty || ownVersions m)

/-- Data that cannot go on in the next message is not followed there by data of the same
attribute. -/
def Separated : List (List AttributeReport) → Prop
  | [] => True
  | m :: messages =>
    (∀ path d d', (resolved m).getLast? = some (.data path d) →
      mayContinueInNextReport d = false →
      (messages.flatMap resolved).head? ≠ some (.data path d')) ∧ Separated messages

/-- Every message is resumable after what the messages before it left over. -/
def ResumableAll (attributeSchemaOf : Nat → Nat → Option Schema) :
    List AttributeReport → List (List AttributeReport) → Prop
  | _, [] => True
  | leftover, m :: messages =>
    resumable leftover m ∧
      match (emitAttributes attributeSchemaOf ⟨some m, true⟩ (some leftover)).result with
      | .ok left => ResumableAll attributeSchemaOf (left.getD []) messages
      | .error _ => True

section Resolution

variable {n : AttributeReport}

theorem compressed_of_complete (h : n.complete) : n.compressed = false := by
  obtain ⟨path, hp, hf⟩ := (Option.any_eq_true ..).mp h
  simp only [Bool.and_eq_true, Bool.not_eq_true'] at hf
  simp [compressed, hp, hf.1.1.1]

/-- An entry with a full path resolves to the same after any two last paths. -/
theorem resolve_uncompressed (hc : n.compressed = false) (a l' : Option LastPath) :
    (resolve a n = none ∧ resolve l' n = none ∧ n.complete = false) ∨ ∃ r next n', resolve a n =
    some (r, next) ∧ resolve l' n = some (r, n') ∧ next.map LastPath.path = n'.map LastPath.path ∧
    n.complete ∧ (n.attributeData.isSome → next = n') := by
  obtain ⟨st, data⟩ := n
  have split : ∀ path : AttributePath, path.compressed = false →
      ((∀ l, ∃ e, resolvePath path l = .error e) ∧ (path.endpointId.isSome &&
        path.clusterId.isSome && path.attributeId.isSome) = false) ∨
      ∃ r, (∀ l, resolvePath path l = .ok (path, r)) ∧ (path.endpointId.isSome &&
        path.clusterId.isSome && path.attributeId.isSome) := by
    intro path hp
    cases he : path.endpointId <;> cases hl : path.clusterId <;> cases ha : path.attributeId <;>
      simp [resolvePath, hp, he, hl, ha]
  cases data with
  | some data =>
    have hp : data.path.compressed = false := by
      simpa [compressed, path?] using hc
    rcases split data.path hp with ⟨herr, hi⟩ | ⟨r, ho, hm⟩
    · obtain ⟨e, he⟩ := herr a
      obtain ⟨e', he'⟩ := herr l'
      left
      simp [resolve, he, he', complete, path?, hp] at hi ⊢
      exact hi
    · right
      refine ⟨_, _, _, by simp only [resolve, ho a, inheritVersion, hp]; rfl,
        by simp [resolve, ho l', inheritVersion, hp]; rfl, ?_, ?_, ?_⟩
      · rfl
      · simpa [complete, path?, hp] using hm
      · exact fun _ => rfl
  | none =>
    cases st with
    | none => exact .inl ⟨rfl, rfl, rfl⟩
    | some st =>
      have hp : st.path.compressed = false := by
        simpa [compressed, path?] using hc
      rcases split st.path hp with ⟨herr, hi⟩ | ⟨r, ho, hm⟩
      · obtain ⟨e, he⟩ := herr a
        obtain ⟨e', he'⟩ := herr l'
        left
        simp [resolve, he, he', complete, path?, hp]
          at hi ⊢
        exact hi
      · right
        refine ⟨_, _, _, by simp only [resolve, ho a, hp]; rfl,
          by simp [resolve, ho l', hp]; rfl, ?_, ?_, ?_⟩
        · rfl
        · simpa [complete, path?, hp] using hm
        · intro h; cases h

/-- An entry that inherits no version resolves to the same after two last paths that differ only
in their versions. -/
theorem resolve_compressed {a ls : Option LastPath} (hc : n.compressed)
    (hv : n.inheritsVersion = false) (hl : a.map LastPath.path = ls.map LastPath.path) :
    (resolve a n = none ∧ resolve ls n = none) ∨ ∃ r, resolve a n = some (r, a) ∧ resolve ls n =
    some (r, ls) := by
  have ht : ∀ path : AttributePath, path.compressed →
      resolvePath path a = resolvePath path ls := by
    cases a <;> cases ls <;> simp_all [resolvePath]
  have hkp : ∀ {path p' : AttributePath} {r}, path.compressed →
      resolvePath path ls = .ok (p', r) → p'.compressed :=
    fun hp h => (resolvePath_again h).2.trans hp
  obtain ⟨s, data⟩ := n
  cases data with
  | some data =>
    have hp : data.path.compressed := by
      simpa [compressed, path?] using hc
    have hvr : ∀ l, inheritVersion data l = data.dataVersion := by
      obtain ⟨v, hv⟩ : ∃ v, data.dataVersion = some v := by
        simpa [inheritsVersion, hp, Option.isSome_iff_exists] using hv
      simp [inheritVersion, hv]
    simp only [resolve, ht _ hp, hvr]
    cases h : resolvePath data.path ls with
    | error e => exact .inl ⟨rfl, rfl⟩
    | ok r => exact .inr ⟨_, by simp [hkp hp h]; rfl, by simp [hkp hp h]⟩
  | none =>
    cases s with
    | none => exact .inl ⟨rfl, rfl⟩
    | some s =>
      have hp : s.path.compressed := by
        simpa [compressed, path?] using hc
      simp only [resolve, ht _ hp]
      cases h : resolvePath s.path ls with
      | error e => exact .inl ⟨rfl, rfl⟩
      | ok r => exact .inr ⟨_, by simp [hkp hp h]; rfl, by simp [hkp hp h]⟩

/-- Where all versions are a message's own, the version of the last path before it does not
matter. -/
theorem resolveAll_of_ownVersions {m : List AttributeReport} {a l' : Option LastPath}
    (hv : ownVersions m) (hl : a.map LastPath.path = l'.map LastPath.path) :
    (resolveAll a m).1 = (resolveAll l' m).1 := by
  induction m generalizing a l' with
  | nil => rfl
  | cons n m ih =>
    simp only [ownVersions, takeWhile_cons] at hv
    cases hc : n.compressed with
    | true =>
      have hi : n.complete = false := by
        by_contra hm
        simp [compressed_of_complete (Bool.eq_true_of_not_eq_false hm)] at hc
      simp only [hi, Bool.and_false, if_true, all_cons, Bool.and_eq_true, Bool.not_eq_true'] at hv
      rcases resolve_compressed hc hv.1 hl with ⟨h, h'⟩ | ⟨r, h, h'⟩
      · simpa [resolveAll, h, h'] using ih hv.2 hl
      · simp [resolveAll, h, h', ih hv.2 hl]
    | false =>
      rcases resolve_uncompressed hc a l' with
        ⟨h, h', hi⟩ | ⟨r, next, next', h, h', hn, hm, ht⟩
      · simp only [hi, Bool.and_false, Bool.not_false, if_true, all_cons, Bool.and_eq_true] at hv
        simpa only [resolveAll, h, h'] using ih hv.2 hl
      · simp only [resolveAll, h, h']
        cases hd : n.attributeData.isSome with
        | true => rw [ht hd]
        | false =>
          simp only [hd, Bool.false_and, Bool.not_false, if_true, all_cons, Bool.and_eq_true] at hv
          rw [ih hv.2 hn]

/-- A message that is self-contained resolves as it does on its own, whatever is read before. -/
theorem resolveAll_of_selfContained {m : List AttributeReport} (hs : selfContained m)
    (hv : ownVersions m) (a : Option LastPath) : (resolveAll a m).1 = resolved m := by
  unfold resolved
  induction m with
  | nil => rfl
  | cons n m ih =>
    simp only [selfContained, takeWhile_cons] at hs
    have hc : n.compressed = false := by
      cases hm : n.complete with
      | true => exact compressed_of_complete hm
      | false =>
        simp only [hm, if_true, all_cons, Bool.and_eq_true, Bool.not_eq_true'] at hs
        exact hs.1
    rcases resolve_uncompressed hc a none with
      ⟨h, h', hi⟩ | ⟨r, next, next', h, h', hn, hm, ht⟩
    · simp only [hi, Bool.not_false, if_true, all_cons, Bool.and_eq_true] at hs
      simp only [ownVersions, takeWhile_cons, hi, Bool.and_false, Bool.not_false,
        if_true, all_cons, Bool.and_eq_true] at hv
      simpa [resolveAll, h, h'] using ih hs.2 hv.2
    · simp only [resolveAll, h, h']
      cases hd : n.attributeData.isSome with
      | true => rw [ht hd]
      | false =>
        simp only [ownVersions, takeWhile_cons, hd, Bool.false_and, Bool.not_false, if_true,
          all_cons, Bool.and_eq_true] at hv
        rw [resolveAll_of_ownVersions hv.2 hn]

end Resolution

variable {o : Nat → Nat → Option Schema}

section Messages

theorem emitAttributes_eq (m l : List AttributeReport) (b : Bool) :
    emitAttributes o ⟨some m, b⟩ (some l) =
      ((l ++ m).foldlM (emitEntry o) ⟨none, none⟩ >>= fun s =>
        finishReport o ⟨some m, b⟩ true s.group >>= fun left => pure (some left)) := by
  unfold emitAttributes
  simp only [Option.getD_some]
  split
  case isTrue h =>
    rw [List.isEmpty_iff] at h
    obtain ⟨rfl, -⟩ := List.append_eq_nil_iff.mp h
    rw [h]
    rfl
  case isFalse => rfl

theorem readGroups_append (gr : Option AttributeDataGroup) (x ys : List Resolved) :
    readGroups o gr (x ++ ys) = x.foldlM (absorb o) gr >>= fun gr => readGroups o gr ys := by
  simp [readGroups]

variable (o) in
/-- The state after the reports left over, from which the next message is read. -/
structure Resumes (leftover : List AttributeReport) (s : EmitState) : Prop where
  fold : leftover.foldlM (emitEntry o) ⟨none, none⟩ = pure s
  mayContinue : ∀ g, s.group = some g → g.entries.getLast?.any mayContinueInNextReport
  fresh : leftover = [] → s.lastPath = none

theorem resumes_nil : Resumes o [] ⟨none, none⟩ where
  fold := rfl
  mayContinue := by rintro _ ⟨⟩
  fresh := fun _ => rfl

variable {s : EmitState} {g : AttributeDataGroup}

theorem resumes_left (hs : s.Replays o)
    (hg : s.group = some g) (hl : g.entries.getLast?.any mayContinueInNextReport)
    (hc : headUncompressed g.entries) :
    Resumes o (g.entries.map .ofData) s where
  fold := replay hs hg hc
  mayContinue := by
    rintro _ hg'
    obtain rfl := Option.mem_unique hg hg'
    exact hl
  fresh h := absurd (map_eq_nil_iff.mp h) (hs.entries g hg)

theorem headUncompressed_of_resumable {m : List AttributeReport}
    (h : resumable (g.entries.map .ofData) m) : headUncompressed g.entries := by
  simp only [resumable, Bool.and_eq_true, head?_map] at h
  cases he : g.entries with
  | nil => rfl
  | cons d s =>
    simpa [headUncompressed, he, compressed, path?, ofData] using h.1

/-- Read after what is left over, a message gives its own entries to the open group. -/
theorem fold_message {l m : List AttributeReport}
    (hs : Resumes o l s) (hl : selfContained m) (he : resumable l m) :
    (l ++ m).foldlM (emitEntry o) ⟨none, none⟩ =
      (resolved m).foldlM (absorb o) s.group >>= fun gr =>
        pure ⟨(resolveAll s.lastPath m).2, gr⟩ := by
  have hm : (resolveAll s.lastPath m).1 = resolved m := by
    cases l with
    | nil => rw [hs.fresh rfl]; rfl
    | cons entry n =>
      simp only [resumable, Bool.and_eq_true] at he
      exact resolveAll_of_selfContained hl he.2 _
  rw [foldlM_append, hs.fold, pure_bind, foldlM_emitEntry, hm]

theorem replays_fold {e : List AttributeReport}
    (h : (e.foldlM (emitEntry o) ⟨none, none⟩).result = .ok s) : s.Replays o :=
  foldlM_invariant replays_emitEntry (by constructor <;> rintro _ ⟨⟩) h

/-- The messages of a report read as the groups of all their entries. -/
theorem inputChunks_eq_readGroups {ms : List (List AttributeReport)} {l : List AttributeReport}
    (hne : ms ≠ []) (hs : Resumes o l s) (hsl : ∀ m ∈ ms, selfContained m)
    (hp : Separated ms) (hres : ResumableAll o l ms) :
    inputChunks o l ms = readGroups o s.group (ms.flatMap resolved) := by
  induction ms generalizing l s with
  | nil => exact absurd rfl hne
  | cons m ms ih =>
    have ho := fold_message hs (hsl m mem_cons_self) hres.1
    rw [flatMap_cons, readGroups_append]
    cases ms with
    | nil =>
      simp only [inputChunks, emitAttributes_eq, ho, bind_assoc, pure_bind]
      apply andThen_congr
      intro gr _
      cases gr with
      | none => rfl
      | some g => simp [finishReport, readGroups, flushOpen]
    | cons next rest =>
      have hs' : ∀ m ∈ next :: rest, selfContained m :=
        fun m hm => hsl m (mem_cons_of_mem _ hm)
      simp only [inputChunks, emitAttributes_eq, ho, bind_assoc, pure_bind]
      apply andThen_congr
      intro gr hg
      have ht : ((l ++ m).foldlM (emitEntry o) ⟨none, none⟩).result
          = .ok ⟨(resolveAll s.lastPath m).2, gr⟩ := by
        rw [ho, result_andThen_ok hg]
        rfl
      have hr := replays_fold ht
      -- what the rest of the run assumes, by what this message leaves over
      have hlf : ∀ left, (finishReport o ⟨some m, true⟩ true gr).result =
          .ok left → ResumableAll o left (next :: rest) := by
        intro left hf
        have hrs : (emitAttributes o ⟨some m, true⟩ (some l)).result = .ok (some left) := by
          rw [emitAttributes_eq, result_andThen_ok ht, result_andThen_ok hf]
          rfl
        have := hres.2
        rw [hrs] at this
        exact this
      cases gr with
      | none => exact ih (by simp) resumes_nil hs' hp.2 (hlf [] rfl)
      | some g =>
        by_cases hl : g.entries.getLast?.any mayContinueInNextReport
        · have hf : finishReport o ⟨some m, true⟩ true (some g) =
              pure (g.entries.map .ofData) := by simp [finishReport, hl]
          have hre := hlf _ (by rw [hf]; rfl)
          rw [hf, pure_bind]
          exact ih (by simp) (resumes_left hr rfl hl
            (headUncompressed_of_resumable hre.1)) hs' hp.2 hre
        · have hf : finishReport o ⟨some m, true⟩ true (some g) =
              flushDataGroup o g >>= fun _ => pure [] := by
            simp [finishReport, hl]
          have hc : ∀ d, ((next :: rest).flatMap resolved).head? ≠ some (.data g.path d) := by
            -- a message without entries would leave the group as it was left over
            have he : resolved m ≠ [] := by
              intro hn
              rw [hn] at hg
              exact hl (hs.mayContinue g (Except.ok.inj hg))
            obtain ⟨d, hd, hgd⟩ := last_entry he hg
            intro d'
            exact hp.1 g.path d d' hd (by simpa [hgd] using hl)
          rw [hf, bind_assoc, readGroups_flush hc]
          apply andThen_congr
          intro _ hfl
          exact ih (by simp) resumes_nil hs' hp.2
            (hlf [] (by rw [hf, result_andThen_ok hfl]; rfl))

end Messages

section Uncompressed

/-- A full path and no tag compression. -/
def AttributeData.plain (path : ResolvedAttributePath) (d : AttributeData) : AttributeData :=
  { d with path := { d.path.fill path with enableTagCompression := none } }

def AttributeDataGroup.plain (g : AttributeDataGroup) : AttributeDataGroup :=
  { g with entries := g.entries.map (AttributeData.plain g.path) }

def Resolved.plain : Resolved → Resolved
  | .data path d => .data path (d.plain path)
  | .status path s =>
    .status path { s with path := { s.path.fill path with enableTagCompression := none } }

variable (a : Option LastPath)

theorem resolve_report (r : Resolved) :
    ∃ next, resolve a r.uncompressed = some (r.plain, next) := by
  cases r <;> exact ⟨_, rfl⟩

theorem resolved_uncompressed (rs : List Resolved) :
    (resolveAll a (rs.map Resolved.uncompressed)).1 = rs.map Resolved.plain := by
  induction rs generalizing a with
  | nil => rfl
  | cons r rs ih =>
    obtain ⟨next, h⟩ := resolve_report a r
    simp [resolveAll, h, ih]

variable {f : AttributeData → AttributeData}

/-- Of its entries, an attribute's value depends on the list indices, the data and the versions
only. -/
theorem decodeUnknown_map (hf : ∀ d, (f d).chunk = d.chunk) (va : List AttributeData) :
    decodeUnknownAttributeValue (va.map f) = decodeUnknownAttributeValue va := by
  have hc : (va.map f).map chunk = va.map chunk := by
    simp [hf]
  rcases va with _ | ⟨d, _ | ⟨d', s⟩⟩
  · rfl
  · have h := hf d
    simp only [map_cons, map_nil] at hc ⊢
    generalize f d = e at h hc ⊢
    obtain ⟨v, path, data⟩ := d
    obtain ⟨v', path', data'⟩ := e
    simp only [chunk, ArrayChunk.mk.injEq] at h
    obtain ⟨hi, rfl⟩ := h
    obtain ⟨_, _, _, _, _, index, _, _⟩ := path
    obtain ⟨_, _, _, _, _, i', _, _⟩ := path'
    obtain rfl : i' = index := hi
    cases i' <;> rfl
  · have hl : ∀ d d' s, decodeUnknownAttributeValue (d :: d' :: s) =
        decodeUnknownChunks ((d :: d' :: s).map chunk) := by
      simp [decodeUnknownAttributeValue]
    simp only [map_cons, hl] at hc ⊢
    rw [hc]

theorem decodeAttributeValueWithSchema_map
    (hf : ∀ d, (f d).chunk = d.chunk) (hv : ∀ d, (f d).dataVersion = d.dataVersion)
    (o : TlvDecodingOptions) (s : Schema) (va : List AttributeData) :
    decodeAttributeValueWithSchema o s (va.map f) = decodeAttributeValueWithSchema o s va := by
  have hd : ∀ d, (f d).data = d.data := fun d => congrArg ArrayChunk.element (hf d)
  have hi : ∀ d, (f d).path.listIndex = d.path.listIndex :=
    fun d => congrArg ArrayChunk.listIndex (hf d)
  cases va with
  | nil => rfl
  | cons i rest =>
    have hc : ((i :: rest).map f).map chunk = (i :: rest).map chunk := by simp [hf]
    have hu := decodeUnknown_map hf (i :: rest)
    have ha : ((i :: rest).map f).any (·.path.listIndex.isSome) =
        (i :: rest).any (·.path.listIndex.isSome) := by
      simp [any_map, Function.comp_def, hi]
    have hs : ((i :: rest).map f).insertionSort
          (fun a b => b.dataVersion.getD 0 ≤ a.dataVersion.getD 0) = ((i :: rest).insertionSort
          (fun a b => b.dataVersion.getD 0 ≤ a.dataVersion.getD 0)).map f :=
      (map_insertionSort _ _ f _ (fun a _ b _ => by simp [hv])).symm
    rw [map_cons] at hc hu ha hs ⊢
    simp only [decodeAttributeValueWithSchema, hc, hu, ha, hs, hi, hd]
    cases (i :: rest).insertionSort
      (fun a b => b.dataVersion.getD 0 ≤ a.dataVersion.getD 0) <;> simp [hd]

variable (o) in
theorem flushDataGroup_plain (g : AttributeDataGroup) :
    flushDataGroup o g.plain = flushDataGroup o g := by
  have hc : ∀ d, (plain g.path d).chunk = d.chunk := fun d => rfl
  have hv : ∀ d, (plain g.path d).dataVersion = d.dataVersion := fun d => rfl
  have hd : decodeAttributeGroup o g.plain = decodeAttributeGroup o g := by
    simp [decodeAttributeGroup, AttributeDataGroup.plain, decodeUnknown_map hc,
      decodeAttributeValueWithSchema_map hc hv]
  simp [flushDataGroup, hd]

variable (gr : Option AttributeDataGroup)

theorem absorb_plain (r : Resolved) :
    absorb o (gr.map .plain) r.plain = absorb o gr r >>= fun gr => pure (gr.map .plain) := by
  cases r with
  | data path d =>
    cases gr with
    | none => rfl
    | some g =>
      by_cases h : samePath g.path path
      · obtain rfl := samePath_iff.mp h
        simp [absorb, flushOther, Resolved.plain, AttributeDataGroup.plain, h, addEntry,
          AttributeData.plain]
      · have hf := flushDataGroup_plain o g
        simp only [AttributeDataGroup.plain] at hf
        simp [absorb, flushOther, Resolved.plain, h, hf, addEntry, AttributeDataGroup.plain, plain]
  | status path s =>
    cases gr with
    | none => rfl
    | some g => simp [absorb, flushOpen, Resolved.plain, flushDataGroup_plain, buildAttrStatus]

theorem readGroups_plain (rs : List Resolved) :
    readGroups o (gr.map .plain) (rs.map .plain) = readGroups o gr rs := by
  induction rs generalizing gr with
  | nil =>
    cases gr with
    | none => rfl
    | some g => simp [readGroups, flushOpen, flushDataGroup_plain]
  | cons r rs ih =>
    have hc : ∀ g r rs, readGroups o g (r :: rs) = absorb o g r >>= fun g => readGroups o g rs :=
      fun g r rs => by simp [readGroups]
    simp [hc, absorb_plain, ih]

theorem inputChunks_single (m : List AttributeReport) :
    inputChunks o [] [m] = readGroups o none (resolved m) := by
  simp only [inputChunks, emitAttributes_eq, foldlM_emitEntry, bind_assoc, pure_bind]
  apply andThen_congr
  intro gr _
  cases gr with
  | none => rfl
  | some g => simp [finishReport, flushOpen]

/-- Where every message can be resumed after what is left over before it, and data that cannot
go on is not followed by more of it, the messages of a report give what the uncompressed sequence
gives in a single report. -/
theorem inputChunks_eq_single (messages : List (List AttributeReport))
    (hself : ∀ message ∈ messages, selfContained message = true) (hsep : Separated messages)
    (hres : ResumableAll o [] messages) :
    inputChunks o [] messages =
      inputChunks o [] [uncompressed messages] := by
  have hs : inputChunks o [] [uncompressed messages] =
      readGroups o none (messages.flatMap resolved) := by
    rw [inputChunks_single, resolved, uncompressed, resolved_uncompressed]
    exact readGroups_plain none _
  rw [hs]
  cases messages with
  | nil => rfl
  | cons message messages =>
    exact inputChunks_eq_readGroups (by simp) resumes_nil hself hsep hres

/-- A number and a list of one cluster. The list starts in the first message, with the given path,
and goes on in the second. -/
def listOverMessages (listPath : AttributePath) : List (List AttributeReport) :=
  let path : AttributePath := { endpointId := some 1, clusterId := some 6 }
  [[.ofData ⟨some 5, { path with attributeId := some 0 },
      [⟨none, .unsignedInt .oneByte, some (.int 3)⟩]⟩,
    .ofData ⟨some 5, listPath, [⟨none, .array, none⟩, ⟨none, .endOfContainer, none⟩]⟩],
   [.ofData ⟨some 5, { path with attributeId := some 1, listIndex := some none },
      [⟨none, .unsignedInt .oneByte, some (.int 4)⟩]⟩]]

def fullListPath : AttributePath :=
  { endpointId := some 1, clusterId := some 6, attributeId := some 1 }

def compressedListPath : AttributePath :=
  { enableTagCompression := some true, attributeId := some 1 }

/-- A list that starts with a full path is read over two messages as in one. -/
theorem inputChunks_fullListPath :
    inputChunks (fun _ _ => none) [] (listOverMessages fullListPath) =
      inputChunks (fun _ _ => none) [] [uncompressed (listOverMessages fullListPath)] := by
  apply inputChunks_eq_single
  · decide
  · refine ⟨?_, ?_, trivial⟩
    · intro path d d' hl hd
      obtain ⟨rfl, rfl⟩ := Resolved.data.inj (Option.some.inj hl)
      cases hd
    · intro path d d' _ _ h
      cases h
  · exact ⟨by decide, by decide, trivial⟩

/-- With a compressed path it is left over, but not read again: the list is lost. -/
theorem inputChunks_compressedListPath :
    (∀ message ∈ listOverMessages compressedListPath, selfContained message = true) ∧
      uncompressed (listOverMessages compressedListPath) =
        uncompressed (listOverMessages fullListPath) ∧
      (inputChunks (fun _ _ => none) [] (listOverMessages compressedListPath)).yielded =
        [.attributeValue ⟨none, 1, 6, 0⟩ (.int 3) 5] ∧ (inputChunks (fun _ _ => none) []
          [uncompressed (listOverMessages compressedListPath)]).yielded =
        [.attributeValue ⟨none, 1, 6, 0⟩ (.int 3) 5,
          .attributeValue ⟨none, 1, 6, 1⟩ (.array [.int 4]) 5] :=
  ⟨by decide, rfl, rfl, rfl⟩

end Uncompressed

end MatterJs.Interaction
