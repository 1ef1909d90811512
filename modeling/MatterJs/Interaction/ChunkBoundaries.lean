import MatterJs.Interaction.InputChunk

/-!
# Message boundaries of a report

Reading an entry is resolving its path and adding what was resolved to the open group.
The first needs only the last path and the second only the group, so a report reads as
the groups of its resolved entries. Where the entries left over by one message resolve
again to themselves, cutting a report into messages changes nothing.
-/
namespace MatterJs.Interaction

open MatterJs.Tlv List AttributeReport

/-- An entry with the path it stands for. -/
inductive Resolved
  | data (path : ResolvedAttributePath) (data : AttributeData)
  | status (path : ResolvedAttributePath) (status : AttributeStatus)

/-- What an entry resolves to and the last path after it; nothing if the entry is skipped. -/
def resolve (lastPath : Option LastPath) (entry : AttributeReport) :
    Option (Resolved × Option LastPath) :=
  match entry.attributeData, entry.attributeStatus with
  | some data, _ =>
    match resolvePath data.path lastPath with
    | .error _ => none
    | .ok (path, resolved) =>
      let version := inheritVersion data lastPath
      some (.data resolved ⟨version, path, data.data⟩,
        if path.compressed then lastPath else some ⟨resolved, version⟩)
  | none, some status =>
    match resolvePath status.path lastPath with
    | .error _ => none
    | .ok (path, resolved) =>
      some (.status resolved status,
        if path.compressed then lastPath
        else some ⟨resolved, lastPath.bind LastPath.dataVersion⟩)
  | none, none => none

def resolveAll : Option LastPath → List AttributeReport → List Resolved × Option LastPath
  | lastPath, [] => ([], lastPath)
  | lastPath, entry :: entries =>
    match resolve lastPath entry with
    | none => resolveAll lastPath entries
    | some (r, next) => (r :: (resolveAll next entries).1, (resolveAll next entries).2)

/-- The entries of a message, resolved on their own. -/
def resolved (message : List AttributeReport) : List Resolved := (resolveAll none message).1

/-- The report in full: all ids in the path and no tag compression. -/
def Resolved.uncompressed : Resolved → AttributeReport
  | .data path d =>
    ⟨none, some { d with path := { d.path.fill path with enableTagCompression := none } }⟩
  | .status path s =>
    ⟨some { s with path := { s.path.fill path with enableTagCompression := none } }, none⟩

/-- The uncompressed sequence of the reports in some messages. -/
def uncompressed (messages : List (List AttributeReport)) : List AttributeReport :=
  (messages.flatMap resolved).map Resolved.uncompressed

theorem samePath_iff {a b : ResolvedAttributePath} : samePath a b ↔ a = b := by
  obtain ⟨n, e, c, i⟩ := a
  obtain ⟨n', e', c', i'⟩ := b
  simp [samePath, and_assoc]

theorem resolveAll_append (l : Option LastPath) (s y : List AttributeReport) :
    resolveAll l (s ++ y) = ((resolveAll l s).1 ++ (resolveAll (resolveAll l s).2 y).1,
        (resolveAll (resolveAll l s).2 y).2) := by
  induction s generalizing l with
  | nil => rfl
  | cons x s ih =>
    simp only [cons_append, resolveAll]
    cases resolve l x with
    | none => exact ih l
    | some r => simp [ih r.2]

section

variable (o : Nat → Nat → Option Schema) (a : Option AttributeDataGroup)

/-- Adds a resolved entry to the open group. -/
def absorb : Resolved → Gen TlvError Report (Option AttributeDataGroup)
  | .data path data => do
    let group ← flushOther o a path
    return some (addEntry group path data)
  | .status path status => do
    flushOpen o a
    Gen.yield (buildAttrStatus path status)
    return none

/-- The groups of a sequence of entries, the last of them flushed at the end. -/
def readGroups (entries : List Resolved) :
    Gen TlvError Report Unit :=
  entries.foldlM (absorb o) a >>= flushOpen o

variable {o}

theorem emitEntry_eq (s : EmitState) (n : AttributeReport) :
    emitEntry o s n =
      match resolve s.lastPath n with
      | none => pure s
      | some (r, l) => absorb o s.group r >>=
          fun group => pure ⟨l, group⟩ := by
  have skipped : ∀ (p : AttributePath) (e : TlvError), resolvePath p s.lastPath = .error e →
      (accept e >>= fun _ => pure s) = pure s := by
    intro p e h
    unfold resolvePath at h
    split at h
    · split at h <;> cases h
      rfl
    · split at h <;> cases h
      rfl
  unfold emitEntry resolve
  cases n.attributeData with
  | some data =>
    cases h : resolvePath data.path s.lastPath with
    | error e => simpa [h] using skipped _ e h
    | ok r => simp [h, absorb]
  | none =>
    cases n.attributeStatus with
    | none => rfl
    | some t =>
      cases h : resolvePath t.path s.lastPath with
      | error e => simpa [h] using skipped _ e h
      | ok r => simp [h, absorb]

/-- The loop over the entries resolves them all and reads the groups of what they resolve to. -/
theorem foldlM_emitEntry (s : EmitState) (e : List AttributeReport) :
    e.foldlM (emitEntry o) s =
      (resolveAll s.lastPath e).1.foldlM (absorb o) s.group >>=
        fun group => pure ⟨(resolveAll s.lastPath e).2, group⟩ := by
  induction e generalizing s with
  | nil => rfl
  | cons n e ih =>
    rw [foldlM_cons, emitEntry_eq]
    simp only [resolveAll]
    cases resolve s.lastPath n with
    | none => simpa using ih s
    | some r => simp [ih]

variable {a} {gr' : Option AttributeDataGroup} {lp lp' : Option LastPath}
  {p : ResolvedAttributePath} {g : AttributeDataGroup} {n : AttributeReport}
  {d : AttributeData} {rs : List Resolved}

theorem absorb_data {data : AttributeData}
    (h : (absorb o a (.data p data)).result = .ok gr') :
    gr' = some (addEntry none p data) ∨
      ∃ g, a = some g ∧ g.path = p ∧ gr' = some (addEntry (some g) p data) := by
  obtain ⟨open', ho, hn⟩ := Gen.result_andThen h
  obtain rfl : some (addEntry open' p data) = gr' := Except.ok.inj hn
  cases a with
  | none =>
    obtain rfl : none = open' := Except.ok.inj ho
    exact .inl rfl
  | some g =>
    simp only [flushOther] at ho
    split at ho
    case isTrue same =>
      obtain rfl : some g = open' := Except.ok.inj ho
      exact .inr ⟨g, rfl, samePath_iff.mp same, rfl⟩
    case isFalse =>
      obtain ⟨_, _, hnn⟩ := Gen.result_andThen ho
      obtain rfl : none = open' := Except.ok.inj hnn
      exact .inl rfl

theorem absorb_status {s : AttributeStatus}
    (h : (absorb o a (.status p s)).result = .ok gr') : gr' = none := by
  obtain ⟨_, _, h⟩ := Gen.result_andThen h
  exact (Except.ok.inj h).symm

/-- The last entry of the group that is open is the last that was read. -/
theorem last_entry (hs : rs ≠ [])
    (h : (rs.foldlM (absorb o) a).result = .ok (some g)) :
    ∃ d, rs.getLast? = some (.data g.path d) ∧ g.entries.getLast? = some d := by
  obtain ⟨rs, r, rfl⟩ := eq_nil_or_concat rs |>.resolve_left hs
  rw [concat_eq_append, foldlM_append] at h
  obtain ⟨m, -, h⟩ := Gen.result_andThen h
  obtain ⟨last, hl, h⟩ := Gen.result_andThen h
  obtain rfl : last = some g := Except.ok.inj h
  cases r with
  | data p d =>
    refine ⟨d, ?_, ?_⟩ <;> rcases absorb_data hl with he | ⟨g', rfl, rfl, he⟩ <;>
      obtain rfl := Option.some.inj he <;> simp [addEntry]
  | status p s => cases absorb_status hl

/-- A completed path stands for the same ids after the same last path. -/
theorem resolvePath_again {p p' : AttributePath}
    {r : ResolvedAttributePath} (h : resolvePath p lp = .ok (p', r)) :
    resolvePath p' lp = .ok (p', r) ∧ p'.compressed = p.compressed := by
  by_cases hc : p.compressed
  · cases lp with
    | none => simp [resolvePath, hc] at h
    | some last =>
      simp only [resolvePath, hc, if_true] at h
      cases h
      refine ⟨?_, rfl⟩
      have hf : ∀ r, (p.fill r).compressed := fun r => hc
      cases hn : p.nodeId <;> simp [resolvePath, hf] <;> simp [AttributePath.fill]
  · simp only [resolvePath, hc, Bool.false_eq_true, if_false] at h
    split at h
    case h_1 he hl ha =>
      cases h
      simp [resolvePath, hc, he, hl, ha]
    case h_2 => cases h

/-- A path in full does not depend on the last one. -/
theorem resolvePath_uncompressed {p : AttributePath} (hc : p.compressed = false)
    (last last' : Option LastPath) : resolvePath p last = resolvePath p last' := by
  simp [resolvePath, hc]

/-- A resolved entry resolves to itself after the same last path. -/
theorem resolve_again (h : resolve lp n = some (.data p d, lp')) :
    resolve lp (.ofData d) = some (.data p d, lp') := by
  obtain ⟨s, _ | data⟩ := n
  · cases s with
    | none => cases h
    | some s =>
      simp only [resolve] at h
      split at h <;> simp at h
  · cases hp : resolvePath data.path lp with
    | error e => simp [resolve, hp] at h
    | ok r =>
      obtain ⟨ha, hc⟩ := resolvePath_again hp
      simp only [resolve, hp] at h
      obtain ⟨⟨rfl, rfl⟩, rfl⟩ := h
      have hv : inheritVersion ⟨inheritVersion data lp, r.1, data.data⟩ lp =
          inheritVersion data lp := by
        simp only [inheritVersion, hc]
        split
        · cases data.dataVersion <;> simp
        · rfl
      simp [resolve, ofData, ha, hv]

theorem resolve_uncompressed_again
    (h : resolve lp n = some (.data p d, lp')) (hc : d.path.compressed = false)
    (l : Option LastPath) : resolve l (.ofData d) = some (.data p d, lp') := by
  rw [← resolve_again h]
  simp only [resolve, ofData, resolvePath_uncompressed hc l lp]
  cases hp : resolvePath d.path lp with
  | error e => rfl
  | ok r => simp [(resolvePath_again hp).2, hc, inheritVersion]

/-- The first entry of a list has its path in full. -/
def headUncompressed (entries : List AttributeData) : Bool :=
  entries.head?.all (fun d => !d.path.compressed)

variable (o) in
/-- The open group is what its entries alone lead to, and if the first has a full path, so is
the last path. -/
structure EmitState.Replays (s : EmitState) : Prop where
  entries : ∀ g, s.group = some g → g.entries ≠ []
  group : ∀ g, s.group = some g →
    (g.entries.map (Resolved.data g.path)).foldlM (absorb o) none = pure (some g)
  lastPath : ∀ g, s.group = some g → headUncompressed g.entries →
    resolveAll none (g.entries.map .ofData) = (g.entries.map (Resolved.data g.path), s.lastPath)

theorem replays_new (h : resolve lp n = some (.data p d, lp')) :
    EmitState.Replays o ⟨lp', some (addEntry none p d)⟩ where
  entries := by rintro _ ⟨⟩; simp [addEntry]
  group := by rintro _ ⟨⟩; rfl
  lastPath := by
    rintro _ ⟨⟩ hc
    have hc : d.path.compressed = false := by simpa [headUncompressed, addEntry] using hc
    simp [addEntry, resolveAll, resolve_uncompressed_again h hc none]

theorem replays_add (hs : EmitState.Replays o ⟨lp, some g⟩)
    (h : resolve lp n = some (.data g.path d, lp')) :
    EmitState.Replays o ⟨lp', some (addEntry (some g) g.path d)⟩ where
  entries := by rintro _ ⟨⟩; simp [addEntry]
  group := by
    rintro _ ⟨⟩
    have same : samePath g.path g.path := samePath_iff.mpr rfl
    simp only [addEntry, map_append, foldlM_append, hs.group g rfl]
    simp [absorb, flushOther, same, addEntry]
  lastPath := by
    rintro _ ⟨⟩ hc
    have hh : headUncompressed g.entries := by
      obtain ⟨first, rest, he⟩ := exists_cons_of_ne_nil (hs.entries g rfl)
      simpa [headUncompressed, addEntry, he] using hc
    simp [addEntry, resolveAll_append, hs.lastPath g rfl hh, resolveAll, resolve_again h]

theorem replays_emitEntry (s : EmitState) (n : AttributeReport) (t : EmitState)
    (hs : s.Replays o)
    (h : (emitEntry o s n).result = .ok t) : t.Replays o := by
  rw [emitEntry_eq] at h
  split at h
  case h_1 =>
    obtain rfl : s = t := Except.ok.inj h
    exact hs
  case h_2 r lp' hr =>
    obtain ⟨a, hgr, ht⟩ := Gen.result_andThen h
    obtain rfl : EmitState.mk lp' a = t := Except.ok.inj ht
    cases r with
    | data p d =>
      rcases absorb_data hgr with rfl | ⟨g, hg, rfl, rfl⟩
      · exact replays_new hr
      · obtain ⟨lp, a⟩ := s
        obtain rfl : a = some g := hg
        exact replays_add hs hr
    | status p status =>
      obtain rfl := absorb_status hgr
      constructor <;> rintro _ ⟨⟩

/-- The entries of an open group whose first has a full path lead back to the state. -/
theorem replay {s : EmitState} (hs : s.Replays o)
    (hg : s.group = some g) (hc : headUncompressed g.entries) :
    (g.entries.map ofData).foldlM (emitEntry o) ⟨none, none⟩ = pure s := by
  rw [foldlM_emitEntry]
  simp only [hs.lastPath g hg hc, hs.group g hg, ← hg]
  rfl

/-- A group is flushed before an entry that is no data of the same attribute. -/
theorem readGroups_flush (h : ∀ d, rs.head? ≠ some (.data g.path d)) :
    readGroups o (some g) rs =
      (flushDataGroup o g >>= fun _ => readGroups o none rs) := by
  cases rs with
  | nil =>
    exact (bind_pure _).symm
  | cons r rs =>
    simp only [readGroups]
    cases r with
    | data p d =>
      have hn : samePath g.path p = false := by
        rw [Bool.eq_false_iff, ne_eq, samePath_iff]
        rintro rfl
        exact h d rfl
      simp [absorb, flushOther, hn]
    | status p s => simp [absorb, flushOpen]

end

end MatterJs.Interaction
