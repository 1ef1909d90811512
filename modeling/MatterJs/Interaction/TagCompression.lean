import MatterJs.Interaction.ChunkBoundaries

/-!
# Tag compression

The sender leaves out the endpoint and the node of a path that are those of the last path it gave in
full, and the version along with them. The receiver cannot tell what was left out from what was
never there.
-/
namespace MatterJs.Interaction

open Option

variable (path : AttributePath)

/-- The ids of a path that has all but perhaps the node. -/
def AttributePath.ids : Option ResolvedAttributePath :=
  match path.endpointId, path.clusterId, path.attributeId with
  | some endpointId, some clusterId, some attributeId =>
    some ⟨path.nodeId, endpointId, clusterId, attributeId⟩
  | _, _, _ => none

def compressPath (dataVersion : Option Nat)
    (lastFullPath : Option LastPath) : AttributePath × Option LastPath :=
  match path.ids with
  | none => (path, lastFullPath)
  | some ids =>
    let newFullPath := ({ path with enableTagCompression := none }, some ⟨ids, dataVersion⟩)
    match lastFullPath with
    | none => newFullPath
    | some last =>
      if dataVersion ≠ none ∧ dataVersion ≠ last.dataVersion then newFullPath
      else if ids.endpointId = last.path.endpointId ∨
          ids.nodeId = last.path.nodeId ∧ ids.nodeId ≠ none then
        ({ path with
          enableTagCompression := some true
          endpointId := if ids.endpointId = last.path.endpointId then none else path.endpointId
          nodeId := if ids.nodeId = last.path.nodeId then none else path.nodeId }, lastFullPath)
      else newFullPath

/-- One report of the loop, whose data or status is compressed. -/
def compressReport (lastFullPath : Option LastPath) (report : AttributeReport) :
    AttributeReport × Option LastPath :=
  let (attributeData, lastFullPath) := match report.attributeData with
    | none => (none, lastFullPath)
    | some data =>
      let (path, lastFullPath) := compressPath data.path data.dataVersion lastFullPath
      let dataVersion := if path.compressed then none else data.dataVersion
      (some { data with path, dataVersion }, lastFullPath)
  let (attributeStatus, lastFullPath) := match report.attributeStatus with
    | none => (none, lastFullPath)
    | some status =>
      let (path, lastFullPath) := compressPath status.path none lastFullPath
      (some { status with path }, lastFullPath)
  (⟨attributeStatus, attributeData⟩, lastFullPath)

def compressReports : Option LastPath → List AttributeReport → List AttributeReport
  | _, [] => []
  | lastFullPath, report :: reports =>
    let (compressed, lastFullPath) := compressReport lastFullPath report
    compressed :: compressReports lastFullPath reports

def compareIds : Option Nat → Option Nat → Option Int
  | some id1, some id2 => if id1 = id2 then none else some (if id1 < id2 then -1 else 1)
  | _, _ => none

def sortAttributeDataByPath (data1 data2 : AttributeReport) : Int :=
  let path (report : AttributeReport) : AttributePath :=
    (report.attributeData.map (·.path) <|> report.attributeStatus.map (·.path)).getD {}
  let path1 := path data1
  let path2 := path data2
  (compareIds path1.nodeId path2.nodeId <|> compareIds path1.endpointId path2.endpointId <|>
    compareIds path1.clusterId path2.clusterId <|>
    compareIds path1.attributeId path2.attributeId).getD 0

/-- `Array.sort` is a parameter, as its order is left open where ids are missing. -/
def compressAttributeDataReportTags
    (sort : (AttributeReport → AttributeReport → Int) → List AttributeReport → List AttributeReport)
    (data : List AttributeReport) : List AttributeReport :=
  compressReports none (sort sortAttributeDataByPath data)

/-! ### What the receiver restores -/

/-- What a report with a complete path is about: an attribute, and the version of its data. -/
def AttributeReport.subject : AttributeReport → Option (ResolvedAttributePath × Option Nat)
  | ⟨none, some data⟩ => data.path.ids.map (·, data.dataVersion)
  | ⟨some status, none⟩ => status.path.ids.map (·, none)
  | _ => none

def Resolved.subject : Resolved → ResolvedAttributePath × Option Nat
  | .data path d => (path, d.dataVersion)
  | .status path _ => (path, none)

/-- The path is sent relative to the last one. -/
def Relative (last : LastPath) (ids : ResolvedAttributePath) (version : Option Nat) : Prop :=
  (version = none ∨ version = last.dataVersion) ∧
    (ids.endpointId = last.path.endpointId ∨ ids.nodeId = last.path.nodeId ∧ ids.nodeId ≠ none)

/-- A report that is sent relative to the last full path lacks a node that this path has, or lacks a
version where the receiver remembers one. -/
def Ambiguous (sent received : Option LastPath) (report : AttributeReport) : Prop :=
  match sent, report.subject with
  | some last, some (ids, version) => Relative last ids version ∧
    (ids.nodeId = none ∧ last.path.nodeId ≠ none ∨
      report.attributeStatus = none ∧ version = none ∧ received.bind LastPath.dataVersion ≠ none)
  | _, _ => False

/-- No report is ambiguous after those in front of it. -/
def Unambiguous : Option LastPath → Option LastPath → List AttributeReport → Prop
  | _, _, [] => True
  | sent, received, report :: reports =>
    ¬Ambiguous sent received report ∧ Unambiguous (compressReport sent report).2
        ((resolve received (compressReport sent report).1).elim received Prod.snd) reports

/-- The receiver has the last full path of the sender, and its version if it has one. -/
structure Sync (sent received : Option LastPath) : Prop where
  path : received.map LastPath.path = sent.map LastPath.path
  version : ∀ version, sent.bind LastPath.dataVersion = some version →
    received.bind LastPath.dataVersion = some version

section Restored

variable {path} {ids : ResolvedAttributePath} {s l : Option LastPath}
  {a : AttributeReport}

theorem resolvePath_full (hi : path.ids = some ids) :
    resolvePath { path with enableTagCompression := none } l =
      .ok ({ path with enableTagCompression := none }, ids) := by
  obtain ⟨_, node, _ | e, _ | c, _ | attr, _, _, _⟩ := path <;> cases hi
  rfl

/-- A path is sent in full, or the receiver completes it by the last one. -/
theorem compressPath_cases (v : Option Nat) (hi : path.ids = some ids)
    (hs : l.map LastPath.path = s.map LastPath.path) : (compressPath path v s =
        ({ path with enableTagCompression := none }, some ⟨ids, v⟩) ∧
      ∀ last, s = some last → ¬Relative last ids v) ∨
    ∃ last p, s = some last ∧ Relative last ids v ∧ compressPath path v s = (p, s) ∧ p.compressed ∧
      ∃ p', resolvePath p l =
        .ok (p', { ids with nodeId := ids.nodeId <|> last.path.nodeId }) := by
  unfold compressPath
  rw [hi]
  cases s with
  | none => exact .inl ⟨rfl, by simp⟩
  | some last =>
    obtain ⟨last', rfl, hl⟩ := map_eq_some_iff.mp hs
    obtain ⟨_, node, _ | endpoint, _ | c, _ | attr, _, _, _⟩ := path <;> cases hi
    simp only [Relative]
    by_cases hf : v ≠ none ∧ v ≠ last.dataVersion
    · refine .inl ⟨if_pos hf, ?_⟩
      rintro _ ⟨⟩
      tauto
    · by_cases hp : endpoint = last.path.endpointId ∨ node = last.path.nodeId ∧ node ≠ none
      · refine .inr ⟨last, _, rfl, ⟨by tauto, hp⟩, (if_neg hf).trans (if_pos hp), rfl, ?_⟩
        have he : (if endpoint = last.path.endpointId then none else some endpoint).getD
            last.path.endpointId = endpoint := by
          split_ifs with h
          · exact h.symm
          · rfl
        have hn : ((if node = last.path.nodeId then none else node) <|> last.path.nodeId) =
            (node <|> last.path.nodeId) := by
          split_ifs with h
          · cases node <;> simp [← h]
          · rfl
        simp only [resolvePath, AttributePath.compressed, getD_some, if_true, hl, he, hn]
        exact ⟨_, rfl⟩
      · refine .inl ⟨(if_neg hf).trans (if_neg hp), ?_⟩
        rintro _ ⟨⟩
        tauto

/-- A report is resolved to what it is about unless it is ambiguous. -/
theorem compressReport_restored {sb : ResolvedAttributePath × Option Nat} (hy : Sync s l)
    (hs : a.subject = some sb) : ∃ r next, resolve l (compressReport s a).1 = some (r, next) ∧
    Sync (compressReport s a).2 next ∧ (r.subject = sb ↔ ¬Ambiguous s l a) := by
  obtain ⟨ids, ve⟩ := sb
  have ho : (∀ last, s = some last → ¬Relative last ids ve) → ¬Ambiguous s l a := by
    intro h
    cases s with
    | none => exact id
    | some last => simp [Ambiguous, hs, h last rfl]
  have hn : ∀ last : LastPath, { ids with nodeId := ids.nodeId.or last.path.nodeId } = ids ↔
      (ids.nodeId = none → last.path.nodeId = none) := by
    intro last
    obtain ⟨_ | node, _, _, _⟩ := ids <;> cases last.path.nodeId <;> simp
  obtain ⟨_ | st, _ | data⟩ := a
  · cases hs
  · obtain ⟨_, hi, ⟨⟩⟩ := map_eq_some_iff.mp hs
    rcases compressPath_cases data.dataVersion hi hy.path with
      ⟨hf, he⟩ | ⟨last, p, rfl, hr, hpr, hp, p', hrs⟩
    · simp only [compressReport, hf, resolve, resolvePath_full hi]
      exact ⟨_, _, rfl, ⟨rfl, fun _ h => h⟩, iff_of_true rfl (ho he)⟩
    · have hp' := (resolvePath_again hrs).2.trans hp
      have hvr : l.bind LastPath.dataVersion = data.dataVersion ↔
          ¬(data.dataVersion = none ∧ l.bind LastPath.dataVersion ≠ none) := by
        cases hv : data.dataVersion with
        | none => simp
        | some ve =>
          rw [hv] at hr
          have hl := hr.1.resolve_left (by simp)
          simp [hy.version ve hl.symm]
      simp only [compressReport, hpr, resolve, hrs, hp, hp', if_true]
      refine ⟨_, _, rfl, hy, ?_⟩
      simp [Resolved.subject, inheritVersion, hp, hvr, hn, Ambiguous, hs, hr]
  · obtain ⟨_, hi, ⟨⟩⟩ := map_eq_some_iff.mp hs
    rcases compressPath_cases none hi hy.path with
      ⟨hf, he⟩ | ⟨last, p, rfl, hr, hpr, hp, p', hrs⟩
    · simp only [compressReport, hf, resolve, resolvePath_full hi]
      exact ⟨_, _, rfl, ⟨rfl, by simp⟩, iff_of_true rfl (ho he)⟩
    · have hp' := (resolvePath_again hrs).2.trans hp
      simp only [compressReport, hpr, resolve, hrs, hp', if_true]
      refine ⟨_, _, rfl, hy, ?_⟩
      simp [Resolved.subject, hn, Ambiguous, hs, hr]
  · cases hs

theorem compressReports_restored_iff {re : List AttributeReport} (hy : Sync s l)
    (hc : ∀ a ∈ re, a.subject ≠ none) :
    (resolveAll l (compressReports s re)).1.map (some ·.subject) =
        re.map AttributeReport.subject ↔ Unambiguous s l re := by
  induction re generalizing s l with
  | nil => simp [compressReports, resolveAll, Unambiguous]
  | cons a re ih =>
    obtain ⟨subject, hs⟩ := ne_none_iff_exists'.mp (hc a List.mem_cons_self)
    obtain ⟨r, next, hr, hn, hi⟩ := compressReport_restored hy hs
    have hrs := ih hn (fun a h => hc a (List.mem_cons_of_mem _ h))
    simp [compressReports, resolveAll, Unambiguous, hr, hs, hi, hrs]

end Restored

/-- Reports with complete paths, in the order the sort leaves them in, are restored exactly when
none of them is ambiguous. -/
theorem tagCompression_restores_iff
    (sort : (AttributeReport → AttributeReport → Int) → List AttributeReport → List AttributeReport)
    (data : List AttributeReport) (hsort : (sort sortAttributeDataByPath data).Perm data)
    (hcomplete : ∀ report ∈ data, report.subject ≠ none) :
    (resolved (compressAttributeDataReportTags sort data)).map (some ·.subject) =
        (sort sortAttributeDataByPath data).map AttributeReport.subject ↔
      Unambiguous none none (sort sortAttributeDataByPath data) :=
  compressReports_restored_iff ⟨rfl, by simp⟩ fun report h => hcomplete report (hsort.subset h)

/-- A report of data at an attribute of endpoint 1. -/
def reportOf (nodeId : Option Nat) (attributeId : Nat) (dataVersion : Option Nat) :
    AttributeReport :=
  .ofData ⟨dataVersion, ⟨none, nodeId, some 1, some 6, some attributeId, none, none, none⟩, []⟩

/-- A stable sort by a comparison. -/
def stableSort (compare : AttributeReport → AttributeReport → Int) (data : List AttributeReport) :
    List AttributeReport :=
  data.insertionSort (compare · · ≤ 0)

theorem tagCompression_restores_versions :
    let data := [reportOf none 0 (some 5), reportOf none 1 (some 5)]
    (resolved (compressAttributeDataReportTags stableSort data)).map (some ·.subject) =
      (stableSort sortAttributeDataByPath data).map AttributeReport.subject := by
  refine (tagCompression_restores_iff stableSort _ (List.perm_insertionSort _ _) (by decide)).mpr
    ⟨id, ?_, trivial⟩
  rintro ⟨_, h⟩
  revert h
  decide

/-- A report without a version behind one with a version is given that version, and a report without
a node behind one with a node is given that node. -/
theorem tagCompression_adds_fields : (resolved (compressAttributeDataReportTags stableSort
        [reportOf none 0 (some 5), reportOf none 1 none])).map Resolved.subject =
      [(⟨none, 1, 6, 0⟩, some 5), (⟨none, 1, 6, 1⟩, some 5)] ∧
    (resolved (compressAttributeDataReportTags stableSort
        [reportOf (some 9) 0 (some 5), reportOf none 1 (some 5)])).map Resolved.subject =
      [(⟨some 9, 1, 6, 0⟩, some 5), (⟨some 9, 1, 6, 1⟩, some 5)] := by
  decide

end MatterJs.Interaction
