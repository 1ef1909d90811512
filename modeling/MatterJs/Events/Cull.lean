import MatterJs.Events.OccurrenceIndex

/-!
# What a cull keeps

Each priority loses its oldest occurrences, up to those its allowance protects. An allowance of 0
leaves the position at its sentinel and so protects every occurrence of the priority.
-/
namespace MatterJs.Events

open List

variable (p : Priority) (o : List OccurrenceSummary) {q : Priority} {a i : Nat}

def ofPriority : List OccurrenceSummary :=
  o.filter (·.priority = p)

def countOf : Nat :=
  (ofPriority p o).length

/-- What is left after a cull. -/
structure Culled (config : BufferConfig) (o result : List OccurrenceSummary) : Prop where
  length : result.length = config.minEventAllowance
  sublist : result.Sublist o
  newestDebug : (ofPriority .debug o).drop (countOf .debug o - config.debug) <:+
    ofPriority .debug result
  newestInfo : (ofPriority .info o).drop (countOf .info o - config.info) <:+
    ofPriority .info result
  /-- No info occurrence goes while a debug occurrence outside the allowance stays. -/
  debugFirst : countOf .info result < countOf .info o →
    countOf .debug result = min config.debug (countOf .debug o)
  criticalLast : countOf .critical result < countOf .critical o →
    countOf .debug result = min config.debug (countOf .debug o) ∧
      countOf .info result = min config.info (countOf .info o)

/-! ### Counting back -/

/-- The entries of a priority before the position that was found for it. -/
def before (position : Option Nat) : Nat :=
  position.elim 0 (fun j => countOf p (o.take j))

/-- The entries of a priority outside its allowance, as the code has it. -/
def surplus (allowance : Nat) : Nat :=
  if allowance = 0 then 0 else countOf p o - allowance

/-- What is known of a priority once the entries from `i` on are counted. -/
def Reached (allowance i : Nat) (data : PrioData) : Prop :=
  data.count = allowance - countOf p (o.drop i) ∧
    (data.minPosition.isSome ↔ 0 < allowance ∧ allowance ≤ countOf p (o.drop i)) ∧
    ∀ j, data.minPosition = some j →
      countOf p (o.take j) = countOf p o - allowance

theorem countOf_take_add_drop (i : Nat) :
    countOf p (o.take i) + countOf p (o.drop i) = countOf p o := by
  rw [countOf, countOf, ← length_append, ofPriority, ofPriority, ← filter_append, take_append_drop]
  rfl

theorem reached_length (a : Nat) : Reached p o a o.length { count := a } := by
  simp [Reached, countOf, ofPriority]
  omega

theorem surplus_zero : surplus p o 0 = 0 := rfl

theorem surplus_le (a : Nat) : surplus p o a ≤ countOf p o - a := by
  unfold surplus
  split_ifs <;> omega

variable {p o} {d : PrioData} {e : OccurrenceSummary}

theorem countOf_drop (h : o[i]? = some e) :
    countOf p (o.drop i) = countOf p (o.drop (i + 1)) + if e.priority = p then 1 else 0 := by
  obtain ⟨hi, rfl⟩ := List.getElem?_eq_some_iff.mp h
  rw [List.drop_eq_getElem_cons hi, countOf, ofPriority, List.filter_cons]
  simp only [decide_eq_true_eq]
  split_ifs <;> rfl

theorem Reached.visit (h : Reached p o a (i + 1) d)
    (hi : o[i]? = some e) (hp : e.priority = p) : Reached p o a i (d.visit i) := by
  obtain ⟨hc, hs, hj⟩ := h
  have hd := countOf_drop (p := p) hi
  have ht := countOf_take_add_drop p o i
  rw [if_pos hp] at hd
  unfold PrioData.visit
  split_ifs with ho hz
  · refine ⟨by dsimp only; omega, ⟨fun _ => by omega, fun _ => rfl⟩, ?_⟩
    rintro _ ⟨⟩
    omega
  · exact ⟨by dsimp only; omega, hs.trans (by omega), hj⟩
  · exact ⟨by omega, hs.trans (by omega), hj⟩

theorem Reached.skip (h : Reached p o a (i + 1) d)
    (hi : o[i]? = some e) (hp : e.priority ≠ p) : Reached p o a i d := by
  have hd := countOf_drop (p := p) hi
  rw [if_neg hp, Nat.add_zero] at hd
  rwa [Reached, hd]

/-- Where the position is found or everything is counted, the surplus is before it. -/
theorem Reached.before_eq (h : Reached p o a i d) (hd : d.minPosition.isSome ∨ i = 0) :
    before p o d.minPosition = surplus p o a := by
  obtain ⟨-, hs, hj⟩ := h
  cases hm : d.minPosition with
  | none =>
    obtain rfl : i = 0 := by simpa [hm] using hd
    rw [hm, drop_zero] at hs
    simp only [Option.isSome_none, Bool.false_eq_true, false_iff] at hs
    simp only [before, Option.elim, surplus]
    split_ifs <;> omega
  | some j =>
    have := hs.mp (by simp [hm])
    rw [before, Option.elim, hj j hm, surplus, if_neg (by omega)]

theorem countBack_spec {info debug : PrioData} {a b : Nat} (hi : i ≤ o.length)
    (hn : Reached .info o a i info) (hd : Reached .debug o b i debug) :
    let d := countBack o i info debug
    before .info o d.1.minPosition = surplus .info o a ∧
      before .debug o d.2.minPosition = surplus .debug o b := by
  induction i generalizing info debug with
  | zero => exact ⟨hn.before_eq (.inr rfl), hd.before_eq (.inr rfl)⟩
  | succ i ih =>
    have hg := getElem?_eq_getElem hi
    simp only [countBack, hg, Option.map_some]
    have hx : ∀ info debug, Reached .info o a i info → Reached .debug o b i debug →
        let d := if info.minPosition.isSome ∧ debug.minPosition.isSome then (info, debug)
          else countBack o i info debug
        before .info o d.1.minPosition = surplus .info o a ∧
          before .debug o d.2.minPosition = surplus .debug o b := by
      intro info debug hn hd
      split_ifs with hb
      · exact ⟨hn.before_eq (.inl hb.1), hd.before_eq (.inl hb.2)⟩
      · exact ih (by omega) hn hd
    cases hp : o[i].priority with
    | info => exact hx _ _ (hn.visit hg hp) (hd.skip hg (by simp [hp]))
    | debug => exact hx _ _ (hn.skip hg (by simp [hp])) (hd.visit hg hp)
    | critical =>
      exact hx _ _ (hn.skip hg (by simp [hp])) (hd.skip hg (by simp [hp]))

/-! ### Dropping -/

/-- The entries of a priority that are left. -/
def left (p : Priority) (entries : List (Option OccurrenceSummary)) : List OccurrenceSummary :=
  ofPriority p (entries.filterMap id)

theorem left_some_cons (p : Priority) (e : OccurrenceSummary)
    (entries : List (Option OccurrenceSummary)) : left p (some e :: entries) =
      if e.priority = p then e :: left p entries else left p entries := by
  simp [left, ofPriority, List.filter_cons]

theorem dropPriority_spec (p : Priority) (cut td : Nat) (es : List (Option OccurrenceSummary)) :
    let pass := dropPriority p cut td es
    let n := min td (left p (es.take cut)).length
    pass.toDelete = td - n ∧ left p pass.entries = (left p es).drop n ∧
      ∀ q ≠ p, ∀ k, left q (pass.entries.take k) = left q (es.take k) := by
  fun_induction dropPriority p cut td es with
  | case1 | case2 | case3 => simp [left, ofPriority]
  | case4 cut td es rest ih =>
    obtain ⟨ht, he, hq⟩ := ih
    refine ⟨ht, he, fun q hn k => ?_⟩
    cases k with
    | zero => rfl
    | succ k => exact hq q hn k
  | case5 cut td e es hp rest ih =>
    obtain ⟨ht, he, hq⟩ := ih
    simp only [take_succ_cons, left_some_cons, if_pos hp, length_cons,
      Nat.succ_eq_add_one, Nat.add_min_add_right, Nat.add_sub_add_right]
    refine ⟨ht, he, fun q hn k => ?_⟩
    cases k with
    | zero => rfl
    | succ k =>
      rw [take_succ_cons, take_succ_cons, left_some_cons, if_neg (hp ▸ hn.symm)]
      exact hq q hn k
  | case6 cut td e es hp rest ih =>
    obtain ⟨ht, he, hq⟩ := ih
    simp only [take_succ_cons, left_some_cons, if_neg hp]
    refine ⟨ht, he, fun q hn k => ?_⟩
    cases k with
    | zero => rfl
    | succ k =>
      simp only [take_succ_cons, left_some_cons]
      rw [hq q hn k]

/-- One round of the loop over the priorities. -/
def Dropping.pass (state : Dropping) : Priority × Option Nat → Dropping
  | (_, none) => state
  | (p, some checkUpTo) =>
    let pass := dropPriority p checkUpTo state.toDelete state.entries
    { pass with drops := state.drops ++ pass.drops }

theorem foldl_pass_done (sa : Dropping) (h : sa.toDelete = 0)
    (s : List (Priority × Option Nat)) : s.foldl Dropping.pass sa = sa := by
  obtain ⟨e, toDelete, drops⟩ := sa
  obtain rfl : toDelete = 0 := h
  induction s with
  | nil => rfl
  | cons head s ih =>
    have hd : ∀ c, dropPriority head.1 c 0 e = ⟨e, 0, []⟩ := fun c => by cases c <;> rfl
    obtain ⟨p, _ | c⟩ := head
    · exact ih
    · rw [foldl_cons, Dropping.pass, hd]
      simpa using ih

/-- The loop over the priorities ends early only where the rest would do nothing. -/
theorem dropPriorities_eq_foldl (s : List (Priority × Option Nat)) (sa : Dropping) :
    dropPriorities s sa = s.foldl Dropping.pass sa := by
  induction s generalizing sa with
  | nil => rfl
  | cons head s ih =>
    obtain ⟨p, _ | c⟩ := head
    · exact ih sa
    · simp only [dropPriorities]
      split_ifs with h
      · exact (foldl_pass_done (sa.pass (p, some c)) h s).symm
      · exact ih _

/-- No entry of the priority is dropped. -/
def Untouched (p : Priority) (o : List OccurrenceSummary) (state : Dropping) : Prop :=
  ∀ k, left p (state.entries.take k) = ofPriority p (o.take k)

/-- A round takes the oldest entries before its position and no other priority's. -/
theorem pass_spec {s : Dropping} (h : Untouched p o s) (ps : Option Nat) :
    let n := min s.toDelete (before p o ps)
    let next := s.pass (p, ps)
    next.toDelete = s.toDelete - n ∧ left p next.entries = (ofPriority p o).drop n ∧
      ∀ q ≠ p, (Untouched q o s → Untouched q o next) ∧
        left q next.entries = left q s.entries := by
  have hw := h (s.entries.length + o.length)
  rw [take_of_length_le (by omega), take_of_length_le (by omega)] at hw
  cases ps with
  | none => simpa [Dropping.pass, before] using hw
  | some j =>
    obtain ⟨ht, he, hq⟩ := dropPriority_spec p j s.toDelete s.entries
    rw [h j] at ht he
    rw [hw] at he
    refine ⟨ht, he, fun q hn => ⟨fun hu k => (hq q hn k).trans (hu k), ?_⟩⟩
    have ha := hq q hn ((dropPriority p j s.toDelete s.entries).entries.length + s.entries.length)
    rwa [take_of_length_le (by omega), take_of_length_le (by omega)] at ha

theorem length_eq_countOf (o : List OccurrenceSummary) : o.length =
    countOf .debug o + countOf .info o + countOf .critical o := by
  induction o with
  | nil => rfl
  | cons e o ih =>
    cases hp : e.priority <;> simp_all [countOf, ofPriority] <;> omega

theorem dropOldOccurrences_ofPriority (c : BufferConfig) (o : List OccurrenceSummary) :
    let toDelete := o.length - c.minEventAllowance
    let debug := min toDelete (surplus .debug o c.debug)
    let info := min (toDelete - debug) (surplus .info o c.info)
    let critical := min (toDelete - debug - info) (countOf .critical o)
    let result := (dropOldOccurrences c o).1
    ofPriority .debug result = (ofPriority .debug o).drop debug ∧
      ofPriority .info result = (ofPriority .info o).drop info ∧
      ofPriority .critical result = (ofPriority .critical o).drop critical := by
  by_cases hn : o.length - c.minEventAllowance = 0
  · simp [dropOldOccurrences, hn]
  · have hu : ∀ p, Untouched p o
        ⟨o.map some, o.length - c.minEventAllowance, []⟩ := by
      intro p k
      simp [left, ← map_take]
    obtain ⟨hi, hd⟩ := countBack_spec (Nat.le_refl _) (reached_length .info o c.info)
      (reached_length .debug o c.debug)
    have hc : before .critical o (some o.length) = countOf .critical o := by
      rw [before, Option.elim, take_length]
    simp only [dropOldOccurrences, if_neg hn, dropPriorities_eq_foldl, foldl_cons, foldl_nil]
    generalize countBack o o.length _ _ = d at hi hd
    obtain ⟨ht₁, he₁, hq₁⟩ := pass_spec (hu .debug) d.2.minPosition
    obtain ⟨ht₂, he₂, hq₂⟩ := pass_spec ((hq₁ .info (by decide)).1 (hu .info)) d.1.minPosition
    obtain ⟨ht₃, he₃, hq₃⟩ :=
      pass_spec ((hq₂ .critical (by decide)).1 ((hq₁ .critical (by decide)).1 (hu .critical)))
        (some o.length)
    rw [ht₂, ht₁, hd, hi, hc] at he₃
    rw [ht₁, hd, hi] at he₂
    rw [hd] at he₁
    refine ⟨?_, ?_, he₃⟩
    · exact (hq₃ .debug (by decide)).2.trans ((hq₂ .debug (by decide)).2.trans he₁)
    · exact (hq₃ .info (by decide)).2.trans he₂

theorem surplus_of_ne (h : a ≠ 0) : surplus p o a = countOf p o - a := if_neg h

/-- What is left of a priority of which the oldest are dropped, but none in its allowance. -/
theorem left_of_drop {result : List OccurrenceSummary} {n : Nat} (a : Nat)
    (h : ofPriority p result = (ofPriority p o).drop n)
    (hn : n ≤ countOf p o - a) : countOf p result + n = countOf p o ∧
      (ofPriority p o).drop (countOf p o - a) <:+ ofPriority p result := by
  constructor
  · rw [countOf, h, length_drop]
    change countOf p o - n + n = _
    omega
  · rw [h]
    exact drop_suffix_drop_left _ hn

/-- A cull keeps what it should exactly where no allowance of 0 meets occurrences that it has to
drop. -/
theorem culled_iff {config : BufferConfig}
    (hconfig : config.info + config.debug ≤ config.minEventAllowance)
    (hlong : config.minEventAllowance < o.length) :
    Culled config o (dropOldOccurrences config o).1 ↔
      (config.debug = 0 → countOf .debug o = 0) ∧
      (config.info = 0 → countOf .info o = 0 ∨
        o.length - config.minEventAllowance ≤ countOf .debug o - config.debug) := by
  obtain ⟨hd, hi, hc⟩ := dropOldOccurrences_ofPriority config o
  have hs := (dropOldOccurrences_spec config o).1
  have hlen := length_eq_countOf o
  have hl' := length_eq_countOf (dropOldOccurrences config o).1
  have hld := surplus_le .debug o config.debug
  have hli := surplus_le .info o config.info
  obtain ⟨hd, hnd⟩ := left_of_drop config.debug hd (Nat.le_trans (Nat.min_le_right ..) hld)
  obtain ⟨hi, hn⟩ := left_of_drop config.info hi (Nat.le_trans (Nat.min_le_right ..) hli)
  obtain ⟨hc, -⟩ := left_of_drop 0 hc (Nat.min_le_right ..)
  generalize hT : o.length - config.minEventAllowance = toDelete at *
  rcases Nat.lt_or_ge (surplus .debug o config.debug) toDelete with ht | hg
  · rw [Nat.min_eq_right ht.le] at hd hi hc
    constructor
    · rintro ⟨hl, -, -, -, hf, hls⟩
      constructor
      · intro h₀
        by_contra he
        rw [h₀, surplus_zero] at hd
        omega
      · intro h₀
        by_contra he
        rw [h₀, surplus_zero] at hi
        omega
    · rintro ⟨h₁, h₂⟩
      have hsd : surplus .debug o config.debug =
          countOf .debug o - config.debug := by
        by_cases h : config.debug = 0
        · rw [h, surplus_zero, h₁ h]
        · exact surplus_of_ne h
      have hsi : surplus .info o config.info =
          countOf .info o - config.info := by
        by_cases h : config.info = 0
        · rw [h, surplus_zero]
          omega
        · exact surplus_of_ne h
      exact ⟨by omega, hs, hnd, hn, by omega, by omega⟩
  · rw [Nat.min_eq_left hg, Nat.sub_self, Nat.zero_min, Nat.add_zero] at hi
    refine ⟨fun _ => ⟨fun h₀ => ?_, fun _ => .inr (by omega)⟩,
      fun _ => ⟨by omega, hs, hnd, hn, by omega, by omega⟩⟩
    rw [h₀, surplus_zero] at hg
    omega

theorem culled_three : Culled ⟨2, 3, 1, 1⟩
    [⟨1, .debug, 0, 0, 0⟩, ⟨2, .critical, 0, 0, 0⟩, ⟨3, .debug, 0, 0, 0⟩]
    (dropOldOccurrences ⟨2, 3, 1, 1⟩
      [⟨1, .debug, 0, 0, 0⟩, ⟨2, .critical, 0, 0, 0⟩, ⟨3, .debug, 0, 0, 0⟩]).1 :=
  (culled_iff (by decide) (by decide)).mpr (by decide)

/-- Without an allowance for debug occurrences a cull keeps them and drops a critical one. -/
theorem dropOldOccurrences_keeps_debug :
    (dropOldOccurrences ⟨1, 2, 1, 0⟩ [⟨1, .debug, 0, 0, 0⟩, ⟨2, .critical, 0, 0, 0⟩]).1 =
      [⟨1, .debug, 0, 0, 0⟩] ∧ ¬ Culled ⟨1, 2, 1, 0⟩ [⟨1, .debug, 0, 0, 0⟩, ⟨2, .critical, 0, 0, 0⟩]
      (dropOldOccurrences ⟨1, 2, 1, 0⟩ [⟨1, .debug, 0, 0, 0⟩, ⟨2, .critical, 0, 0, 0⟩]).1 := by
  refine ⟨by decide, fun h => ?_⟩
  have := (h.criticalLast (by decide)).1
  revert this
  decide

end MatterJs.Events
