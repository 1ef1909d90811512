import Mathlib.Data.List.Nodup
import MatterJs.Tlv.CodecRoundTrip
import MatterJs.Tlv.SchemaCodec

/-!
# Normal values

The values that a schema of numbers, strings, arrays and objects returns: an
empty string or array may stand for null, an empty repeated field is absent, and
an absent field may have a fallback. A normal value is valid where the value was.
-/
namespace MatterJs.Tlv

open List Schema

/-- The integer schemas of the library: the types it exports, and those bounded further. -/
inductive IsInteger : NumericSchema → Prop
  | base {n : NumericSchema} (h : n ∈ [tlvInt8, tlvInt16, tlvInt32, tlvInt64, tlvUInt8, tlvUInt16,
      tlvUInt24, tlvUInt32, tlvUInt64]) : IsInteger n
  | bound {n : NumericSchema} (h : IsInteger n) (min max : Option Int) : IsInteger (n.bound min max)

mutual

/-- The schemas of booleans, integers, strings, nullables, arrays and objects with distinct
fields, of which only those of lists are repeated. -/
def Schema.Standard : Schema → Prop
  | .boolean | .string _ => True
  | .numeric n => IsInteger n
  | .nullable s | .array s _ _ => s.Standard
  | .object settings fields => (fields.map Field.name).Nodup ∧ (fields.map Field.id).Nodup ∧
      (∀ field ∈ fields, field.repeated → settings.isList) ∧ StandardFields fields
  | .float _ | .any | .void | .noArguments | .wrapper .. => False

def StandardFields : List (Field Schema) → Prop
  | [] => True
  | ⟨_, _, schema, _, _, _, _, _⟩ :: fields => schema.Standard ∧ StandardFields fields

end

/-- A condition on the value of a field, or on each element of a repeated one. -/
def EverywhereEntry (repeated : Bool) (P : Value → Prop) : Value → Prop
  | .undefined => True
  | .array elements => if repeated then ∀ element ∈ elements, P element else P (.array elements)
  | value => P value

mutual

/-- A condition on a value and all its parts, each with the schema that is for it. -/
def Schema.Everywhere (P : Schema → Value → Prop) : Schema → Value → Prop
  | .nullable s, value => P (.nullable s) value ∧ (value ≠ .null → s.Everywhere P value)
  | .array s minLength maxLength, value => P (.array s minLength maxLength) value ∧
      ∀ elements, value = .array elements → ∀ element ∈ elements, s.Everywhere P element
  | .object settings fields, value => P (.object settings fields) value ∧
      ∀ properties, value = .object properties → EverywhereFields P fields properties
  | s, value => P s value

def EverywhereFields (P : Schema → Value → Prop) : List (Field Schema) →
    List (String × Value) → Prop
  | [], _ => True
  | ⟨name, _, schema, _, repeated, _, _, _⟩ :: fields, properties =>
    EverywhereEntry repeated (fun value => schema.Everywhere P value)
      (getProperty properties name) ∧ EverywhereFields P fields properties

end

/-- The value is of the type of its schema: a number is an integer, the properties of an object are
distinct and those of its fields, a text is Unicode and has no byte order mark in front. -/
def OfType : Schema → Value → Prop
  | .numeric _, value => ∃ v, value = .int v
  | .object _ fields, value => ∃ properties, value = .object properties ∧
      (properties.map Prod.fst).Nodup ∧ ∀ p ∈ properties, ∃ field ∈ fields, field.name = p.1
  | .string _, .string text => TextCodec.WellFormed text ∧ text.head? ≠ some 0xFEFF
  | .string _, .bytes b => b.length < 2 ^ 53
  | _, _ => True

/-- The bytes of a text fit the length field that is chosen for its code units, the id of a
field fits a byte, and a mandatory field is not lost by being empty. -/
def FitsWire : Schema → Value → Prop
  | .string _, .string text =>
    LengthFits (TlvCodec.getUIntTlvLength text.length) (TextCodec.encode text).length
  | .object _ fields, .object properties => ∀ field ∈ fields,
      getProperty properties field.name ≠ .undefined → field.id < 2 ^ 8 ∧
      (field.optional = false → field.repeated → getProperty properties field.name = .array [] →
        ∃ fallback, field.fallback = some fallback ∧
          validateField field.name false true field.minLength field.maxLength
            (fun data => field.schema.validate data) (.array [fallback]) = .ok ())
  | _, _ => True

/-- The fields of an object in the order in which they are written. -/
def arrange {α : Type} (name : α → String) (settings : ObjectSettings) (table : List α)
    (properties : List (String × Value)) : List α :=
  if settings.isList ∧ settings.preserveDataOrdering then
    properties.filterMap (fun p => table.find? (fun a => name a = p.1)) ++
      table.filter (fun a => (properties.lookup (name a)).isNone)
  else table

/-- The property that is left of a field's value. -/
def normaliseEntry (repeated : Bool) (normalise : Value → Value) : Value → Option Value
  | .undefined => none
  | .array elements =>
    if repeated then
      if elements.isEmpty then none else some (.array (elements.map normalise))
    else some (normalise (.array elements))
  | value => some (normalise value)

/-- The properties that are left of an object, in the order of a table of its fields. -/
def normaliseProperties (table : List (String × (Value → Option Value)))
    (properties : List (String × Value)) : List (String × Value) :=
  table.filterMap (fun entry =>
    (entry.2 (getProperty properties entry.1)).map (fun value => (entry.1, value)))

mutual

/-- The value that comes back for a value. -/
def Schema.normalise : Schema → Value → Value
  | .nullable s, value =>
    match value with
    | .null => .null
    | value => if isNullEquivalent s (s.normalise value) then .null else s.normalise value
  | .array s _ _, .array elements => .array (elements.map (fun element => s.normalise element))
  | .object settings fields, .object properties =>
    .object (applyFallbacks fields (normaliseProperties
      (arrange Prod.fst settings (normalisers fields) properties) properties))
  | _, value => value

def normalisers : List (Field Schema) → List (String × (Value → Option Value))
  | [] => []
  | ⟨name, _, schema, _, repeated, _, _, _⟩ :: fields =>
    (name, normaliseEntry repeated (fun value => schema.normalise value)) :: normalisers fields

end

variable {f : List (Field Schema)} {i : Field Schema} {n : String} {l m : Option Nat}
  {ps : List (String × Value)}

section Validate

theorem bind_eq_ok {x : Except TlvError Unit} {y : Except TlvError Unit} :
    (x >>= fun _ => y) = .ok () ↔ x = .ok () ∧ y = .ok () := by
  cases x <;> simp

theorem inPart_eq_ok {part : String} {r : Except TlvError Unit} :
    inPart part r = .ok () ↔ r = .ok () := by
  cases r with
  | error e => cases e <;> simp [inPart]
  | ok u => rfl

variable {v : Value → Except TlvError Unit} {es : List Value}

theorem validateElements_eq_ok {index : Nat} :
    validateElements v index es = .ok () ↔ ∀ e ∈ es, v e = .ok () := by
  induction es generalizing index with
  | nil => simp [validateElements]
  | cons e es ih =>
    simp [validateElements, bind_eq_ok, inPart_eq_ok, ih]

theorem validateRepeated_eq_ok : validateRepeated n v es = .ok () ↔ ∀ e ∈ es, v e = .ok () := by
  induction es with
  | nil => simp [validateRepeated]
  | cons e es ih =>
    simp [validateRepeated, bind_eq_ok, inPart_eq_ok, ih]

theorem validateFields_eq_ok {p : List (String × Value)} : validateFields f p = .ok () ↔ ∀ i ∈ f,
      validateField i.name i.optional i.repeated i.minLength i.maxLength
        (fun data => i.schema.validate data) (getProperty p i.name) = .ok () := by
  induction f with
  | nil => simp [validateFields]
  | cons i f ih =>
    simp [validateFields, bind_eq_ok, ih]

/-- A repeated field takes as many elements as its bounds say. -/
theorem validateField_array {o : Bool} : validateField n o true l m v (.array es) = .ok () ↔
      (l.getD 2 ≤ es.length ∧ es.length ≤ m.getD 65535) ∧ ∀ e ∈ es, v e = .ok () := by
  simp only [validateField, if_true]
  split_ifs with h1 h2
  · simp only [false_iff]
    omega
  · simp only [false_iff]
    omega
  · rw [validateRepeated_eq_ok]
    constructor
    · exact fun h => ⟨by omega, h⟩
    · exact fun h => h.2

end Validate

section Properties

variable (n) (n' : String)

theorem lookup_replace (a : Value) : (ps.map (fun p => if p.1 = n then (n, a) else p)).lookup n' =
      (ps.lookup n').map (fun o => if n' = n then a else o) := by
  induction ps with
  | nil => rfl
  | cons p ps ih =>
    obtain ⟨key, o⟩ := p
    by_cases he : key = n
    · subst he
      by_cases h : n' = key
      · simp [h]
      · simp [h, ih, lookup_cons, beq_eq_false_iff_ne.mpr h]
    · by_cases h : n' = key
      · simp [he, h]
      · simp [he, ih, lookup_cons, beq_eq_false_iff_ne.mpr h]

theorem getProperty_setProperty (a : Value) :
    getProperty (setProperty ps n a) n' = if n' = n then a else getProperty ps n' := by
  unfold setProperty getProperty
  by_cases hs : (ps.lookup n).isSome
  · rw [if_pos hs, lookup_replace]
    by_cases h : n' = n
    · subst h
      obtain ⟨o, ho⟩ := Option.isSome_iff_exists.mp hs
      simp [ho]
    · cases ps.lookup n' <;> simp [h]
  · rw [if_neg hs, lookup_append]
    have hn := Option.not_isSome_iff_eq_none.mp hs
    by_cases h : n' = n
    · subst h
      simp [hn]
    · simp [h, lookup_cons, beq_eq_false_iff_ne.mpr h]

variable {n}

theorem lookup_eq_none : ps.lookup n = none ↔ n ∉ ps.map Prod.fst := by
  induction ps with
  | nil => simp
  | cons p ps ih =>
    rw [lookup_cons]
    by_cases h : n = p.1
    · simp [h]
    · simp [h, ih, beq_eq_false_iff_ne.mpr h]

section
variable (h : n ∉ ps.map Prod.fst)
include h

theorem setProperty_new (a : Value) :
    setProperty ps n a = ps ++ [(n, a)] := by
  rw [setProperty, lookup_eq_none.mpr h]
  rfl

theorem setProperty_last
    (a v' : Value) : setProperty (ps ++ [(n, a)]) n v' = ps ++ [(n, v')] := by
  have hkp : ps.map (fun p => if p.1 = n then (n, v') else p) = ps := by
    refine (map_congr_left fun p hp => if_neg ?_).trans (map_id' ps)
    exact fun he => h (he ▸ mem_map_of_mem hp)
  have hs : ((ps ++ [(n, a)]).lookup n).isSome := by
    simp [lookup_append]
  rw [setProperty, if_pos hs, map_append, hkp]
  simp

theorem getProperty_last (va : Value) :
    getProperty (ps ++ [(n, va)]) n = va := by
  simp [getProperty, lookup_append, lookup_eq_none.mpr h]

end

variable (i)

/-- The property of one field once the fallbacks are in. -/
def withFallback (value : Value) : Value :=
  match i.optional, value, i.fallback with
  | false, .undefined, some fallback => if i.repeated then .array [fallback] else fallback
  | _, value, _ => value

theorem applyFallbacks_cons (f : List (Field Schema)) : applyFallbacks (i :: f) ps =
      applyFallbacks f (applyFallbacks [i] ps) := rfl

theorem getProperty_fallback (n : String) : getProperty (applyFallbacks [i] ps) n =
      if n = i.name then withFallback i (getProperty ps n) else getProperty ps n := by
  simp only [applyFallbacks, foldl_cons, withFallback]
  by_cases h : n = i.name
  · subst h
    cases i.optional <;> cases hv : getProperty ps i.name <;>
      cases i.fallback <;> simp [getProperty_setProperty, hv]
  · cases i.optional <;> cases getProperty ps i.name <;> cases i.fallback <;>
      simp [getProperty_setProperty, h]

theorem getProperty_applyFallbacks_of_notMem
    (h : n ∉ f.map Field.name) : getProperty (applyFallbacks f ps) n = getProperty ps n := by
  induction f generalizing ps with
  | nil => rfl
  | cons i f ih =>
    rw [map_cons, mem_cons, not_or] at h
    rw [applyFallbacks_cons, ih h.2, getProperty_fallback, if_neg h.1]

variable {i}

theorem getProperty_applyFallbacks (hn : (f.map Field.name).Nodup) (hm : i ∈ f) :
    getProperty (applyFallbacks f ps) i.name = withFallback i (getProperty ps i.name) := by
  induction f generalizing ps with
  | nil => cases hm
  | cons head f ih =>
    rw [map_cons, nodup_cons] at hn
    rw [applyFallbacks_cons]
    rcases mem_cons.mp hm with rfl | hm
    · rw [getProperty_applyFallbacks_of_notMem hn.1, getProperty_fallback, if_pos rfl]
    · have he : i.name ≠ head.name :=
        fun hq => hn.1 (hq ▸ mem_map_of_mem hm)
      rw [ih hn.2 hm, getProperty_fallback, if_neg he]

end Properties

section Arrange

variable {α : Type} {key : α → String} {ss : ObjectSettings} {t : List α}
  {r : List (String × Value)}

theorem arrange_map {β : Type} (key : α → String) (ss : ObjectSettings) (f : β → α) (t : List β)
    (r : List (String × Value)) :
    arrange key ss (t.map f) r = (arrange (key ∘ f) ss t r).map f := by
  unfold arrange
  split_ifs
  · simp only [map_append, find?_map, filter_map, map_filterMap]
    rfl
  · rfl

/-- In a table with distinct names a property finds its field. -/
theorem find_name (hn : (t.map key).Nodup) {a : α} (ha : a ∈ t) :
    t.find? (fun b => key b = key a) = some a := by
  obtain ⟨b, hb⟩ := Option.isSome_iff_exists.mp
    (find?_isSome.mpr ⟨a, ha, by simp⟩ : (t.find? (fun b => key b = key a)).isSome)
  have hna : key b = key a := by simpa using find?_some hb
  rw [hb, inj_on_of_nodup_map hn (mem_of_find?_eq_some hb) ha hna]

theorem given_names (hm : (t.map key).Nodup) (hk : ∀ p ∈ r, ∃ a ∈ t, key a = p.1) :
    (r.filterMap (fun p => t.find? (fun a => key a = p.1))).map key = r.map Prod.fst := by
  induction r with
  | nil => rfl
  | cons p r ih =>
    obtain ⟨a, ha, hn⟩ := hk p (mem_cons_self ..)
    rw [filterMap_cons, ← hn, find_name hm ha, map_cons, map_cons,
      ih (fun q hq => hk q (mem_cons_of_mem _ hq)), hn]

/-- The order of the data leaves the fields as they are. -/
theorem arrange_perm (ss : ObjectSettings) (hm : (t.map key).Nodup) (hpr : (r.map Prod.fst).Nodup)
    (hk : ∀ p ∈ r, ∃ a ∈ t, key a = p.1) : (arrange key ss t r).Perm t := by
  unfold arrange
  split_ifs
  · have hg : (r.filterMap (fun p => t.find? (fun a => key a = p.1))).Perm
        (t.filter (fun a => ! (r.lookup (key a)).isNone)) := by
      refine (perm_ext_iff_of_nodup ?_ ((List.Nodup.of_map key hm).filter _)).mpr fun a => ?_
      · exact List.Nodup.of_map key (given_names hm hk ▸ hpr)
      · rw [mem_filterMap, mem_filter]
        constructor
        · rintro ⟨p, hp, hf⟩
          have hna : key a = p.1 := by simpa using find?_some hf
          refine ⟨mem_of_find?_eq_some hf, ?_⟩
          have : ¬ r.lookup (key a) = none := by
            rw [lookup_eq_none, hna, not_not]
            exact mem_map_of_mem hp
          simpa using this
        · rintro ⟨ha, hl⟩
          have : key a ∈ r.map Prod.fst := by
            by_contra hn
            simp [lookup_eq_none.mpr hn] at hl
          obtain ⟨p, hp, hna⟩ := mem_map.mp this
          exact ⟨p, hp, by rw [hna, find_name hm ha]⟩
    exact (hg.append_right _).trans (perm_append_comm.trans (filter_append_perm _ t))
  · exact List.Perm.refl _

end Arrange

section Normalise

theorem normaliseProperties_cons (e : String × (Value → Option Value))
    (t : List (String × (Value → Option Value))) : normaliseProperties (e :: t) ps =
      ((e.2 (getProperty ps e.1)).map (fun a => (e.1, a))).toList ++ normaliseProperties t ps := by
  simp only [normaliseProperties, filterMap_cons]
  cases e.2 (getProperty ps e.1) <;> rfl

theorem normaliseProperties_names (t : List (String × (Value → Option Value))) :
    (normaliseProperties t ps).map Prod.fst ⊆ t.map Prod.fst := by
  intro n hn
  obtain ⟨⟨_, a⟩, hp, rfl⟩ := mem_map.mp hn
  obtain ⟨entry, he, hs⟩ := mem_filterMap.mp hp
  obtain ⟨v', -, hq⟩ := Option.map_eq_some_iff.mp hs
  cases hq
  exact mem_map_of_mem he

theorem getProperty_cons (p : String × Value) (n : String) :
    getProperty (p :: ps) n = if n = p.1 then p.2 else getProperty ps n := by
  unfold getProperty
  rw [lookup_cons]
  by_cases h : n = p.1
  · simp [h]
  · simp [h, beq_eq_false_iff_ne.mpr h]

theorem getProperty_of_notMem (h : n ∉ ps.map Prod.fst) : getProperty ps n = .undefined := by
  rw [getProperty, lookup_eq_none.mpr h]
  rfl

theorem getProperty_normaliseProperties (ps : List (String × Value))
    {t : List (String × (Value → Option Value))} (hn : (t.map Prod.fst).Nodup)
    {e : String × (Value → Option Value)} (hm : e ∈ t) :
    getProperty (normaliseProperties t ps) e.1 = (e.2 (getProperty ps e.1)).getD .undefined := by
  induction t with
  | nil => cases hm
  | cons head t ih =>
    rw [map_cons, nodup_cons] at hn
    have hs : head.1 ∉ (normaliseProperties t ps).map Prod.fst :=
      fun h => hn.1 (normaliseProperties_names t h)
    rw [normaliseProperties_cons]
    rcases mem_cons.mp hm with rfl | hm
    · cases e.2 (getProperty ps e.1) with
      | none => exact getProperty_of_notMem hs
      | some a => simp [getProperty_cons]
    · have he : e.1 ≠ head.1 := fun hq => hn.1 (hq ▸ mem_map_of_mem hm)
      have ih := ih hn.2 hm
      cases head.2 (getProperty ps head.1) with
      | none => exact ih
      | some a =>
        simp only [Option.map_some, Option.toList_some, cons_append, getProperty_cons, if_neg he]
        exact ih

theorem normalisers_eq (f : List (Field Schema)) : normalisers f = f.map (fun i =>
    (i.name, normaliseEntry i.repeated (fun a => i.schema.normalise a))) := by
  induction f with
  | nil => rfl
  | cons i f ih => rw [normalisers, ih, map_cons]

theorem getProperty_normalise {ss : ObjectSettings}
    (hn : (f.map Field.name).Nodup) (hpr : (ps.map Prod.fst).Nodup)
    (hk : ∀ p ∈ ps, ∃ i ∈ f, i.name = p.1) (hme : i ∈ f) :
    getProperty (applyFallbacks f (normaliseProperties
      (arrange Prod.fst ss (normalisers f) ps) ps)) i.name =
    withFallback i ((normaliseEntry i.repeated (fun a => i.schema.normalise a)
      (getProperty ps i.name)).getD .undefined) := by
  have hm : (normalisers f).map Prod.fst = f.map Field.name := by
    rw [normalisers_eq, map_map]
    rfl
  have hpe := arrange_perm ss (hm ▸ hn) hpr (by
    intro p hp
    obtain ⟨i, hf, ha⟩ := hk p hp
    rw [normalisers_eq]
    exact ⟨_, mem_map_of_mem hf, ha⟩)
  have he : (i.name, normaliseEntry i.repeated (fun a => i.schema.normalise a)) ∈
      arrange Prod.fst ss (normalisers f) ps := by
    rw [hpe.mem_iff, normalisers_eq]
    exact mem_map_of_mem hme
  rw [getProperty_applyFallbacks hn hme]
  have := getProperty_normaliseProperties ps
    ((hpe.map Prod.fst).nodup_iff.mpr (hm ▸ hn)) he
  rw [← this]

theorem standardFields_iff : StandardFields f ↔ ∀ i ∈ f, i.schema.Standard := by
  induction f with
  | nil => simp [StandardFields]
  | cons i f ih => simp [StandardFields, ih]

theorem everywhereFields_iff {P : Schema → Value → Prop} : EverywhereFields P f ps ↔ ∀ i ∈ f,
      EverywhereEntry i.repeated (fun a => i.schema.Everywhere P a) (getProperty ps i.name) := by
  induction f with
  | nil => simp [EverywhereFields]
  | cons i f ih => simp [EverywhereFields, ih]

theorem Schema.Standard.validate_undefined : (s : Schema) → s.Standard →
    s.validate .undefined ≠ .ok ()
  | .boolean, _ | .numeric _, _ | .array .., _ | .object .., _ => by
    simp [validate, NumericSchema.validate]
  | .string s, _ => by
    obtain ⟨type, minLength, maxLength⟩ := s
    cases type <;> (intro h; cases h)
  | .nullable s, h => Schema.Standard.validate_undefined s h

theorem withFallback_of_ne {va : Value} (h : va ≠ .undefined) : withFallback i va = va := by
  unfold withFallback
  cases i.optional <;> cases va <;> first | rfl | exact absurd rfl h

theorem validateField_single {o : Bool} {v : Value → Except TlvError Unit} {a : Value}
    (h : a ≠ .undefined) : validateField n o false l m v a = .ok () ↔ v a = .ok () := by
  unfold validateField
  cases a <;> first
    | exact absurd rfl h
    | simp [inPart_eq_ok]

end Normalise

/-- What comes back for a valid value is valid. -/
def KeepsValid (s : Schema) : Prop :=
  ∀ value, s.validate value = .ok () → s.Everywhere OfType value → s.Everywhere FitsWire value →
    s.validate (s.normalise value) = .ok ()

variable {vl : Value}

theorem validateField_normalise (ih : KeepsValid i.schema) (hd : i.schema.Standard)
    (hl : validateField i.name i.optional i.repeated i.minLength
      i.maxLength (fun data => i.schema.validate data) vl = .ok ())
    (hy : EverywhereEntry i.repeated (fun vl => i.schema.Everywhere OfType vl) vl)
    (hft : EverywhereEntry i.repeated (fun vl => i.schema.Everywhere FitsWire vl) vl)
    (he : i.optional = false → i.repeated → vl = .array [] → ∃ f, i.fallback = some f ∧
        validateField i.name false true i.minLength i.maxLength
          (fun data => i.schema.validate data) (.array [f]) = .ok ()) :
    validateField i.name i.optional i.repeated i.minLength i.maxLength
      (fun data => i.schema.validate data) (withFallback i
        ((normaliseEntry i.repeated (fun vl => i.schema.normalise vl)
          vl).getD .undefined)) = .ok () := by
  have hs : ∀ vl, i.schema.validate vl = .ok () →
      i.schema.Everywhere OfType vl → i.schema.Everywhere FitsWire vl →
      validateField i.name i.optional false i.minLength i.maxLength
        (fun data => i.schema.validate data)
        (withFallback i (i.schema.normalise vl)) = .ok () := by
    intro vl hv ht hf
    have hok := ih vl hv ht hf
    have hne : i.schema.normalise vl ≠ .undefined :=
      fun hq => hd.validate_undefined _ (hq ▸ hok)
    rw [withFallback_of_ne hne, validateField_single hne]
    exact hok
  have ha : i.optional → withFallback i .undefined = .undefined := by
    intro hp
    simp [withFallback, hp]
  have ho : ∀ r, validateField i.name i.optional r i.minLength
      i.maxLength (fun data => i.schema.validate data) .undefined = .ok () → i.optional := by
    intro r h
    by_contra hp
    simp [validateField, hp] at h
  cases hrep : i.repeated with
  | false =>
    rw [hrep] at hl hy hft
    cases vl with
    | undefined =>
      rw [normaliseEntry, Option.getD_none, ha (ho false hl)]
      exact hl
    | array e =>
      have hv := (validateField_single (by simp)).mp hl
      exact hs _ hv hy hft
    | _ => exact hs _ ((validateField_single (by simp)).mp hl) hy hft
  | true =>
    rw [hrep] at hl hy hft
    cases vl with
    | undefined =>
      rw [normaliseEntry, Option.getD_none, ha (ho true hl)]
      exact hl
    | array e =>
      obtain ⟨hn, hall⟩ := validateField_array.mp hl
      cases e with
      | nil =>
        cases hp : i.optional with
        | true =>
          have := ha hp
          simp [normaliseEntry, this, validateField]
        | false =>
          obtain ⟨f, hfl, hok⟩ := he hp hrep rfl
          simpa [normaliseEntry, withFallback, hp, hfl, hrep] using hok
      | cons l e =>
        simp only [normaliseEntry, if_true, isEmpty_cons, Bool.false_eq_true, if_false,
          Option.getD_some]
        rw [withFallback_of_ne (by simp), validateField_array, length_map]
        refine ⟨hn, fun n hm => ?_⟩
        obtain ⟨e', hm', rfl⟩ := mem_map.mp hm
        exact ih e' (hall _ hm') (hy _ hm') (hft _ hm')
    | _ => cases hl

theorem normalise_nullable (s : Schema) (h : vl ≠ .null) : (nullable s).normalise vl =
      if isNullEquivalent s (s.normalise vl) then .null else s.normalise vl := by
  cases vl <;> first | rfl | exact absurd rfl h

theorem validate_nullable {s : Schema} (h : vl ≠ .null) :
    (nullable s).validate vl = s.validate vl := by
  cases vl <;> first | rfl | exact absurd rfl h

theorem validate_array {s : Schema} {l m : Nat} : (array s l m).validate vl = .ok () ↔ ∃ es,
      vl = .array es ∧ (l ≤ es.length ∧ es.length ≤ m) ∧ ∀ e ∈ es, s.validate e = .ok () := by
  cases vl with
  | array es =>
    simp only [validate, Value.array.injEq, exists_eq_left']
    split_ifs with h1 h2
    · simp only [false_iff]
      omega
    · simp only [false_iff]
      omega
    · rw [validateElements_eq_ok]
      exact ⟨fun h => ⟨by omega, h⟩, fun h => h.2⟩
  | _ => simp [validate]

mutual

theorem validate_normalise : (s : Schema) → s.Standard → KeepsValid s
  | .boolean, _, vl, hv, _, _ | .numeric _, _, vl, hv, _, _
  | .string _, _, vl, hv, _, _ => by cases vl <;> exact hv
  | .nullable s, hs, vl, hv, ht, hf => by
    have ih := validate_normalise s hs vl
    by_cases hl : vl = .null
    · subst hl
      rfl
    · have hok := ih (validate_nullable hl ▸ hv) (ht.2 hl) (hf.2 hl)
      rw [normalise_nullable s hl]
      split_ifs
      · rfl
      · by_cases hn : s.normalise vl = .null
        · rw [hn]
          rfl
        · rw [validate_nullable hn]
          exact hok
  | .array s minLength maxLength, hs, vl, hv, ht, hf => by
    have ih := validate_normalise s hs
    obtain ⟨es, rfl, hlen, ha⟩ := validate_array.mp hv
    refine validate_array.mpr ⟨_, rfl, by simpa using hlen, fun n hm => ?_⟩
    obtain ⟨element, hm', rfl⟩ := mem_map.mp hm
    exact ih element (ha _ hm') (ht.2 _ rfl _ hm') (hf.2 _ rfl _ hm')
  | .object ss f, ⟨hnm, _, _, hd⟩, vl, hv, ht, hf => by
    have ih := validate_normalise_fields f hd
    obtain ⟨⟨p, rfl, hpr, hk⟩, hp⟩ := ht
    have hp := everywhereFields_iff.mp (hp p rfl)
    have hft := everywhereFields_iff.mp (hf.2 p rfl)
    have hv := validateFields_eq_ok.mp hv
    refine validateFields_eq_ok.mpr fun i hme => ?_
    rw [getProperty_normalise hnm hpr hk hme]
    refine validateField_normalise (ih i hme) (standardFields_iff.mp hd i hme)
      (hv i hme) (hp i hme) (hft i hme) fun ho hrep he => ?_
    exact (hf.1 i hme (by simp [he])).2 ho hrep he

theorem validate_normalise_fields : (f : List (Field Schema)) → StandardFields f →
    ∀ i ∈ f, KeepsValid i.schema
  | ⟨_, _, schema, _, _, _, _, _⟩ :: f, ⟨hs, hrs⟩, i, hm => by
    rcases mem_cons.mp hm with rfl | hm
    · exact validate_normalise schema hs
    · exact validate_normalise_fields f hrs i hm

end

end MatterJs.Tlv
