/-
# Decoding what was encoded

Two values are the same if they differ only in the order in which objects list their fields. A value
decodes to something if every value that is the same is decoded as it. For a document this follows from
its fields, whatever else the object holds.
-/

import BindingRepair.Json.Decode
import Mathlib.Data.List.Forall2
import Mathlib.Data.List.Nodup
import Mathlib.Data.Option.Basic

namespace BindingRepair.Json

/-! ### Values up to the order of fields -/

/-- Values that differ at most in the order of the fields of objects. Of several fields with one name only
the first counts. -/
inductive Same : Json → Json → Prop
  | null : Same .null .null
  | bool (value : Bool) : Same (.bool value) (.bool value)
  | integer (value : Int) : Same (.integer value) (.integer value)
  | real (literal : String) : Same (.real literal) (.real literal)
  | string (value : String) : Same (.string value) (.string value)
  | array {items others : List Json} : List.Forall₂ Same items others → Same (.array items) (.array others)
  | object {fields others : List (String × Json)} :
      (∀ name, Option.Rel Same (fields.lookup name) (others.lookup name)) →
      Same (.object fields) (.object others)

theorem sizeOf_lookup_lt {name : String} {value : Json} {fields : List (String × Json)}
    (found : fields.lookup name = some value) : sizeOf value < sizeOf (object fields) := by
  induction fields with
  | nil => cases found
  | cons first rest ih =>
      obtain ⟨n, v⟩ := first
      rw [List.lookup_cons] at found
      simp only [object.sizeOf_spec, List.cons.sizeOf_spec, Prod.mk.sizeOf_spec] at ih ⊢
      split at found
      · cases found
        omega
      · have smaller := ih found
        omega

namespace Same

protected theorem refl (j : Json) : Same j j :=
  match j with
  | .null => .null
  | .bool value => .bool value
  | .integer value => .integer value
  | .real literal => .real literal
  | .string value => .string value
  | .array items => .array (List.forall₂_same.mpr fun item here => Same.refl item)
  | .object fields => .object fun name => by
      cases found : fields.lookup name with
      | none => exact .none
      | some value => exact .some (Same.refl value)
termination_by j
decreasing_by
  · have smaller := List.sizeOf_lt_of_mem here
    simp only [array.sizeOf_spec]
    omega
  · exact sizeOf_lookup_lt found

variable {α : Type} {decode : Json → Option α} {a : α} {j v : Json} {name : String}

/-- The same objects hold the same under each name. -/
theorem field? (same : Same j v) (name : String) : Option.Rel Same (j.field? name) (v.field? name) := by
  cases same with
  | object fields => exact fields name
  | _ => exact .none

theorem field?_eq_none (same : Same j v) (missing : v.field? name = none) : j.field? name = none := by
  have fields := same.field? name
  rw [missing] at fields
  cases found : j.field? name with
  | none => rfl
  | some value =>
      rw [found] at fields
      cases fields

theorem exists_field? {w : Json} (same : Same j v) (found : v.field? name = some w) :
    ∃ value, j.field? name = some value ∧ Same value w := by
  have fields := same.field? name
  rw [found] at fields
  cases here : j.field? name with
  | none =>
      rw [here] at fields
      cases fields
  | some value =>
      rw [here] at fields
      cases fields with
      | some sameValue => exact ⟨value, rfl, sameValue⟩

theorem document? {fields : List (String × Json)} (same : Same j (.object fields)) (names : List String) :
    j.document? names = some j := by
  cases same
  rfl

end Same

/-! ### Decoding -/

variable {α β : Type} {decode : Json → Option α} {a : α} {j v w : Json} {name : String}

/-- Every value that is the same as `v` is decoded as `a`. -/
def DecodesTo (decode : Json → Option α) (v : Json) (a : α) : Prop :=
  ∀ j, Same j v → decode j = some a

namespace DecodesTo

theorem self (decodes : DecodesTo decode v a) : decode v = some a :=
  decodes v (.refl v)

theorem string (s : String) : DecodesTo string? (.string s) s := by
  rintro j ⟨⟩
  rfl

theorem bool (b : Bool) : DecodesTo bool? (.bool b) b := by
  rintro j ⟨⟩
  rfl

theorem natural {n : Nat} (fits : n < UInt64.size) : DecodesTo natural? (.nat n) n := by
  rintro j ⟨⟩
  have both : (0 : Int) ≤ n ∧ (n : Int) < UInt64.size := ⟨Int.natCast_nonneg n, Int.ofNat_lt.mpr fits⟩
  rw [natural?, if_pos both, Int.toNat_natCast]

theorem word {n : Nat} (fits : n < UInt32.size) : DecodesTo word? (.nat n) n := by
  intro j same
  have wide : n < UInt64.size := Nat.lt_trans fits (by decide)
  rw [word?, natural wide j same, Option.bind_eq_bind, Option.bind_some, if_pos fits]

/-- A value with a label of its own is told by its label. -/
theorem labelled {values : List α} {label : α → String} (listed : a ∈ values)
    (own : ∀ b ∈ values, label b = label a → b = a) :
    DecodesTo (Json.labelled values label) (.string (label a)) a := by
  rintro j ⟨⟩
  change values.find? (fun b => label b = label a) = some a
  cases found : values.find? fun b => label b = label a with
  | none =>
      have different := List.find?_eq_none.mp found a listed
      simp at different
  | some b => rw [own b (List.mem_of_find?_eq_some found) (by simpa using List.find?_some found)]

theorem listOf {encode : β → Json} {decode : Json → Option β} {items : List β}
    (each : ∀ item ∈ items, DecodesTo decode (encode item) item) :
    DecodesTo (Json.listOf decode) (.array (items.map encode)) items := by
  intro j same
  cases same with
  | array others =>
      rename_i values
      change values.mapM decode = some items
      induction items generalizing values with
      | nil =>
          cases others
          rfl
      | cons item items ih =>
          cases others with
          | cons first rest =>
              rw [List.mapM_cons, each item List.mem_cons_self _ first,
                ih (fun other here => each other (List.mem_cons_of_mem _ here)) rest]
              rfl

theorem strings (items : List String) : DecodesTo strings? (.strings items) items :=
  listOf fun item _ => string item

/-! #### Fields -/

theorem required (decodes : DecodesTo decode w a) (same : Same j v) (name : String)
    (found : v.field? name = some w) : j.required name decode = some a := by
  obtain ⟨value, here, sameValue⟩ := same.exists_field? found
  rw [Json.required, here]
  exact decodes value sameValue

theorem withDefault (decodes : DecodesTo decode w a) (same : Same j v) (name : String) (other : α)
    (found : v.field? name = some w) : j.withDefault name other decode = some a := by
  obtain ⟨value, here, sameValue⟩ := same.exists_field? found
  rw [Json.withDefault, here]
  exact decodes value sameValue

end DecodesTo

namespace Same

/-- A counter is read under its name. -/
theorem counter {n : Nat} (same : Same j v) (fits : n < UInt64.size) (name : String)
    (found : v.field? name = some (.nat n)) : j.required name natural? = some n :=
  (DecodesTo.natural fits).required same name found

theorem withDefault_none (same : Same j v) (missing : v.field? name = none) :
    j.withDefault name a decode = some a := by
  rw [Json.withDefault, same.field?_eq_none missing]

theorem optional_none (same : Same j v) (missing : v.field? name = none) :
    j.optional name decode = some none := by
  rw [Json.optional, same.field?_eq_none missing]

/-- A string that may be missing. -/
theorem optional_string (same : Same j v) {s : Option String} (found : v.field? name = s.map Json.string) :
    j.optional name string? = some s := by
  cases s with
  | none => exact same.optional_none found
  | some s =>
      obtain ⟨value, here, sameValue⟩ := same.exists_field? found
      cases sameValue
      rw [Json.optional, here]
      rfl

end Same

/-! ### Fields that may be absent -/

/-- An object that is encoded without its absent fields has each present one under its name. -/
theorem field?_ofFields {fields : List (String × Option Json)} (distinct : (fields.map (·.1)).Nodup)
    (name : String) : (ofFields fields).field? name = (fields.lookup name).join := by
  change (fields.filterMap _).lookup name = _
  induction fields with
  | nil => rfl
  | cons first rest ih =>
      obtain ⟨n, value⟩ := first
      rw [List.map_cons, List.nodup_cons] at distinct
      have behind := ih distinct.2
      rw [List.lookup_cons]
      cases value with
      | some value =>
          change ((n, value) :: rest.filterMap _).lookup name = _
          rw [List.lookup_cons, behind]
          split <;> rfl
      | none =>
          rw [List.filterMap_cons_none rfl, behind]
          split
          · next same =>
            obtain rfl : name = n := by simpa using same
            have absent : rest.lookup name = none := by
              rw [List.lookup_eq_none_iff]
              intro field here
              rw [bne_iff_ne]
              intro sameName
              exact distinct.1 (List.mem_map.mpr ⟨field, here, sameName.symm⟩)
            rw [absent]
            rfl
          · rfl

end BindingRepair.Json
