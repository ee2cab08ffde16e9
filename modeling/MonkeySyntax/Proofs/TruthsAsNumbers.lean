import MonkeySyntax.Proofs.OutlineJson

/-!
# Truth values that count as numbers

Where values are compared, a truth value is equal to the number that it counts as. So two outlines,
or two JSON values, may agree although one of them shows a truth value and the other a number. What
they agree in is what is left when each truth value is replaced by its number (`Outline.counted`,
`Json.counted`).

This loses something only where a truth value stands in the place of a number. In an outline where
truth values are those of boolean literals (`Outline.Plain`), the kind of a record says what to make
of its value, and nothing is lost (`Outline.Plain.eq_of_counted_eq`).
-/

namespace MonkeySyntax

/-- Different truth values count as different numbers. -/
theorem toInt_bool_eq_iff {a b : Bool} : a.toInt = b.toInt ↔ a = b := by
  decide +revert

namespace Json

mutual

/-- The value with each truth value replaced by the number that it counts as. -/
def counted : Json → Json
  | null => null
  | bool b => number b.toInt
  | number n => number n
  | string s => string s
  | array items => array (countedEach items)
  | object members => object (countedMembers members)

/-- The values with their truth values replaced. -/
def countedEach : List Json → List Json
  | [] => []
  | item :: items => item.counted :: countedEach items

/-- The members with their truth values replaced. -/
def countedMembers : List (String × Json) → List (String × Json)
  | [] => []
  | (key, value) :: members => (key, value.counted) :: countedMembers members

end

@[simp] theorem countedEach_eq_map (items : List Json) : countedEach items = items.map counted := by
  induction items with
  | nil => rfl
  | cons item items ih => simp [countedEach, ih]

@[simp] theorem countedMembers_eq_map (members : List (String × Json)) :
    countedMembers members = members.map fun member => (member.1, member.2.counted) := by
  induction members with
  | nil => rfl
  | cons member members ih => simp [countedMembers, ih]

end Json

namespace Outline

mutual

/-- The outline with each truth value replaced by the number that it counts as. -/
def counted : Outline → Outline
  | absent => absent
  | truth value => number value.toInt
  | number value => number value
  | text value => text value
  | sequence items => sequence (countedEach items)
  | record kind place parts => record kind place (countedParts parts)

/-- The outlines with their truth values replaced. -/
def countedEach : List Outline → List Outline
  | [] => []
  | item :: items => item.counted :: countedEach items

/-- The named parts with their truth values replaced. -/
def countedParts : List (String × Outline) → List (String × Outline)
  | [] => []
  | (name, value) :: parts => (name, value.counted) :: countedParts parts

end

@[simp] theorem countedEach_eq_map (items : List Outline) :
    countedEach items = items.map counted := by
  induction items with
  | nil => rfl
  | cons item items ih => simp [countedEach, ih]

@[simp] theorem countedParts_eq_map (parts : List (String × Outline)) :
    countedParts parts = parts.map fun part => (part.1, part.2.counted) := by
  induction parts with
  | nil => rfl
  | cons part parts ih => simp [countedParts, ih]

variable {o o' : Outline}

/-- The numbers that truth values count as follow the schema as well. -/
theorem Conforms.counted (h : Conforms o) : o.counted.Conforms := by
  induction h with
  | absent => exact .absent
  | truth value => exact .number value.toInt
  | number value => exact .number value
  | text value => exact .text value
  | sequence h ih =>
    rw [Outline.counted, countedEach_eq_map]
    exact .sequence (List.forall_mem_map.mpr ih)
  | @record kind place parts hkind h ih =>
    rw [Outline.counted, countedParts_eq_map]
    refine .record ?_ (List.forall_mem_map.mpr ih)
    rwa [List.map_map]

/-- Places have no truth values. -/
theorem counted_unplaced (h : Conforms o) : o.unplaced.counted = o.counted.unplaced := by
  induction h with
  | absent | truth | number | text => rfl
  | @sequence items h ih =>
    have hitems : items.map (counted ∘ unplaced) = items.map (unplaced ∘ counted) :=
      List.map_congr_left ih
    simp [unplaced, counted, hitems]
  | @record kind place parts hkind h ih =>
    have hparts : parts.map (fun part => (part.1, part.2.unplaced.counted)) =
        parts.map fun part => (part.1, part.2.counted.unplaced) :=
      List.map_congr_left fun part hp => by rw [ih part hp]
    simp [unplaced, counted, hparts, Function.comp_def]

/-- The JSON form shows truth values where the outline does. -/
theorem toJson_counted (h : Conforms o) : o.counted.toJson = o.toJson.counted := by
  induction h with
  | absent | truth | number | text => rfl
  | @sequence items h ih =>
    have hitems : items.map (toJson ∘ counted) = items.map (Json.counted ∘ toJson) :=
      List.map_congr_left ih
    simp [toJson, counted, Json.counted, hitems]
  | @record kind place parts hkind h ih =>
    have hparts : parts.map (fun part => (part.1, part.2.counted.toJson)) =
        parts.map fun part => (part.1, part.2.toJson.counted) :=
      List.map_congr_left fun part hp => by rw [ih part hp]
    cases place <;>
      simp [toJson, counted, Json.counted, placeMembers, hparts, Function.comp_def]

/-! ### Truth values of boolean literals -/

/-- The only truth values in the outline are those of boolean literals. -/
inductive Plain : Outline → Prop where
  | absent : Plain absent
  | number (value : Int) : Plain (number value)
  | text (value : String) : Plain (text value)
  | sequence {items : List Outline} (h : ∀ item ∈ items, Plain item) : Plain (sequence items)
  | boolean (place : Option (Int × Int)) (value : Bool) :
      Plain (record "BooleanLiteral" place [("value", truth value)])
  | record {kind : String} {place : Option (Int × Int)} {parts : List (String × Outline)}
      (hkind : kind ≠ "BooleanLiteral") (h : ∀ part ∈ parts, Plain part.2) :
      Plain (record kind place parts)

theorem plain_sequence_iff {items : List Outline} :
    (sequence items).Plain ↔ ∀ item ∈ items, item.Plain := by
  constructor
  · rintro ⟨⟩
    assumption
  · exact .sequence

theorem plain_record_iff {kind : String} {place : Option (Int × Int)}
    {parts : List (String × Outline)} (hkind : kind ≠ "BooleanLiteral") :
    (record kind place parts).Plain ↔ ∀ part ∈ parts, part.2.Plain := by
  constructor
  · intro h
    cases h with
    | boolean => exact absurd rfl hkind
    | record _ h => exact h
  · exact .record hkind

/-- A list is determined by the images of its members if each member is. -/
theorem eq_of_map_eq {α β : Type} {f : α → β} {xs ys : List α}
    (h : ∀ x ∈ xs, ∀ y ∈ ys, f x = f y → x = y) (heq : xs.map f = ys.map f) : xs = ys := by
  have hlength : xs.length = ys.length := by simpa using congrArg List.length heq
  refine List.ext_getElem hlength fun i hi hi' => ?_
  refine h _ (List.getElem_mem hi) _ (List.getElem_mem hi') ?_
  have hat := List.getElem_of_eq heq (by simpa using hi)
  simpa using hat

/-- **Where the only truth values are those of boolean literals, the numbers that they count as tell
them.** -/
theorem Plain.eq_of_counted_eq (h : Plain o) (h' : Plain o') (heq : o.counted = o'.counted) :
    o = o' := by
  induction h generalizing o' with
  | absent | number | text => cases h' <;> simp_all [counted]
  | @sequence items h ih =>
    cases h' with
    | @sequence items' h' =>
      simp only [counted, countedEach_eq_map, sequence.injEq] at heq
      rw [eq_of_map_eq (fun item hi item' hi' => ih item hi (h' item' hi')) heq]
    | _ => cases heq
  | boolean place value =>
    cases h' with
    | boolean place' value' =>
      simp only [counted, countedParts, record.injEq, List.cons.injEq, Prod.mk.injEq,
        number.injEq, toInt_bool_eq_iff] at heq
      obtain ⟨-, rfl, ⟨-, rfl⟩, -⟩ := heq
      rfl
    | record hkind' => exact absurd (record.inj heq).1.symm hkind'
    | _ => cases heq
  | @record kind place parts hkind h ih =>
    cases h' with
    | boolean => exact absurd (record.inj heq).1 hkind
    | @record kind' place' parts' hkind' h' =>
      simp only [counted, countedParts_eq_map, record.injEq] at heq
      obtain ⟨rfl, rfl, hparts⟩ := heq
      rw [eq_of_map_eq (fun part hp part' hp' hpart => ?_) hparts]
      obtain ⟨hname, hvalue⟩ := Prod.mk.inj hpart
      exact Prod.ext hname (ih part hp (h' part' hp') hvalue)
    | _ => cases heq

end Outline

end MonkeySyntax
