import MonkeySyntax.Proofs.OutlineText

/-!
# An outline can be told from its JSON form

Without lines and columns, the JSON form of an outline that follows the schema is that of the
outline without places (`Outline.toJson_without`), and it determines that outline even if the
members of the objects come in another order (`Outline.unplaced_eq_of_agrees`). The second is why
objects are compared by name (`Json.Agrees`): a reader of JSON need not keep the order of members.
The kind of a record says which names to expect, so nothing is lost with the order.
-/

namespace MonkeySyntax

/-! ### Objects without an order -/

namespace Json

/-- Two JSON values agree up to the order of members: where one object has a member of some name, so
has the other, and their values agree. -/
inductive Agrees : Json → Json → Prop where
  | null : Agrees null null
  | bool (b : Bool) : Agrees (bool b) (bool b)
  | number (n : Int) : Agrees (number n) (number n)
  | string (s : String) : Agrees (string s) (string s)
  | array {xs ys : List Json} (hlength : xs.length = ys.length)
      (hitems : ∀ (i : Nat) (v w : Json), xs[i]? = some v → ys[i]? = some w → Agrees v w) :
      Agrees (array xs) (array ys)
  | object {ms ns : List (String × Json)}
      (hnames : ∀ name, (ms.lookup name).isSome = (ns.lookup name).isSome)
      (hvalues : ∀ name v w, ms.lookup name = some v → ns.lookup name = some w → Agrees v w) :
      Agrees (object ms) (object ns)

theorem mem_of_lookup {α : Type} {ms : List (String × α)} {name : String} {v : α}
    (h : ms.lookup name = some v) : (name, v) ∈ ms := by
  obtain ⟨before, after, rfl, -⟩ := List.lookup_eq_some_iff.mp h
  simp

mutual

/-- What is equal agrees. -/
theorem Agrees.refl : ∀ v : Json, Agrees v v
  | .null => .null
  | .bool b => .bool b
  | .number n => .number n
  | .string s => .string s
  | .array items => .array rfl fun _ v _ hv hw => by
    rw [hv] at hw
    cases hw
    exact Agrees.refl_of_mem items v (List.mem_of_getElem? hv)
  | .object members => .object (fun _ => rfl) fun name v _ hv hw => by
    rw [hv] at hw
    cases hw
    exact Agrees.refl_of_mem_members members (name, v) (mem_of_lookup hv)

theorem Agrees.refl_of_mem : ∀ (items : List Json), ∀ v ∈ items, Agrees v v
  | [] => by simp
  | item :: items => by
    have hitem := Agrees.refl item
    have hitems := Agrees.refl_of_mem items
    simpa using ⟨hitem, hitems⟩

theorem Agrees.refl_of_mem_members :
    ∀ (members : List (String × Json)), ∀ m ∈ members, Agrees m.2 m.2
  | [] => by simp
  | (name, value) :: members => by
    have hvalue := Agrees.refl value
    have hmembers := Agrees.refl_of_mem_members members
    intro m hm
    obtain rfl | hm := List.mem_cons.mp hm
    · exact hvalue
    · exact hmembers m hm

end

end Json

namespace Outline

variable {o o' : Outline}

/-! ### The JSON form of an outline -/

/-- The members of an object that say where a node stands. -/
def placeNames : List String :=
  ["line", "col"]

theorem nodup_names : ∀ entry ∈ schema, entry.2.Nodup := by
  decide

theorem name_ne_kind : ∀ entry ∈ schema, ∀ name ∈ entry.2, name ≠ "kind" := by
  decide

theorem name_notMem_placeNames : ∀ entry ∈ schema, ∀ name ∈ entry.2, name ∉ placeNames := by
  decide

/-- Without lines and columns the JSON form is that of the outline without places. -/
theorem toJson_without (h : Conforms o) : o.toJson.without placeNames = o.unplaced.toJson := by
  induction h with
  | absent | truth | number | text => rfl
  | @sequence items h ih =>
    have hitems : items.map (Json.without placeNames ∘ toJson) = items.map (toJson ∘ unplaced) :=
      List.map_congr_left ih
    simp [unplaced, toJson, Json.without, hitems]
  | @record kind place parts hkind h ih =>
    have hplace (members : List (String × Json)) :
        Json.withoutMembers placeNames (placeMembers place ++ members) =
          Json.withoutMembers placeNames members := by
      cases place <;> simp [placeMembers, placeNames]
    have hkept : (partMembers parts).filter (·.1 ∉ placeNames) = partMembers parts := by
      rw [partMembers_eq_map, List.filter_eq_self]
      intro member hmember
      obtain ⟨part, hp, rfl⟩ := List.mem_map.mp hmember
      simpa using name_notMem_placeNames _ hkind part.1 (List.mem_map_of_mem hp)
    have hparts : (partMembers parts).map (fun member => (member.1, member.2.without placeNames)) =
        partMembers (unplacedParts parts) := by
      rw [partMembers_eq_map, partMembers_eq_map, unplacedParts_eq_map, List.map_map, List.map_map]
      exact List.map_congr_left fun part hp => Prod.ext rfl (ih part hp)
    rw [toJson, Json.without, Json.withoutMembers, if_neg (by decide), Json.without, hplace,
      Json.withoutMembers_eq_map, hkept, hparts]
    rfl

/-! ### From the JSON form to the outline -/

/-- A kind has one list of names. -/
theorem schema_functional : ∀ entry ∈ schema, ∀ entry' ∈ schema,
    entry.1 = entry'.1 → entry = entry' := by
  decide

/-- What a name leads to among members whose values are images. -/
theorem lookup_map {α β : Type} (f : α → β) (parts : List (String × α)) (name : String) :
    (parts.map fun part => (part.1, f part.2)).lookup name = (parts.lookup name).map f := by
  induction parts with
  | nil => rfl
  | cons part parts ih =>
    obtain ⟨name', v⟩ := part
    simp only [List.map_cons, List.lookup_cons, ih]
    split <;> rfl

/-- Parts of the same names, in the same order and each name once, correspond if those of one name
do. -/
theorem map_eq_of_lookup {α β : Type} {f : α → β} {parts parts' : List (String × α)}
    (hnames : parts.map Prod.fst = parts'.map Prod.fst) (hnodup : (parts.map Prod.fst).Nodup)
    (h : ∀ name v w, parts.lookup name = some v → parts'.lookup name = some w → f v = f w) :
    parts.map (fun part => (part.1, f part.2)) = parts'.map fun part => (part.1, f part.2) := by
  induction parts generalizing parts' with
  | nil => simp_all
  | cons part parts ih =>
    obtain ⟨name, v⟩ := part
    cases parts' with
    | nil => simp at hnames
    | cons part' parts' =>
      obtain ⟨name', v'⟩ := part'
      simp only [List.map_cons, List.cons.injEq, List.nodup_cons] at hnames hnodup ⊢
      obtain ⟨rfl, hnames⟩ := hnames
      have htail : ∀ name₁ w w', parts.lookup name₁ = some w → parts'.lookup name₁ = some w' →
          f w = f w' := by
        intro name₁ w w' hw hw'
        -- A later part has another name than the first, so looking it up passes over the first.
        have hne : (name₁ == name) = false := by
          refine beq_false_of_ne ?_
          rintro rfl
          exact hnodup.1 (List.mem_map_of_mem (f := Prod.fst) (Json.mem_of_lookup hw))
        exact h name₁ w w' (by rw [List.lookup_cons, hne]; exact hw)
          (by rw [List.lookup_cons, hne]; exact hw')
      have hhead : f v = f v' := h name v v' List.lookup_cons_self List.lookup_cons_self
      exact ⟨by rw [hhead], ih hnames hnodup.2 htail⟩

theorem toJson_unplaced_record (kind : String) (parts : List (String × Outline)) :
    (record kind none (parts.map fun part => (part.1, part.2.unplaced))).toJson =
      .object (("kind", .string kind) ::
        parts.map fun part => (part.1, part.2.unplaced.toJson)) := by
  simp [toJson, placeMembers, Function.comp_def]

/-- A part is found behind the member that gives the kind. -/
theorem lookup_members {kind name : String} {parts : List (String × Outline)} {v : Outline}
    (hne : name ≠ "kind") (hv : parts.lookup name = some v) :
    (("kind", Json.string kind) ::
      parts.map fun part => (part.1, part.2.unplaced.toJson)).lookup name =
        some v.unplaced.toJson := by
  have hvalue := lookup_map (fun value : Outline => value.unplaced.toJson) parts name
  rw [hv] at hvalue
  rw [List.lookup_cons, beq_false_of_ne hne]
  exact hvalue

/-- Items whose JSON forms agree are the same up to places, if this holds of each of them. -/
theorem map_unplaced_eq_of_agrees {items items' : List Outline}
    (ih : ∀ item ∈ items, ∀ item' ∈ items',
      Json.Agrees item.unplaced.toJson item'.unplaced.toJson → item.unplaced = item'.unplaced)
    (hagrees : Json.Agrees (sequence (items.map unplaced)).toJson
      (sequence (items'.map unplaced)).toJson) :
    items.map unplaced = items'.map unplaced := by
  cases hagrees with
  | array hlength hitems =>
    simp only [toJsons_eq_map, List.map_map, List.length_map] at hlength hitems
    refine List.ext_getElem (by simpa using hlength) fun i hi hi' => ?_
    rw [List.length_map] at hi hi'
    rw [List.getElem_map, List.getElem_map]
    exact ih _ (List.getElem_mem hi) _ (List.getElem_mem hi')
      (hitems i _ _ (by simp [hi]) (by simp [hi']))

/-- Records whose JSON forms agree are of one kind, and their parts are the same up to places, if
this holds of the parts of one name. -/
theorem parts_unplaced_eq_of_agrees {kind kind' : String} {parts parts' : List (String × Outline)}
    (hkind : (kind, parts.map Prod.fst) ∈ schema) (hkind' : (kind', parts'.map Prod.fst) ∈ schema)
    (ih : ∀ part ∈ parts, ∀ part' ∈ parts',
      Json.Agrees part.2.unplaced.toJson part'.2.unplaced.toJson →
        part.2.unplaced = part'.2.unplaced)
    (hagrees : Json.Agrees
      (record kind none (parts.map fun part => (part.1, part.2.unplaced))).toJson
      (record kind' none (parts'.map fun part => (part.1, part.2.unplaced))).toJson) :
    kind = kind' ∧ parts.map (fun part => (part.1, part.2.unplaced)) =
      parts'.map fun part => (part.1, part.2.unplaced) := by
  rw [toJson_unplaced_record, toJson_unplaced_record] at hagrees
  cases hagrees with
  | object hnames hvalues =>
    obtain rfl : kind = kind' := by
      cases hvalues "kind" _ _ List.lookup_cons_self List.lookup_cons_self
      rfl
    -- The kind settles the names and their order, so it is enough to look up one name at a time.
    have hsame : parts.map Prod.fst = parts'.map Prod.fst :=
      (Prod.mk.inj (schema_functional _ hkind _ hkind' rfl)).2
    refine ⟨rfl, map_eq_of_lookup hsame (nodup_names _ hkind) fun name v w hv hw => ?_⟩
    have hmem := Json.mem_of_lookup hv
    have hne := name_ne_kind _ hkind name (List.mem_map_of_mem (f := Prod.fst) hmem)
    exact ih _ hmem _ (Json.mem_of_lookup hw)
      (hvalues name _ _ (lookup_members hne hv) (lookup_members hne hw))

/-- **Outlines without places whose JSON forms agree are the same.** -/
theorem unplaced_eq_of_agrees (h : Conforms o) (h' : Conforms o')
    (hagrees : Json.Agrees o.unplaced.toJson o'.unplaced.toJson) : o.unplaced = o'.unplaced := by
  induction h generalizing o' with
  | absent =>
    cases h' with
    | absent => rfl
    | _ => cases hagrees
  | truth value =>
    cases h' with
    | truth value' =>
      cases hagrees
      rfl
    | _ => cases hagrees
  | number value =>
    cases h' with
    | number value' =>
      cases hagrees
      rfl
    | _ => cases hagrees
  | text value =>
    cases h' with
    | text value' =>
      cases hagrees
      rfl
    | _ => cases hagrees
  | sequence h ih =>
    cases h' with
    | sequence h' =>
      rw [unplaced_sequence, unplaced_sequence] at hagrees ⊢
      rw [map_unplaced_eq_of_agrees (fun _ hi _ hi' => ih _ hi (h' _ hi')) hagrees]
    | _ => cases hagrees
  | record hkind h ih =>
    cases h' with
    | record hkind' h' =>
      rw [unplaced_record, unplaced_record] at hagrees ⊢
      obtain ⟨rfl, hparts⟩ := parts_unplaced_eq_of_agrees hkind hkind'
        (fun _ hp _ hp' => ih _ hp (h' _ hp')) hagrees
      rw [hparts]
    | _ => cases hagrees

end Outline

end MonkeySyntax
