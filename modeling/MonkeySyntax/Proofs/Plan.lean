import MonkeySyntax.Proofs.TokenMap
import MonkeySyntax.Proofs.TruthsAsNumbers

/-!
# Plans of trees

The plan of a tree (`Node.plan`) is its outline without places. It follows the schema, it has the
debugging text of the tree, and it shows nothing of the tokens (`Node.plan_mapTokens`). Sameness is
equality of plans, but for the truth values that count as numbers
(`Node.same_iff_counted_plan_eq`).

Two questions about a tree are decided by the values of its integers alone (`Node.Holds`). It has a
debugging text exactly if each of them can be written (`Node.isSome_debugText?_iff`). And if none of
them is a truth value, its plan has no truth values but those of boolean literals
(`Node.plain_plan`).
-/

namespace MonkeySyntax

open Outline (Conforms)

namespace Whole

theorem conforms_outline (w : Whole) : w.outline.Conforms := by
  cases w with
  | number value => exact .number value
  | truth value => exact .truth value

@[simp] theorem counted_outline (w : Whole) : w.outline.counted = .number w.toInt := by
  cases w <;> rfl

end Whole

namespace Node

/-! ### The outline of a tree -/

theorem outline_of_ne_text {n : Node} (h : ∀ value, n ≠ text value) :
    n.outline = .record n.kindName n.place? n.parts := by
  cases n with
  | text value => exact absurd rfl (h value)
  | _ => rfl

theorem mem_schema {n : Node} (h : ∀ value, n ≠ text value) :
    (n.kindName, n.parts.map Prod.fst) ∈ Outline.schema := by
  cases n with
  | text value => exact absurd rfl (h value)
  | bare family t => cases family <;> simp [kindName, parts, Outline.schema]
  | conditional t condition consequence alternative =>
    cases alternative <;> simp [kindName, parts, Outline.schema]
  | _ => simp [kindName, parts, Outline.schema]

/-- The outline of a tree follows the schema. -/
theorem conforms_outline (n : Node) : n.outline.Conforms := by
  induction n using inductionOnChildren with
  | step n ih =>
    by_cases htext : ∃ value, n = text value
    · obtain ⟨value, rfl⟩ := htext
      exact .text value
    · have hne : ∀ value, n ≠ text value := not_exists.mp htext
      rw [outline_of_ne_text hne]
      refine .record (mem_schema hne) ?_
      cases n with
      | conditional t condition consequence alternative =>
        cases alternative <;> simp_all [parts, children, Conforms.absent]
      | _ =>
        simp_all [parts, children, Conforms.text, Whole.conforms_outline, Conforms.truth,
          Conforms.sequence]

/-! ### Plans, form by form -/

/-- The plan of a tree is its outline without places. -/
def plan (n : Node) : Outline :=
  n.outline.unplaced

theorem unplacedEach_outlines (ns : List Node) :
    Outline.unplacedEach (outlines ns) = ns.map plan := by
  rw [outlines_eq_map, Outline.unplacedEach_eq_map, List.map_map]
  rfl

section Forms

open Outline (record sequence)

variable (t : Token) (m n o : Node) (ns : List Node) (x : String)

@[simp] theorem plan_bare (family : Family) :
    (bare family t).plan = record (bare family t).kindName none [] := rfl

@[simp] theorem plan_text : (text x).plan = .text x := rfl

@[simp] theorem plan_program :
    (program ns).plan = record "Program" none [("statements", sequence (ns.map plan))] := by
  rw [← unplacedEach_outlines]
  rfl

@[simp] theorem plan_identifier :
    (identifier t x).plan = record "Identifier" none [("value", .text x)] := rfl

@[simp] theorem plan_integer (w : Whole) :
    (integer t w).plan = record "IntegerLiteral" none [("value", w.outline)] := by
  cases w <;> rfl

@[simp] theorem plan_boolean (b : Bool) :
    (boolean t b).plan = record "BooleanLiteral" none [("value", .truth b)] := rfl

@[simp] theorem plan_string :
    (string t x).plan = record "StringLiteral" none [("value", .text x)] := rfl

@[simp] theorem plan_array :
    (array t ns).plan = record "ArrayLiteral" none [("elements", sequence (ns.map plan))] := by
  rw [← unplacedEach_outlines]
  rfl

@[simp] theorem plan_unary : (unary t x m).plan =
    record "PrefixExpression" none [("operator", .text x), ("right", m.plan)] := rfl

@[simp] theorem plan_binary : (binary t m x n).plan =
    record "InfixExpression" none [("left", m.plan), ("operator", .text x), ("right", n.plan)] :=
  rfl

@[simp] theorem plan_conditional_none : (conditional t m n none).plan =
    record "IfExpression" none
      [("condition", m.plan), ("consequence", n.plan), ("alternative", .absent)] := rfl

@[simp] theorem plan_conditional_some : (conditional t m n (some o)).plan =
    record "IfExpression" none
      [("condition", m.plan), ("consequence", n.plan), ("alternative", o.plan)] := rfl

@[simp] theorem plan_function : (function t ns m).plan =
    record "FunctionLiteral" none [("parameters", sequence (ns.map plan)), ("body", m.plan)] := by
  rw [← unplacedEach_outlines]
  rfl

@[simp] theorem plan_call : (call t m ns).plan =
    record "CallExpression" none [("function", m.plan), ("arguments", sequence (ns.map plan))] := by
  rw [← unplacedEach_outlines]
  rfl

@[simp] theorem plan_letStatement : (letStatement t m n).plan =
    record "LetStatement" none [("name", m.plan), ("value", n.plan)] := rfl

@[simp] theorem plan_returnStatement :
    (returnStatement t m).plan = record "ReturnStatement" none [("return_value", m.plan)] := rfl

@[simp] theorem plan_expressionStatement : (expressionStatement t m).plan =
    record "ExpressionStatement" none [("expression", m.plan)] := rfl

@[simp] theorem plan_block :
    (block t ns).plan = record "BlockStatement" none [("statements", sequence (ns.map plan))] := by
  rw [← unplacedEach_outlines]
  rfl

end Forms

/-- A tree has the debugging text of its plan. -/
theorem debugText?_plan (n : Node) : n.plan.debugText? = n.debugText? :=
  Outline.debugText?_unplaced n.outline

/-- The plan shows nothing of the tokens. -/
theorem plan_mapTokens (f : Token → Token) (n : Node) : (n.mapTokens f).plan = n.plan := by
  induction n using inductionOnChildren with
  | step n ih =>
    have heach (ns : List Node) (hns : ∀ c ∈ ns, c ∈ n.children) :
        (mapTokensEach f ns).map plan = ns.map plan := by
      rw [mapTokensEach_eq_map, List.map_map]
      exact List.map_congr_left fun c hc => ih c (hns c hc)
    cases n with
    | bare family t => cases family <;> rfl
    | conditional t condition consequence alternative =>
      cases alternative <;> simp_all [mapTokens, children]
    | _ => simp_all [mapTokens, children]

theorem map_plan_mapTokensEach (f : Token → Token) (ns : List Node) :
    (mapTokensEach f ns).map plan = ns.map plan := by
  rw [mapTokensEach_eq_map, List.map_map]
  exact List.map_congr_left fun n _ => plan_mapTokens f n

/-! ### Sameness -/

@[simp] theorem same_text (x y : String) : (text x).same (text y) = (x == y) := rfl

/-- No tree is planned like a part that is left out. -/
@[simp] theorem counted_plan_ne_absent (n : Node) : n.plan.counted ≠ .absent := by
  cases n with
  | conditional t condition consequence alternative =>
    cases alternative <;> simp [Outline.counted]
  | _ => simp [Outline.counted]

/-- If sameness of trees is equality of something about them, then also for lists. -/
theorem sameEach_iff_map_eq {β : Type} {f : Node → β} {ms ns : List Node}
    (ih : ∀ m ∈ ms, ∀ n, m.same n = true ↔ f m = f n) :
    sameEach ms ns = true ↔ ms.map f = ns.map f := by
  induction ms generalizing ns with
  | nil => cases ns <;> simp [sameEach]
  | cons m ms ihs =>
    cases ns with
    | nil => simp [sameEach]
    | cons n ns =>
      rw [sameEach_cons_cons, Bool.and_eq_true, List.map_cons, List.map_cons, List.cons.injEq,
        ih m List.mem_cons_self n, ihs fun m hm => ih m (List.mem_cons_of_mem _ hm)]

/-- **Trees are the same exactly if they have the same plan**, where truth values count as
numbers. -/
theorem same_iff_counted_plan_eq (a b : Node) :
    a.same b = true ↔ a.plan.counted = b.plan.counted := by
  induction a using inductionOnChildren generalizing b with
  | step a ih =>
    have heach {ms ns : List Node} (hms : ∀ c ∈ ms, c ∈ a.children) :
        sameEach ms ns = true ↔
          ms.map (Outline.counted ∘ plan) = ns.map (Outline.counted ∘ plan) :=
      sameEach_iff_map_eq fun m hm => ih m (hms m hm)
    -- Trees of different forms are not the same, and their plans differ in kind.
    cases a with
    | bare family t =>
      cases family <;> cases b with
      | bare family t => cases family <;> simp [same, kindName, Outline.counted]
      | conditional t condition consequence alternative =>
        cases alternative <;> simp [same, kindName, Outline.counted]
      | _ => simp [same, kindName, Outline.counted]
    | conditional t condition consequence alternative =>
      cases b with
      | bare family t =>
        cases family <;> cases alternative <;> simp [same, kindName, Outline.counted]
      | conditional t' condition' consequence' alternative' =>
        cases alternative <;> cases alternative' <;>
          simp_all [same, children, Outline.counted, eq_comm (a := Outline.absent), and_assoc]
      | _ => cases alternative <;> simp [same, Outline.counted]
    | _ =>
      cases b with
      | bare family t => cases family <;> simp [same, kindName, Outline.counted]
      | conditional t condition consequence alternative =>
        cases alternative <;> simp [same, Outline.counted]
      | _ =>
        first
        | (simp [same, Outline.counted]; done)
        | simp_all [children, Outline.counted, toInt_bool_eq_iff, and_assoc]

/-- Trees that have the same plans, one by one, are the same. -/
theorem sameEach_of_map_plan_eq {ms ns : List Node} (h : ms.map plan = ns.map plan) :
    sameEach ms ns = true := by
  rw [sameEach_iff_map_eq fun m _ n => same_iff_counted_plan_eq m n]
  have hcounted := congrArg (List.map Outline.counted) h
  rwa [List.map_map, List.map_map] at hcounted

/-- **Sameness ignores tokens.** -/
theorem sameEach_mapTokensEach (f : Token → Token) (ns : List Node) :
    sameEach (mapTokensEach f ns) ns = true :=
  sameEach_of_map_plan_eq (map_plan_mapTokensEach f ns)

/-! ### The values of integers -/

/-- An integer of this value occurs in the tree. -/
def Holds (n : Node) (w : Whole) : Prop :=
  ∃ t, (integer t w).IsIn n

/-- What holds of all values in a tree holds of its own, if it is an integer, and of those below. -/
theorem forall_holds_iff {P : Whole → Prop} (n : Node) : (∀ w, n.Holds w → P w) ↔
    (∀ t w, n = integer t w → P w) ∧ ∀ c ∈ n.children, ∀ w, c.Holds w → P w := by
  constructor
  · intro h
    refine ⟨fun t w hn => h w ⟨t, hn ▸ .self⟩, fun c hc w hw => ?_⟩
    obtain ⟨t, ht⟩ := hw
    exact h w ⟨t, .child hc ht⟩
  · rintro ⟨hown, hbelow⟩ w ⟨t, ht⟩
    cases ht with
    | self => exact hown t w rfl
    | child hc ht => exact hbelow _ hc w ⟨t, ht⟩

/-- A tree has a debugging text exactly if the values of its integers have. -/
theorem isSome_debugText?_iff_forall_holds (n : Node) : n.debugText?.isSome = true ↔
    ∀ w, n.Holds w → w.outline.debugText?.isSome = true := by
  induction n using inductionOnChildren with
  | step n ih =>
    rw [forall_holds_iff, ← forall₂_congr ih, ← debugText?_plan]
    simp only [← debugText?_plan]
    cases n with
    | conditional t condition consequence alternative =>
      cases alternative <;> simp [children]
    | _ => simp [children, or_imp, forall_and]

/-- **A tree has a debugging text exactly if its numbers can be written.** -/
theorem isSome_debugText?_iff (n : Node) : n.debugText?.isSome = true ↔
    ∀ i, n.Holds (.number i) → (Nat.toDigits 10 i.natAbs).length ≤ Numeral.maxDecimalDigits := by
  rw [isSome_debugText?_iff_forall_holds]
  constructor
  · intro h i hi
    exact Numeral.isSome_decimalText?_iff.mp (h (.number i) hi)
  · intro h w hw
    cases w with
    | number i => exact Numeral.isSome_decimalText?_iff.mpr (h i hw)
    | truth b => exact Outline.isSome_debugText?_truth b

/-- **The plan of a tree is plain** if no integer in it is a truth value. -/
theorem plain_plan {n : Node} (h : ∀ b, ¬ n.Holds (.truth b)) : n.plan.Plain := by
  induction n using inductionOnChildren with
  | step n ih =>
    have hchildren : ∀ c ∈ n.children, c.plan.Plain := fun c hc =>
      ih c hc fun b ⟨t, ht⟩ => h b ⟨t, .child hc ht⟩
    cases n with
    | bare family t => cases family <;> simp [kindName, Outline.plain_record_iff]
    | text value => exact .text value
    | boolean t value => exact .boolean none value
    | integer t w =>
      cases w with
      | number value => simp [Whole.outline, Outline.plain_record_iff, Outline.Plain.number]
      | truth value => exact absurd ⟨t, .self⟩ (h value)
    | conditional t condition consequence alternative =>
      cases alternative <;>
        simp_all [children, Outline.plain_record_iff, Outline.Plain.absent]
    | _ =>
      simp_all [children, Outline.plain_record_iff, Outline.plain_sequence_iff,
        Outline.Plain.text]

end Node

end MonkeySyntax
