import MonkeySyntax.Proofs.Digits
import MonkeySyntax.Proofs.Plan

/-!
# Equality, debugging text and JSON form see the same tree

There are three ways to tell two trees apart: to ask whether they are equal, to look at their
debugging texts, and to look at their JSON forms without lines and columns. They agree
(`equality_sees_the_tree`), whatever names, strings, numbers and tokens the trees are made of, but
for two things. A tree with a number of too many digits has no debugging text. And a truth value in
the place of a number is equal to this number, while it is shown as what it is
(`not_same_debugText_of_equal`).

All three are compared with the plan of a tree. Equality is equality of plans in which truth values
count as numbers (`Node.same_iff_counted_plan_eq`). Text and JSON form are functions of the plan that
lose nothing, which is what `Outline.unplaced_eq_of_debugText?` and `Outline.unplaced_eq_of_agrees`
say of outlines that follow the schema. And the plan shows no tokens.
-/

namespace MonkeySyntax

namespace Node

variable {a b : Node} {s : String}

/-- No truth value stands in the place of a number. -/
def NumbersOnly (n : Node) : Prop :=
  ∀ b, ¬ n.Holds (.truth b)

/-- Where there are numbers only, sameness is equality of plans. -/
theorem same_iff_plan_eq (ha : a.NumbersOnly) (hb : b.NumbersOnly) :
    a.same b = true ↔ a.plan = b.plan := by
  rw [same_iff_counted_plan_eq]
  exact ⟨(plain_plan ha).eq_of_counted_eq (plain_plan hb), congrArg Outline.counted⟩

/-! ### Debugging texts -/

/-- Trees with the same debugging text have the same plan. -/
theorem plan_eq_of_debugText? (ha : a.debugText? = some s) (hb : b.debugText? = some s) :
    a.plan = b.plan :=
  Outline.unplaced_eq_of_debugText? a.conforms_outline b.conforms_outline ha hb

/-- **Trees with the same debugging text are the same.** -/
theorem same_of_debugText? (ha : a.debugText? = some s) (hb : b.debugText? = some s) :
    a.same b = true := by
  rw [same_iff_counted_plan_eq, plan_eq_of_debugText? ha hb]

/-- **Trees are the same exactly if they have the same debugging text**, if there are numbers only
and one of the trees has a text at all. -/
theorem same_iff_debugText? (ha : a.NumbersOnly) (hb : b.NumbersOnly) (hs : a.debugText? = some s) :
    a.same b = true ↔ b.debugText? = some s := by
  rw [same_iff_plan_eq ha hb]
  constructor
  · intro h
    rw [← debugText?_plan, ← h, debugText?_plan, hs]
  · exact plan_eq_of_debugText? hs

/-! ### JSON forms -/

/-- The JSON form without lines and columns shows the plan. -/
theorem toJson_without_placeNames (n : Node) :
    n.toJson.without Outline.placeNames = n.plan.toJson :=
  Outline.toJson_without n.conforms_outline

/-- With truth values as numbers it shows the plan in which they count as such. -/
theorem counted_toJson_without_placeNames (n : Node) :
    n.toJson.counted.without Outline.placeNames = n.outline.counted.unplaced.toJson := by
  have hcounted : n.outline.counted.toJson = n.toJson.counted :=
    Outline.toJson_counted n.conforms_outline
  rw [← hcounted]
  exact Outline.toJson_without n.conforms_outline.counted

/-- **Trees are the same exactly if their JSON forms agree**, apart from lines and columns, with
truth values as numbers. -/
theorem same_iff_agrees (a b : Node) : a.same b = true ↔
    (a.toJson.counted.without Outline.placeNames).Agrees
      (b.toJson.counted.without Outline.placeNames) := by
  rw [same_iff_counted_plan_eq, counted_toJson_without_placeNames,
    counted_toJson_without_placeNames, plan, plan, Outline.counted_unplaced a.conforms_outline,
    Outline.counted_unplaced b.conforms_outline]
  constructor
  · intro h
    rw [h]
    exact .refl _
  · exact Outline.unplaced_eq_of_agrees a.conforms_outline.counted b.conforms_outline.counted

/-- Where there are numbers only, the JSON forms are even equal, the order of members included. -/
theorem same_iff_toJson_eq (ha : a.NumbersOnly) (hb : b.NumbersOnly) : a.same b = true ↔
    a.toJson.without Outline.placeNames = b.toJson.without Outline.placeNames := by
  rw [same_iff_plan_eq ha hb, toJson_without_placeNames, toJson_without_placeNames]
  constructor
  · exact congrArg Outline.toJson
  · intro h
    refine Outline.unplaced_eq_of_agrees a.conforms_outline b.conforms_outline ?_
    change Json.Agrees a.plan.toJson b.plan.toJson
    rw [h]
    exact .refl _

/-! ### Trees without tokens -/

/-- The tree with every token replaced by one and the same. -/
def tokenless (n : Node) : Node :=
  n.mapTokens fun _ => default

theorem plan_eq_of_tokenless_eq (h : a.tokenless = b.tokenless) : a.plan = b.plan :=
  calc a.plan
      = a.tokenless.plan := (plan_mapTokens _ a).symm
    _ = b.tokenless.plan := by rw [h]
    _ = b.plan := plan_mapTokens _ b

/-- **Tokens have no say in sameness.** -/
theorem same_eq_of_tokenless_eq {a' b' : Node} (ha : a.tokenless = a'.tokenless)
    (hb : b.tokenless = b'.tokenless) : a.same b = a'.same b' := by
  rw [Bool.eq_iff_iff, same_iff_counted_plan_eq, same_iff_counted_plan_eq,
    plan_eq_of_tokenless_eq ha, plan_eq_of_tokenless_eq hb]

end Node

/-! ### Different items of a list -/

/-- If items are equal exactly when their images are, then different items have different images,
and taking images commutes with leaving out repetitions. -/
theorem map_eraseDups {α β : Type} [BEq α] [BEq β] [LawfulBEq β] {f : α → β} :
    ∀ xs : List α, (∀ a ∈ xs, ∀ b ∈ xs, (a == b) = true ↔ f a = f b) →
      xs.eraseDups.map f = (xs.map f).eraseDups
  | [], _ => rfl
  | x :: xs, h => by
    have hbeq : ∀ y ∈ xs, (f y == f x) = (y == x) := by
      intro y hy
      rw [Bool.eq_iff_iff, beq_iff_eq, h y (List.mem_cons_of_mem _ hy) x List.mem_cons_self]
    have hfilter : (xs.map f).filter (fun y => !y == f x) = (xs.filter fun y => !y == x).map f := by
      rw [List.filter_map]
      refine congrArg (List.map f) (List.filter_congr fun y hy => ?_)
      rw [Function.comp_apply, hbeq y hy]
    have hrest : ∀ y ∈ xs.filter fun y => !y == x, y ∈ x :: xs := fun y hy =>
      List.mem_cons_of_mem _ (List.mem_filter.mp hy).1
    rw [List.map_cons, List.eraseDups_cons, List.eraseDups_cons, List.map_cons, hfilter,
      map_eraseDups (xs.filter fun y => !y == x) fun a ha b hb => h a (hrest a ha) b (hrest b hb)]
termination_by xs => xs.length
decreasing_by exact Nat.lt_succ_of_le (List.length_filter_le _ xs)

/-! ### The whole -/

/-- Equality of what is shown as trees, its debugging text and its JSON form see the same. -/
structure SeeTheSame {α : Type} [BEq α] (tree : α → Node) (debugText? : α → Option String)
    (toJson : α → Json) : Prop where
  /-- There is a debugging text exactly if no number has too many digits. -/
  isSome_iff : ∀ a, (debugText? a).isSome = true ↔ ∀ i, (tree a).Holds (.number i) →
    (Nat.toDigits 10 i.natAbs).length ≤ Numeral.maxDecimalDigits
  /-- With numbers only, what is equal to something with a debugging text is what has the same. -/
  debugText?_iff : ∀ a b s, (tree a).NumbersOnly → (tree b).NumbersOnly → debugText? a = some s →
    ((a == b) = true ↔ debugText? b = some s)
  /-- In any case two are equal if they have the same debugging text. -/
  beq_of_debugText? : ∀ a b s, debugText? a = some s → debugText? b = some s → (a == b) = true
  /-- With numbers only, two are equal exactly if their JSON forms are, once lines and columns are
  erased. -/
  toJson_iff : ∀ a b, (tree a).NumbersOnly → (tree b).NumbersOnly →
    ((a == b) = true ↔ (toJson a).without ["line", "col"] = (toJson b).without ["line", "col"])
  /-- In any case they are equal exactly if these agree with truth values as numbers, up to the order
  of members. -/
  agrees_iff : ∀ a b, (a == b) = true ↔ ((toJson a).counted.without ["line", "col"]).Agrees
    ((toJson b).counted.without ["line", "col"])
  equivalence : Equivalence fun a b : α => (a == b) = true
  /-- Equality does not depend on the tokens. -/
  beq_eq_beq : ∀ a b a' b', (tree a).tokenless = (tree a').tokenless →
    (tree b).tokenless = (tree b').tokenless → (a == b) = (a' == b')
  /-- With numbers only, there are as many different items in a list as different debugging
  texts, if all have one. -/
  distinct : ∀ xs : List α, (∀ a ∈ xs, (tree a).NumbersOnly ∧ (debugText? a).isSome = true) →
    xs.eraseDups.length = (xs.filterMap debugText?).eraseDups.length

/-- It is enough that equality, text and JSON form are those of the trees. -/
theorem SeeTheSame.of_tree {α : Type} [BEq α] {tree : α → Node}
    (hbeq : ∀ a b, (a == b) = (tree a).same (tree b)) :
    SeeTheSame tree (fun a => (tree a).debugText?) (fun a => (tree a).toJson) where
  isSome_iff a := (tree a).isSome_debugText?_iff
  debugText?_iff a b s ha hb hs := by
    rw [hbeq]
    exact Node.same_iff_debugText? ha hb hs
  beq_of_debugText? a b s ha hb := by
    rw [hbeq]
    exact Node.same_of_debugText? ha hb
  toJson_iff a b ha hb := by
    rw [hbeq]
    exact Node.same_iff_toJson_eq ha hb
  agrees_iff a b := by
    rw [hbeq]
    exact Node.same_iff_agrees (tree a) (tree b)
  equivalence := by
    simp only [hbeq, Node.same_iff_counted_plan_eq]
    exact ⟨fun _ => rfl, Eq.symm, Eq.trans⟩
  beq_eq_beq a b a' b' ha hb := by
    rw [hbeq, hbeq]
    exact Node.same_eq_of_tokenless_eq ha hb
  distinct xs h := by
    have htext : ∀ a ∈ xs, (tree a).debugText? = some (((tree a).debugText?).getD "") := by
      intro a ha
      obtain ⟨s, hs⟩ := Option.isSome_iff_exists.mp (h a ha).2
      rw [hs, Option.getD_some]
    have htexts : xs.filterMap (fun a => (tree a).debugText?) =
        xs.map fun a => ((tree a).debugText?).getD "" := by
      rw [List.filterMap_congr htext, List.filterMap_eq_map']
    rw [htexts, ← map_eraseDups xs fun a ha b hb => ?_, List.length_map]
    rw [hbeq, Node.same_iff_debugText? (h a ha).1 (h b hb).1 (htext a ha), htext b hb,
      Option.some.injEq, Option.getD_some, eq_comm]

/-- **Equality, debugging text and JSON form see exactly the same tree**, for all trees and for all
programs. Two are equal exactly if their JSON forms agree once lines and columns are erased. If no
number in them has too many digits they have debugging texts, and with numbers only in the places of
numbers they are equal exactly if these are the same. Equality is an equivalence relation that does
not depend on the tokens, and the number of different items in a list is that of different debugging
texts. -/
theorem equality_sees_the_tree :
    SeeTheSame (fun n : Node => n) Node.debugText? Node.toJson ∧
      SeeTheSame Program.toNode Program.debugText? Program.toJson :=
  ⟨.of_tree fun _ _ => rfl, .of_tree fun _ _ => rfl⟩

/-- A negative number, written in two ways that cannot be read as it. -/
theorem equality_sees_the_tree_negative :
    (Node.integer ⟨.int, "05", 1, 8⟩ (.number (-5))).NumbersOnly ∧
    (Node.integer ⟨.string, "x", 7, 9⟩ (.number (-5))).NumbersOnly ∧
    (Node.integer ⟨.int, "05", 1, 8⟩ (.number (-5))).debugText? =
      some "IntegerLiteral(value=-5)" ∧
    ((Node.integer ⟨.int, "05", 1, 8⟩ (.number (-5)) ==
      Node.integer ⟨.string, "x", 7, 9⟩ (.number (-5))) = true ↔
        (Node.integer ⟨.string, "x", 7, 9⟩ (.number (-5))).debugText? =
          some "IntegerLiteral(value=-5)") := by
  have hnumber (t : Token) : (Node.integer t (.number (-5))).NumbersOnly := by
    rintro b ⟨u, hu⟩
    cases hu with
    | child hc => cases hc
  have htext : (Node.integer ⟨.int, "05", 1, 8⟩ (.number (-5))).debugText? =
      some "IntegerLiteral(value=-5)" := by
    decide +kernel
  exact ⟨hnumber _, hnumber _, htext,
    equality_sees_the_tree.1.debugText?_iff _ _ _ (hnumber _) (hnumber _) htext⟩

/-! ### What is not shown -/

/-- A number with too many digits has no debugging text. -/
theorem Node.debugText?_eq_none_of_le {t : Token} {n : Nat}
    (h : 10 ^ Numeral.maxDecimalDigits ≤ n) :
    (Node.integer t (.number (Int.ofNat n))).debugText? = none := by
  rw [← Option.not_isSome_iff_eq_none, Node.isSome_debugText?_iff]
  intro hdigits
  exact Nat.not_le_of_lt (Numeral.lt_length_toDigits_of_le h) (hdigits (Int.ofNat n) ⟨t, .self⟩)

/-- One followed by as many zeros as a number may have digits. -/
def Node.tooLong : Node :=
  .integer ⟨.int, "1", 1, 1⟩ (.number (Int.ofNat (10 ^ Numeral.maxDecimalDigits)))

/-- **Equal trees need not have the same debugging text.** A number of 4301 digits is equal to itself
but has no text; and the truth value that counts as one is equal to one but has another text. -/
theorem not_same_debugText_of_equal :
    ((Node.tooLong == Node.tooLong) = true ∧ Node.tooLong.debugText? = none) ∧
    ((Node.integer ⟨.int, "1", 1, 1⟩ (.truth true) ==
        Node.integer ⟨.int, "1", 1, 1⟩ (.number 1)) = true ∧
      (Node.integer ⟨.int, "1", 1, 1⟩ (.truth true)).debugText? =
        some "IntegerLiteral(value=True)" ∧
      (Node.integer ⟨.int, "1", 1, 1⟩ (.number 1)).debugText? =
        some "IntegerLiteral(value=1)") ∧
    ¬ ∀ a b : Node, (a == b) = true ↔ ∃ s, a.debugText? = some s ∧ b.debugText? = some s := by
  have hlong : Node.tooLong.debugText? = none := Node.debugText?_eq_none_of_le (Nat.le_refl _)
  have hself : (Node.tooLong == Node.tooLong) = true :=
    (Node.same_iff_counted_plan_eq _ _).mpr rfl
  refine ⟨⟨hself, hlong⟩, ⟨by decide +kernel, by decide +kernel, by decide +kernel⟩, fun h => ?_⟩
  obtain ⟨s, hs, -⟩ := (h Node.tooLong Node.tooLong).mp hself
  rw [hlong] at hs
  cases hs

end MonkeySyntax
