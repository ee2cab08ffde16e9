import MonkeySyntax.Parser.Grammar

/-!
# What an action leaves behind

A rule of the grammar is a sequence of small actions, and a statement about it says what holds when
it is done, what holds when it has rejected the text, and whether it may have run out of fuel.
`Outcome.Meets` is the three in one, and the lemmas below carry it through a sequence: for each way
of putting actions together there is one, which turns a statement about the whole into statements
about the parts. A rule is then followed from its first action to its last, and its recursion never
has to be opened twice.

The answer to the question of fuel is a proposition `F`. With `F := False` a statement says that the
action ends; with `F := True` it speaks of the actions that end. Loops are treated by an invariant,
and by a number that each round makes smaller (`meets_rounds`).
-/

namespace MonkeySyntax

variable {σ α β : Type}

/-- The outcome is as wished: `D` holds of the value and the parser of an action that is done, and
`R` of the parser of one that has rejected the text; `F` is whether it may have run out of fuel. -/
def Outcome.Meets (F : Prop) (D : α → Parser σ → Prop) (R : Parser σ → Prop) :
    Outcome σ α → Prop
  | .done a q => D a q
  | .rejected q => R q
  | .outOfFuel => F

namespace Outcome

variable {F : Prop} {D D' : α → Parser σ → Prop} {R R' : Parser σ → Prop} {o : Outcome σ α}

theorem Meets.mono (h : o.Meets F D R) (hD : ∀ a q, D a q → D' a q) (hR : ∀ q, R q → R' q) :
    o.Meets F D' R' := by
  cases o with
  | done a q => exact hD a q h
  | rejected q => exact hR q h
  | outOfFuel => exact h

/-- Two wishes at once. -/
theorem Meets.and (h : o.Meets F D R) (h' : o.Meets F D' R') :
    o.Meets F (fun a q => D a q ∧ D' a q) fun q => R q ∧ R' q := by
  cases o with
  | done a q => exact ⟨h, h'⟩
  | rejected q => exact ⟨h, h'⟩
  | outOfFuel => exact h

/-- An action that ends and never rejects the text is done. -/
theorem Meets.exists_done (h : o.Meets False D fun _ => False) : ∃ a q, o = .done a q ∧ D a q := by
  cases o with
  | done a q => exact ⟨a, q, rfl, h⟩
  | rejected q => exact h.elim
  | outOfFuel => exact h.elim

end Outcome

namespace Parse

variable {F : Prop} {R : Parser σ → Prop} {p : Parser σ}

/-! ### Sequences -/

@[simp] theorem meets_pure {D : α → Parser σ → Prop} {a : α} :
    ((pure a : Parse σ α).run p).Meets F D R ↔ D a p := Iff.rfl

@[simp] theorem meets_bind {D : β → Parser σ → Prop} {m : Parse σ α} {f : α → Parse σ β} :
    ((m >>= f).run p).Meets F D R ↔
      (m.run p).Meets F (fun a q => ((f a).run q).Meets F D R) R := by
  rw [run_bind]
  cases m.run p <;> rfl

@[simp] theorem meets_current {D : Token → Parser σ → Prop} :
    (current.run p).Meets F D R ↔ D p.current p := Iff.rfl

@[simp] theorem meets_peek {D : Token → Parser σ → Prop} :
    (peek.run p).Meets F D R ↔ D p.peek p := Iff.rfl

@[simp] theorem meets_onClosed {D : Bool → Parser σ → Prop} :
    (onClosed.run p).Meets F D R ↔ D p.onClosed p := Iff.rfl

@[simp] theorem meets_advance [TokenStream σ] {D : Unit → Parser σ → Prop} :
    (advance.run p).Meets F D R ↔ D () p.advance := Iff.rfl

@[simp] theorem meets_closeBlock {D : Unit → Parser σ → Prop} :
    (closeBlock.run p).Meets F D R ↔ D () p.closeBlock := Iff.rfl

@[simp] theorem meets_reject {D : α → Parser σ → Prop} {d : Diagnostic} :
    ((reject d : Parse σ α).run p).Meets F D R ↔ R (p.report d) := Iff.rfl

@[simp] theorem meets_outOfFuel {D : α → Parser σ → Prop} :
    ((outOfFuel : Parse σ α).run p).Meets F D R ↔ F := Iff.rfl

theorem meets_expect [TokenStream σ] {D : Unit → Parser σ → Prop} {kind : TokenKind}
    (hD : p.peek.kind = kind → D () p.advance)
    (hR : p.peek.kind ≠ kind → R (p.report (.expected kind p.peek))) :
    ((expect kind).run p).Meets F D R := by
  rw [run_expect]
  split
  · next h => exact hD h
  · next h => exact hR h

@[simp] theorem meets_attempt {D : Option α → Parser σ → Prop} {m : Parse σ α} :
    ((attempt m).run p).Meets F D R ↔
      (m.run p).Meets F (fun a q => D (some a) q) (fun q => D none q.drop) := by
  rw [run_attempt]
  cases m.run p <;> rfl

/-! ### Loops -/

/-- **Loops by invariant.** `I` holds whenever a round begins, and each round that is not the last
one makes the number smaller; so a bound above the number is enough for the loop. -/
theorem meets_rounds {D : β → Parser σ → Prop} {round : α → Parse σ (Round α β)}
    (I : α → Parser σ → Prop) (number : Parser σ → Nat)
    (step : ∀ a q, I a q → ((round a).run q).Meets F
      (fun
        | .next a', r => I a' r ∧ (F ∨ number r < number q)
        | .stop b, r => D b r) R)
    {a : α} {bound : Nat} (hI : I a p) (hF : F ∨ number p < bound) :
    ((rounds round bound a).run p).Meets F D R := by
  induction bound generalizing a p with
  | zero => exact hF.elim (fun hF => hF) fun h => absurd h (Nat.not_lt_zero _)
  | succ bound ih =>
    rw [rounds, meets_bind]
    refine (step a p hI).mono (fun o r hr => ?_) fun _ h => h
    cases o with
    | next a' =>
      obtain ⟨hI', hlt⟩ := hr
      refine ih hI' ?_
      rcases hF with hF | hF
      · exact .inl hF
      · exact hlt.imp_right fun hlt => by omega
    | stop b => exact hr

end Parse

end MonkeySyntax
