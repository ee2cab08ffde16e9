import MonkeySyntax.Parser.Grammar
import MonkeySyntax.Proofs.Meets

/-!
# Two actions side by side

A statement about two runs compares how they end: both are done, and then their values and parsers
are related, or both have rejected the text, and then their parsers are. `Outcome.Agrees` says so.
As with `Outcome.Meets`, there is one lemma for each way of putting actions together, so that one
rule of the grammar, run from two parsers, is followed on both sides at once.

Agreement is asked only of runs that end. How much fuel each side is given plays no part in it, and
the rounds of two loops are compared one by one, however many each loop may take.
-/

namespace MonkeySyntax

variable {σ τ α α' β β' : Type}

/-- The outcomes correspond: `D` holds of the values and parsers of two actions that are done, and
`R` of the parsers of two that have rejected the text. -/
def Outcome.Agrees (D : α → α' → Parser σ → Parser τ → Prop) (R : Parser σ → Parser τ → Prop) :
    Outcome σ α → Outcome τ α' → Prop
  | .outOfFuel, _ => True
  | _, .outOfFuel => True
  | .done a p, .done b q => D a b p q
  | .rejected p, .rejected q => R p q
  | _, _ => False

namespace Outcome

variable {D D' : α → α' → Parser σ → Parser τ → Prop} {R R' : Parser σ → Parser τ → Prop}
  {o : Outcome σ α} {o' : Outcome τ α'}

theorem Agrees.mono (h : o.Agrees D R o') (hD : ∀ a b p q, D a b p q → D' a b p q)
    (hR : ∀ p q, R p q → R' p q) : o.Agrees D' R' o' := by
  cases o <;> cases o'
  case done.done => exact hD _ _ _ _ h
  case rejected.rejected => exact hR _ _ h
  all_goals exact h

/-- What is known of the second action alone may be used. -/
theorem Agrees.and_meets {E : α' → Parser τ → Prop} {S : Parser τ → Prop}
    (h : o.Agrees D R o') (h' : o'.Meets True E S) :
    o.Agrees (fun a b p q => D a b p q ∧ E b q) (fun p q => R p q ∧ S q) o' := by
  cases o <;> cases o'
  case done.done => exact ⟨h, h'⟩
  case rejected.rejected => exact ⟨h, h'⟩
  all_goals exact h

theorem Agrees.of_done {a : α} {b : α'} {p : Parser σ} {q : Parser τ} (h : o.Agrees D R o')
    (ho : o = .done a p) (ho' : o' = .done b q) : D a b p q := by
  subst ho ho'
  exact h

end Outcome

namespace Parse

variable {R : Parser σ → Parser τ → Prop} {p : Parser σ} {q : Parser τ}

/-! ### Sequences -/

@[simp] theorem agrees_pure {D : α → α' → Parser σ → Parser τ → Prop} {a : α} {b : α'} :
    ((pure a : Parse σ α).run p).Agrees D R ((pure b : Parse τ α').run q) ↔ D a b p q := Iff.rfl

/-- One action after another, on both sides. -/
theorem agrees_bind {D : β → β' → Parser σ → Parser τ → Prop} {m : Parse σ α}
    {m' : Parse τ α'} {f : α → Parse σ β} {f' : α' → Parse τ β'}
    (h : (m.run p).Agrees (fun a b p q => ((f a).run p).Agrees D R ((f' b).run q)) R (m'.run q)) :
    ((m >>= f).run p).Agrees D R ((m' >>= f').run q) := by
  rw [run_bind, run_bind]
  cases hm : m.run p with
  | done a r =>
    cases hm' : m'.run q with
    | done b r' =>
      rw [hm, hm'] at h
      exact h
    | rejected r' =>
      rw [hm, hm'] at h
      exact h.elim
    | outOfFuel =>
      -- The second side has run out, so nothing is asked of the first.
      change ((f a).run r).Agrees D R .outOfFuel
      cases (f a).run r <;> trivial
  | rejected r =>
    cases hm' : m'.run q with
    | done b r' =>
      rw [hm, hm'] at h
      exact h.elim
    | rejected r' =>
      rw [hm, hm'] at h
      exact h
    | outOfFuel => trivial
  | outOfFuel => trivial

section Primitive

variable {D : β → β' → Parser σ → Parser τ → Prop}

@[simp] theorem agrees_current {f : Token → Parse σ β} {f' : Token → Parse τ β'} :
    ((current >>= f).run p).Agrees D R ((current >>= f').run q) ↔
      ((f p.current).run p).Agrees D R ((f' q.current).run q) := Iff.rfl

@[simp] theorem agrees_peek {f : Token → Parse σ β} {f' : Token → Parse τ β'} :
    ((peek >>= f).run p).Agrees D R ((peek >>= f').run q) ↔
      ((f p.peek).run p).Agrees D R ((f' q.peek).run q) := Iff.rfl

@[simp] theorem agrees_onClosed {f : Bool → Parse σ β} {f' : Bool → Parse τ β'} :
    ((onClosed >>= f).run p).Agrees D R ((onClosed >>= f').run q) ↔
      ((f p.onClosed).run p).Agrees D R ((f' q.onClosed).run q) := Iff.rfl

@[simp] theorem agrees_advance [TokenStream σ] [TokenStream τ] {f : Unit → Parse σ β}
    {f' : Unit → Parse τ β'} :
    ((advance >>= f).run p).Agrees D R ((advance >>= f').run q) ↔
      ((f ()).run p.advance).Agrees D R ((f' ()).run q.advance) := Iff.rfl

@[simp] theorem agrees_closeBlock {f : Unit → Parse σ β} {f' : Unit → Parse τ β'} :
    ((closeBlock >>= f).run p).Agrees D R ((closeBlock >>= f').run q) ↔
      ((f ()).run p.closeBlock).Agrees D R ((f' ()).run q.closeBlock) := Iff.rfl

@[simp] theorem agrees_reject {d d' : Diagnostic} :
    ((reject d : Parse σ β).run p).Agrees D R ((reject d' : Parse τ β').run q) ↔
      R (p.report d) (q.report d') := Iff.rfl

end Primitive

theorem agrees_attempt {D : Option α → Option α' → Parser σ → Parser τ → Prop} {m : Parse σ α}
    {m' : Parse τ α'}
    (h : (m.run p).Agrees (fun a b p q => D (some a) (some b) p q)
      (fun p q => D none none p.drop q.drop) (m'.run q)) :
    ((attempt m).run p).Agrees D R ((attempt m').run q) := by
  rw [run_attempt, run_attempt]
  cases hm : m.run p <;> cases hm' : m'.run q <;> rw [hm, hm'] at h
  case done.done => exact h
  case rejected.rejected => exact h
  case done.rejected => exact h.elim
  case rejected.done => exact h.elim
  all_goals trivial

/-! ### Loops -/

/-- Two rounds end alike: `N` holds of what they pass on, or `S` of what they stop with. -/
def Round.Agrees (N : α → α' → Prop) (S : β → β' → Prop) : Round α β → Round α' β' → Prop
  | .next a, .next b => N a b
  | .stop a, .stop b => S a b
  | _, _ => False

theorem Round.Agrees.mono {N N' : α → α' → Prop} {S S' : β → β' → Prop} {x : Round α β}
    {y : Round α' β'} (h : Round.Agrees N S x y) (hN : ∀ a b, N a b → N' a b)
    (hS : ∀ a b, S a b → S' a b) : Round.Agrees N' S' x y := by
  cases x <;> cases y
  case next.next => exact hN _ _ h
  case stop.stop => exact hS _ _ h
  all_goals exact h

/-- **Loops round by round.** What holds of the two sides before a round holds before the next. -/
theorem agrees_rounds {D : β → β' → Parser σ → Parser τ → Prop} {round : α → Parse σ (Round α β)}
    {round' : α' → Parse τ (Round α' β')} (I : α → α' → Parser σ → Parser τ → Prop)
    (step : ∀ a b p q, I a b p q → ((round a).run p).Agrees
      (fun x y p q => Round.Agrees (fun a b => I a b p q) (fun a b => D a b p q) x y) R
      ((round' b).run q))
    {a : α} {b : α'} (hI : I a b p q) (bound bound' : Nat) :
    ((rounds round bound a).run p).Agrees D R ((rounds round' bound' b).run q) := by
  induction bound generalizing bound' a b p q with
  | zero => trivial
  | succ bound ih =>
    cases bound' with
    | zero =>
      change Outcome.Agrees D R _ .outOfFuel
      cases (rounds round (bound + 1) a).run p <;> trivial
    | succ bound' =>
      rw [rounds, rounds]
      refine agrees_bind ((step a b p q hI).mono (fun x y p' q' hxy => ?_) fun _ _ h => h)
      cases x with
      | next a' =>
        cases y with
        | next b' => exact ih hxy bound'
        | stop b' => exact hxy.elim
      | stop a' =>
        cases y with
        | next b' => exact hxy.elim
        | stop b' => exact hxy

end Parse

end MonkeySyntax
