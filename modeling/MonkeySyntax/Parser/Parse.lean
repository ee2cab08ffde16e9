import MonkeySyntax.Parser.State

/-!
# Parsing actions

A rule of the grammar is an action on the state of a parser. It ends in one of three ways: it is
*done* with a value; it *rejects* the text, after having reported exactly why; or it has *run out*
of the fuel that makes its definition evidently terminating. Actions follow one another as long as
they are done, and `attempt` turns a rejection into an answer, which is where recovery begins. A
loop (`rounds`) repeats an action of its own, its *round*, until that says to stop.

Running out is an ending of its own so that it cannot be mistaken for a judgement on the text. A run
that is given the fuel its parser asks for (`Parser.fuel`) never ends so.
-/

namespace MonkeySyntax

/-- How an action ends. -/
inductive Outcome (σ α : Type) where
  | done (value : α) (after : Parser σ)
  | rejected (after : Parser σ)
  | outOfFuel

/-- The value, if there is one, and the parser behind the action; without fuel nothing has happened
to the parser `before` it. -/
def Outcome.result {σ α : Type} (before : Parser σ) : Outcome σ α → Option α × Parser σ
  | done a after => (some a, after)
  | rejected after => (none, after)
  | outOfFuel => (none, before)

/-- An action that reads from a parser and, when it is done, has a value. -/
structure Parse (σ α : Type) where
  run : Parser σ → Outcome σ α

namespace Parse

variable {σ α β : Type}

instance : Monad (Parse σ) where
  pure a := ⟨fun p => .done a p⟩
  bind m f := ⟨fun p =>
    match m.run p with
    | .done a q => (f a).run q
    | .rejected q => .rejected q
    | .outOfFuel => .outOfFuel⟩

@[simp] theorem run_pure (a : α) (p : Parser σ) : (pure a : Parse σ α).run p = .done a p := rfl

theorem run_bind (m : Parse σ α) (f : α → Parse σ β) (p : Parser σ) :
    (m >>= f).run p =
      match m.run p with
      | .done a q => (f a).run q
      | .rejected q => .rejected q
      | .outOfFuel => .outOfFuel := rfl

theorem run_bind_of_done {m : Parse σ α} {f : α → Parse σ β} {p q : Parser σ} {a : α}
    (h : m.run p = .done a q) : (m >>= f).run p = (f a).run q := by
  rw [run_bind, h]

theorem run_bind_of_rejected {m : Parse σ α} {f : α → Parse σ β} {p q : Parser σ}
    (h : m.run p = .rejected q) : (m >>= f).run p = .rejected q := by
  rw [run_bind, h]

theorem run_bind_of_outOfFuel {m : Parse σ α} {f : α → Parse σ β} {p : Parser σ}
    (h : m.run p = .outOfFuel) : (m >>= f).run p = .outOfFuel := by
  rw [run_bind, h]

/-- An action that follows another is done only if both are. -/
theorem run_bind_eq_done_iff {m : Parse σ α} {f : α → Parse σ β} {p r : Parser σ} {b : β} :
    (m >>= f).run p = .done b r ↔ ∃ a q, m.run p = .done a q ∧ (f a).run q = .done b r := by
  rw [run_bind]
  cases m.run p <;> simp [and_assoc]

/-! ### Primitive actions -/

/-- The current token. -/
def current : Parse σ Token :=
  ⟨fun p => .done p.current p⟩

/-- The token after the current one. -/
def peek : Parse σ Token :=
  ⟨fun p => .done p.peek p⟩

/-- Whether the current token is the one that ended the block finished last. -/
def onClosed : Parse σ Bool :=
  ⟨fun p => .done p.onClosed p⟩

/-- Move on by one token. -/
def advance [TokenStream σ] : Parse σ Unit :=
  ⟨fun p => .done () p.advance⟩

/-- Remember the current token as the brace that ended a block, if it is one. -/
def closeBlock : Parse σ Unit :=
  ⟨fun p => .done () p.closeBlock⟩

/-- Report a fault and reject the text. -/
def reject (d : Diagnostic) : Parse σ α :=
  ⟨fun p => .rejected (p.report d)⟩

/-- Give up for want of fuel. -/
def outOfFuel : Parse σ α :=
  ⟨fun _ => .outOfFuel⟩

/-- Move on to the next token if it has the given kind; otherwise reject the text. -/
def expect [TokenStream σ] (kind : TokenKind) : Parse σ Unit := do
  let next ← peek
  if next.kind = kind then advance else reject (.expected kind next)

/-- Carry out an action and go on even when it rejects the text: what it would have read is then
dropped. -/
def attempt (m : Parse σ α) : Parse σ (Option α) :=
  ⟨fun p =>
    match m.run p with
    | .done a q => .done (some a) q
    | .rejected q => .done none q.drop
    | .outOfFuel => .outOfFuel⟩

@[simp] theorem run_current (p : Parser σ) : current.run p = .done p.current p := rfl

@[simp] theorem run_peek (p : Parser σ) : peek.run p = .done p.peek p := rfl

@[simp] theorem run_onClosed (p : Parser σ) : onClosed.run p = .done p.onClosed p := rfl

@[simp] theorem run_advance [TokenStream σ] (p : Parser σ) :
    advance.run p = .done () p.advance := rfl

@[simp] theorem run_closeBlock (p : Parser σ) : closeBlock.run p = .done () p.closeBlock := rfl

@[simp] theorem run_reject (d : Diagnostic) (p : Parser σ) :
    (reject d : Parse σ α).run p = .rejected (p.report d) := rfl

@[simp] theorem run_outOfFuel (p : Parser σ) : (outOfFuel : Parse σ α).run p = .outOfFuel := rfl

theorem run_expect [TokenStream σ] (kind : TokenKind) (p : Parser σ) :
    (expect kind).run p =
      if p.peek.kind = kind then .done () p.advance
      else .rejected (p.report (.expected kind p.peek)) := by
  unfold expect
  rw [run_bind_of_done (run_peek p)]
  split <;> rfl

theorem run_attempt (m : Parse σ α) (p : Parser σ) :
    (attempt m).run p =
      match m.run p with
      | .done a q => .done (some a) q
      | .rejected q => .done none q.drop
      | .outOfFuel => .outOfFuel := rfl

/-! ### Loops -/

/-- How one round of a loop ends: with what the next round starts from, or with the result of the
loop. -/
inductive Round (α β : Type) where
  | next (a : α)
  | stop (b : β)

/-- Carry out one round after the other until one stops, but at most `bound` of them. -/
def rounds (round : α → Parse σ (Round α β)) : (bound : Nat) → α → Parse σ β
  | 0, _ => outOfFuel
  | bound + 1, a => do
    match ← round a with
    | .next a => rounds round bound a
    | .stop b => pure b

@[simp] theorem rounds_zero (round : α → Parse σ (Round α β)) (a : α) :
    rounds round 0 a = outOfFuel := rfl

theorem run_rounds_of_next {round : α → Parse σ (Round α β)} {bound : Nat} {a a' : α}
    {p q : Parser σ} (h : (round a).run p = .done (.next a') q) :
    (rounds round (bound + 1) a).run p = (rounds round bound a').run q := by
  rw [rounds, run_bind_of_done h]

theorem run_rounds_of_stop {round : α → Parse σ (Round α β)} {bound : Nat} {a : α} {b : β}
    {p q : Parser σ} (h : (round a).run p = .done (.stop b) q) :
    (rounds round (bound + 1) a).run p = .done b q := by
  rw [rounds, run_bind_of_done h]
  rfl

end Parse

end MonkeySyntax
