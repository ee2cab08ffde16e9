import MonkeySyntax.Proofs.Meets
import MonkeySyntax.Proofs.TokenMap

/-!
# What actions are made of

Whatever the grammar says, its rules are made of a few primitive actions: looking at a token, moving
on, expecting a kind of token, giving a verdict on the current token. `Parse.Built` says that an
action is put together from these. What one primitive action keeps, every action keeps that is built
from them, and the proof is one induction over the ways of building, with no rule of the grammar in
it.

Two more things can be read off the way an action is put together. One is whether statements may be
dropped in it that stand in no brace of its own. The other one is what may still be said about the
current token, of which `Parse.Stage` keeps account. A rule gives its verdict on the current token
before it looks at the token behind it. So once that one has been looked at, nothing will be said
any more about the current token, until something has been reported.
-/

namespace MonkeySyntax

/-- The same diagnostic of another token. -/
def Diagnostic.about (d : Diagnostic) (t : Token) : Diagnostic :=
  d.mapToken fun _ => t

@[simp] theorem Diagnostic.token_about (d : Diagnostic) (t : Token) : (d.about t).token = t := by
  cases d <;> rfl

namespace Parser

/-- This is the first diagnostic. -/
def Reports {σ : Type} (d : Diagnostic) (p : Parser σ) : Prop :=
  p.diagnostics.head? = some d

/-- The moves of a parser keep the property. -/
structure Kept {σ : Type} [TokenStream σ] (I : Parser σ → Prop) : Prop where
  advance : ∀ p, I p → I p.advance
  report : ∀ p d, I p → I (p.report d)
  drop : ∀ p, I p → I p.drop
  closeBlock : ∀ p, I p → I p.closeBlock

theorem Kept.and {σ : Type} [TokenStream σ] {I J : Parser σ → Prop} (hI : Kept I) (hJ : Kept J) :
    Kept fun p => I p ∧ J p where
  advance p h := ⟨hI.advance p h.1, hJ.advance p h.2⟩
  report p d h := ⟨hI.report p d h.1, hJ.report p d h.2⟩
  drop p h := ⟨hI.drop p h.1, hJ.drop p h.2⟩
  closeBlock p h := ⟨hI.closeBlock p h.1, hJ.closeBlock p h.2⟩

/-- Diagnostics are added behind those that were there. -/
theorem kept_prefix_diagnostics {σ : Type} [TokenStream σ] (ds : List Diagnostic) :
    Kept fun p : Parser σ => ds <+: p.diagnostics where
  advance _ h := h
  report _ _ h := h.trans (List.prefix_append _ _)
  drop _ h := h
  closeBlock p h := by rwa [p.diagnostics_closeBlock]

theorem Reports.of_prefix {σ : Type} {d : Diagnostic} {p q : Parser σ} (h : p.Reports d)
    (hpre : p.diagnostics <+: q.diagnostics) : q.Reports d := by
  obtain ⟨ds, hds⟩ := hpre
  rw [Reports, ← hds, List.head?_append, h]
  rfl

end Parser

namespace Parse

open MonkeySyntax.Parser (Kept kept_prefix_diagnostics)

/-- What an action may still have to say about the current token. -/
inductive Stage where
  /-- The current token may be reported: the one behind it has not been looked at. -/
  | fresh
  /-- The token behind the current one has been looked at, or may have been. -/
  | settled
  /-- Something has been reported, and it does not matter any more what has been looked at. -/
  | reported

namespace Stage

/-- Behind a look at the next token. -/
def look : Stage → Stage
  | reported => reported
  | _ => settled

/-- Behind a move to the next token. -/
def move : Stage → Stage
  | reported => reported
  | _ => fresh

end Stage

variable {σ : Type} [TokenStream σ]

/-- The action is put together from primitive ones. It is begun at the first stage and, when it is
done, has come to the second. Unless it is `braced`, it drops statements only behind braces that it
opens itself. -/
inductive Built : (braced : Bool) → Stage → Stage → {α : Type} → Parse σ α → Prop where
  | pure {i : Bool} {b : Stage} {α : Type} (a : α) : Built i b b (pure a)
  | bind {i : Bool} {b c d : Stage} {α β : Type} {m : Parse σ α} {f : α → Parse σ β} :
      Built i b c m → (∀ a, Built i c d (f a)) → Built i b d (m >>= f)
  | current {i : Bool} {b : Stage} : Built i b b current
  | peek {i : Bool} {b : Stage} : Built i b b.look peek
  /-- Which brace ended a block matters to recovery alone. -/
  | onClosed {i : Bool} : Built i .reported .reported onClosed
  | advance {i : Bool} {b : Stage} : Built i b b.move advance
  | closeBlock {i : Bool} {b : Stage} : Built i b b closeBlock
  | expect {i : Bool} {b : Stage} (kind : TokenKind) : Built i b b.move (expect kind)
  /-- A verdict on the current token: it will do, or it is reported. -/
  | judge {i : Bool} {c : Stage} {α : Type} {f : Token → Parse σ α} (passes : Token → Prop) :
      (∀ t, passes t → Built i .fresh c (f t)) →
      (∀ t, ¬ passes t → ∃ d : Diagnostic, f t = reject (d.about t)) →
      Built i .fresh c (current >>= f)
  /-- Two ways to go on behind an action that is attempted. On the second one the text has been
  rejected, so something has been reported. -/
  | attempt {b c d : Stage} {α β : Type} {m : Parse σ α} {f : Option α → Parse σ β} :
      Built true b c m → (∀ a, Built true c d (f (some a))) → Built true .reported d (f none) →
      Built true b d (attempt m >>= f)
  /-- An action that begins by passing an opening brace, and another one behind it. -/
  | braces {i : Bool} {b c d : Stage} {α β : Type} {f : Token → Parse σ α} {g : α → Parse σ β} :
      (∀ t, Built true .fresh c (f t)) → (∀ a, Built true c d (g a)) →
      Built i b d (expect .leftBrace >>= fun _ =>
        (current >>= fun t => advance >>= fun _ => f t) >>= g)
  | outOfFuel {i : Bool} {b c : Stage} {α : Type} : Built i b c (outOfFuel : Parse σ α)
  /-- What may be looked at need not be. -/
  | settle {i : Bool} {b : Stage} {α : Type} {m : Parse σ α} :
      Built i b .fresh m → Built i b .settled m
  | forget {i : Bool} {b c : Stage} {α : Type} {m : Parse σ α} :
      Built i b .reported m → Built i b c m

variable {i : Bool} {b c : Stage} {α : Type} {m : Parse σ α} {p : Parser σ}

/-- A loop comes back to the stage that its rounds begin at. -/
theorem Built.rounds {β : Type} {round : α → Parse σ (Round α β)}
    (h : ∀ a, Built i b b (round a)) (bound : Nat) (a : α) :
    Built i b b (Parse.rounds round bound a) := by
  induction bound generalizing a with
  | zero => exact .outOfFuel
  | succ bound ih =>
    refine .bind (h a) fun x => ?_
    cases x with
    | next a => exact ih a
    | stop y => exact .pure y

/-- **What the moves of a parser keep**, an action keeps that is built from primitive ones. -/
theorem Built.keeps {I : Parser σ → Prop} (hI : Kept I) (h : Built i b c m) (hp : I p) :
    (m.run p).Meets True (fun _ q => I q) I := by
  induction h generalizing p with
  | pure a => exact hp
  | bind _ _ ihm ihf =>
    rw [meets_bind]
    exact (ihm hp).mono (fun a q hq => ihf a hq) fun _ hq => hq
  | current => exact hp
  | peek => exact hp
  | onClosed => exact hp
  | advance => exact hI.advance p hp
  | closeBlock => exact hI.closeBlock p hp
  | expect kind => exact meets_expect (fun _ => hI.advance p hp) fun _ => hI.report p _ hp
  | judge passes _ hfails ih =>
    rw [meets_bind, meets_current]
    by_cases ht : passes p.current
    · exact ih _ ht hp
    · obtain ⟨d, hd⟩ := hfails _ ht
      rw [hd]
      exact hI.report p _ hp
  | attempt _ _ _ ihm ihsome ihnone =>
    rw [meets_bind, meets_attempt]
    exact (ihm hp).mono (fun a q hq => ihsome a hq) fun q hq => ihnone (hI.drop q hq)
  | braces _ _ ihf ihg =>
    rw [meets_bind]
    refine meets_expect (fun _ => ?_) fun _ => hI.report p _ hp
    rw [meets_bind, meets_bind, meets_current, meets_bind, meets_advance]
    refine (ihf _ (hI.advance _ (hI.advance p hp))).mono (fun a q hq => ihg a hq) fun _ hq => hq
  | outOfFuel => trivial
  | settle _ ih => exact ih hp
  | forget _ ih => exact ih hp

/-- Diagnostics are added behind those that were there. -/
theorem Built.diagnostics_prefix (h : Built i b c m) (p : Parser σ) :
    (m.run p).Meets True (fun _ q => p.diagnostics <+: q.diagnostics) fun q =>
      p.diagnostics <+: q.diagnostics :=
  h.keeps (kept_prefix_diagnostics _) List.prefix_rfl

/-- The first diagnostic remains the first one. -/
theorem Built.reports (h : Built i b c m) {d : Diagnostic} (hp : p.Reports d) :
    (m.run p).Meets True (fun _ q => q.Reports d) (Parser.Reports d) :=
  (h.diagnostics_prefix p).mono (fun _ _ hq => hp.of_prefix hq) fun _ hq => hp.of_prefix hq

end Parse

end MonkeySyntax
