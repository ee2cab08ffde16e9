import Mathlib.Data.List.Basic
import MonkeySyntax.Token

/-!
# Counting braces

Braces group tokens, whatever stands between them. Three ways of counting them are used here.

* `Balanced ts` — read from the left, the count of open groups never falls below zero and ends
  there. A closing brace *matches* an opening one if what stands between the two is balanced.
* `strays ts` — the number of closing braces of `ts` whose group was opened before `ts`. It is
  counted from the right, so it is known for every tail of a list at once, which is what a parser
  needs: all it ever has is a tail.
* `Sealed ts` — each group that is opened in `ts` is closed in it.

The counts meet in `exists_balanced_of_strays_pos`: behind an opening brace there is a stray brace
exactly if that opening brace has a match.
-/

namespace MonkeySyntax

/-- The list closes `depth` groups that were opened before it, and all that it opens, and does not
close a group that is not open. -/
def Closes : (depth : Nat) → List Token → Prop
  | depth, [] => depth = 0
  | depth, t :: ts =>
    match t.kind with
    | .leftBrace => Closes (depth + 1) ts
    | .rightBrace => depth ≠ 0 ∧ Closes (depth - 1) ts
    | _ => Closes depth ts

/-- As many braces are closed as opened, and none before it is opened. -/
def Balanced (ts : List Token) : Prop :=
  Closes 0 ts

/-- The number of closing braces whose group was opened before the list. -/
def strays : List Token → Nat
  | [] => 0
  | t :: ts =>
    match t.kind with
    | .leftBrace => strays ts - 1
    | .rightBrace => strays ts + 1
    | _ => strays ts

/-- Every group that is opened in the list is closed in it. -/
def Sealed : List Token → Prop
  | [] => True
  | t :: ts => (t.kind = .leftBrace → strays ts ≠ 0) ∧ Sealed ts

/-- The group that is opened at the given index has the tokens `inside` and is closed by `closing`.
-/
def Group (ts : List Token) (i : Nat) (inside : List Token) (closing : Token) : Prop :=
  ∃ after, ts.drop (i + 1) = inside ++ closing :: after ∧ closing.kind = .rightBrace ∧
    Balanced inside

/-- Every opening brace of the list has its closing brace in the list. -/
def Matched (ts : List Token) : Prop :=
  ∀ i t, ts[i]? = some t → t.kind = .leftBrace → ∃ inside closing, Group ts i inside closing

/-! ### Token by token -/

section Cons

variable {t : Token} {ts : List Token} {depth : Nat}

@[simp] theorem strays_nil : strays [] = 0 := rfl

theorem strays_cons_of_leftBrace (h : t.kind = .leftBrace) : strays (t :: ts) = strays ts - 1 := by
  simp [strays, h]

theorem strays_cons_of_rightBrace (h : t.kind = .rightBrace) :
    strays (t :: ts) = strays ts + 1 := by
  simp [strays, h]

theorem strays_cons_of_ne (hl : t.kind ≠ .leftBrace) (hr : t.kind ≠ .rightBrace) :
    strays (t :: ts) = strays ts := by
  rw [strays]
  split <;> first | contradiction | rfl

theorem closes_cons_of_leftBrace (h : t.kind = .leftBrace) :
    Closes depth (t :: ts) ↔ Closes (depth + 1) ts := by
  simp [Closes, h]

theorem closes_cons_of_rightBrace (h : t.kind = .rightBrace) :
    Closes depth (t :: ts) ↔ depth ≠ 0 ∧ Closes (depth - 1) ts := by
  simp [Closes, h]

theorem closes_cons_of_ne (hl : t.kind ≠ .leftBrace) (hr : t.kind ≠ .rightBrace) :
    Closes depth (t :: ts) ↔ Closes depth ts := by
  rw [Closes]
  split <;> first | contradiction | rfl

end Cons

instance Closes.decidable : (depth : Nat) → (ts : List Token) → Decidable (Closes depth ts)
  | depth, [] => inferInstanceAs (Decidable (depth = 0))
  | _, t :: ts =>
    have : ∀ depth, Decidable (Closes depth ts) := (Closes.decidable · ts)
    if hl : t.kind = .leftBrace then decidable_of_iff' _ (closes_cons_of_leftBrace hl)
    else if hr : t.kind = .rightBrace then decidable_of_iff' _ (closes_cons_of_rightBrace hr)
    else decidable_of_iff' _ (closes_cons_of_ne hl hr)

instance (ts : List Token) : Decidable (Balanced ts) :=
  Closes.decidable 0 ts

/-! ### How the counts meet -/

/-- What closes `depth` groups adds as many strays to what follows it. -/
theorem strays_append_of_closes {depth : Nat} {ts : List Token} (h : Closes depth ts)
    (us : List Token) : strays (ts ++ us) = strays us + depth := by
  induction ts generalizing depth with
  | nil =>
    obtain rfl : depth = 0 := h
    rfl
  | cons t ts ih =>
    rw [List.cons_append]
    by_cases hl : t.kind = .leftBrace
    · rw [strays_cons_of_leftBrace hl, ih ((closes_cons_of_leftBrace hl).1 h)]
      omega
    · by_cases hr : t.kind = .rightBrace
      · obtain ⟨hd, hc⟩ := (closes_cons_of_rightBrace hr).1 h
        rw [strays_cons_of_rightBrace hr, ih hc]
        omega
      · rw [strays_cons_of_ne hl hr, ih ((closes_cons_of_ne hl hr).1 h)]

theorem strays_append_of_balanced {ts : List Token} (h : Balanced ts) (us : List Token) :
    strays (ts ++ us) = strays us :=
  strays_append_of_closes h us

theorem strays_of_closes {depth : Nat} {ts : List Token} (h : Closes depth ts) :
    strays ts = depth := by
  simpa using strays_append_of_closes h []

theorem sealed_of_closes {depth : Nat} {ts : List Token} (h : Closes depth ts) : Sealed ts := by
  induction ts generalizing depth with
  | nil => trivial
  | cons t ts ih =>
    by_cases hl : t.kind = .leftBrace
    · have hc := (closes_cons_of_leftBrace hl).1 h
      refine ⟨fun _ => ?_, ih hc⟩
      rw [strays_of_closes hc]
      omega
    · refine ⟨fun h => absurd h hl, ?_⟩
      by_cases hr : t.kind = .rightBrace
      · exact ih ((closes_cons_of_rightBrace hr).1 h).2
      · exact ih ((closes_cons_of_ne hl hr).1 h)

/-- **A stray brace is a match.** Where more than `depth` braces are stray, one of them closes the
group that was opened before all of the `depth` innermost ones. -/
theorem exists_closes_of_lt_strays {depth : Nat} {ts : List Token} (h : depth < strays ts) :
    ∃ inside brace after,
      ts = inside ++ brace :: after ∧ brace.kind = .rightBrace ∧ Closes depth inside := by
  induction ts generalizing depth with
  | nil => exact absurd h (Nat.not_lt_zero _)
  | cons t ts ih =>
    by_cases hl : t.kind = .leftBrace
    · -- One more group is open, so one more brace has to be left out.
      rw [strays_cons_of_leftBrace hl] at h
      have h : depth + 1 < strays ts := by omega
      obtain ⟨inside, brace, after, rfl, hb, hc⟩ := ih h
      exact ⟨t :: inside, brace, after, rfl, hb, (closes_cons_of_leftBrace hl).2 hc⟩
    · by_cases hr : t.kind = .rightBrace
      · rw [strays_cons_of_rightBrace hr] at h
        cases depth with
        | zero => exact ⟨[], t, ts, rfl, hr, rfl⟩
        | succ depth =>
          have h : depth < strays ts := by omega
          obtain ⟨inside, brace, after, rfl, hb, hc⟩ := ih h
          exact ⟨t :: inside, brace, after, rfl, hb,
            (closes_cons_of_rightBrace hr).2 ⟨Nat.succ_ne_zero _, hc⟩⟩
      · rw [strays_cons_of_ne hl hr] at h
        obtain ⟨inside, brace, after, rfl, hb, hc⟩ := ih h
        exact ⟨t :: inside, brace, after, rfl, hb, (closes_cons_of_ne hl hr).2 hc⟩

theorem exists_balanced_of_strays_pos {ts : List Token} (h : 0 < strays ts) :
    ∃ inside brace after,
      ts = inside ++ brace :: after ∧ brace.kind = .rightBrace ∧ Balanced inside :=
  exists_closes_of_lt_strays h

theorem strays_pos_of_balanced {inside after : List Token} {brace : Token}
    (hb : brace.kind = .rightBrace) (h : Balanced inside) :
    0 < strays (inside ++ brace :: after) := by
  rw [strays_append_of_balanced h, strays_cons_of_rightBrace hb]
  omega

/-! ### Sealed lists -/

theorem Sealed.of_suffix {ts us : List Token} (h : Sealed us) (hs : ts <:+ us) : Sealed ts := by
  obtain ⟨xs, rfl⟩ := hs
  induction xs with
  | nil => exact h
  | cons x xs ih => exact ih h.2

/-- What follows a sealed list does not change which of its own braces are stray. -/
theorem Sealed.strays_append {ts : List Token} (h : Sealed ts) (us : List Token) :
    strays (ts ++ us) = strays ts + strays us := by
  induction ts with
  | nil => simp
  | cons t ts ih =>
    have ih := ih h.2
    rw [List.cons_append]
    by_cases hl : t.kind = .leftBrace
    · -- Its closing brace is in the list, so no later one is taken away.
      have := h.1 hl
      rw [strays_cons_of_leftBrace hl, strays_cons_of_leftBrace hl, ih]
      omega
    · by_cases hr : t.kind = .rightBrace
      · rw [strays_cons_of_rightBrace hr, strays_cons_of_rightBrace hr, ih]
        omega
      · rw [strays_cons_of_ne hl hr, strays_cons_of_ne hl hr, ih]

/-- **Sealed by matches.** A list is sealed if each of its opening braces has a match in it. -/
theorem sealed_of_matches {ts : List Token}
    (h : ∀ before t behind, ts = before ++ t :: behind → t.kind = .leftBrace →
      ∃ inside brace after,
        behind = inside ++ brace :: after ∧ brace.kind = .rightBrace ∧ Balanced inside) :
    Sealed ts := by
  induction ts with
  | nil => trivial
  | cons t ts ih =>
    refine ⟨fun hl => ?_, ih fun before u behind he => ?_⟩
    · obtain ⟨inside, brace, after, rfl, hb, hi⟩ := h [] t ts rfl hl
      exact Nat.ne_of_gt (strays_pos_of_balanced hb hi)
    · exact h (t :: before) u behind (by rw [he, List.cons_append])

theorem Matched.sealed {ts : List Token} (h : Matched ts) : Sealed ts := by
  refine sealed_of_matches fun before t behind heq hl => ?_
  have hindex : ts[before.length]? = some t := by simp [heq]
  obtain ⟨inside, closing, after, hgroup, hclosing, hinside⟩ := h before.length t hindex hl
  have hbehind : ts.drop (before.length + 1) = behind := by simp [heq]
  exact ⟨inside, closing, after, hbehind.symm.trans hgroup, hclosing, hinside⟩

theorem Sealed.matched {ts : List Token} (h : Sealed ts) : Matched ts := by
  intro i t hi hl
  obtain ⟨hlt, rfl⟩ := List.getElem?_eq_some_iff.1 hi
  have hsuffix : Sealed (ts[i] :: ts.drop (i + 1)) := by
    rw [← List.drop_eq_getElem_cons hlt]
    exact h.of_suffix (List.drop_suffix i ts)
  obtain ⟨inside, closing, after, hgroup, hclosing, hinside⟩ :=
    exists_balanced_of_strays_pos (Nat.pos_of_ne_zero (hsuffix.1 hl))
  exact ⟨inside, closing, after, hgroup, hclosing, hinside⟩

/-- What has no stray braces adds none. -/
theorem strays_append_of_strays_eq_zero {us : List Token} (h : strays us = 0) (ts : List Token) :
    strays (ts ++ us) = strays ts := by
  induction ts with
  | nil => exact h
  | cons t ts ih => rw [List.cons_append, strays, strays, ih]

theorem Sealed.of_append {ts us : List Token} (h : Sealed (ts ++ us)) (hs : strays us = 0) :
    Sealed ts := by
  induction ts with
  | nil => trivial
  | cons t ts ih =>
    refine ⟨fun hl => ?_, ih h.2⟩
    rw [← strays_append_of_strays_eq_zero hs ts]
    exact h.1 hl

instance Sealed.decidable : (ts : List Token) → Decidable (Sealed ts)
  | [] => inferInstanceAs (Decidable True)
  | _ :: ts =>
    have : Decidable (Sealed ts) := Sealed.decidable ts
    inferInstanceAs (Decidable (_ ∧ _))

instance (ts : List Token) : Decidable (Matched ts) :=
  decidable_of_iff (Sealed ts) ⟨Sealed.matched, Matched.sealed⟩

end MonkeySyntax
