import Mathlib.Data.List.Basic
import MonkeySyntax.Proofs.Braces

/-!
# Counting braces from the left

Whoever reads tokens one after the other counts braces from the left: a number goes up behind an
opening brace and down behind a closing one. `Opens depth ts` says what that number means. No prefix
of `ts` has more closing braces than opening ones, and behind all of `ts` there are `depth` groups
that have been opened and not closed; with `depth := 0`, the braces of `ts` cancel out.

Braces have been counted from the right before, by `strays`. The two ways meet in
`Opens.strays_eq_zero`: where no prefix has too many closing braces, none of them is stray. From
this comes what a reader that has counted at least one open group knows of the closing brace that it
meets next: a group was opened since the reader began which this brace closes
(`exists_pairs_of_opens`).
-/

namespace MonkeySyntax

/-- The number of opening braces. -/
def openings (ts : List Token) : Nat :=
  ts.countP fun t => t.kind = .leftBrace

/-- The number of closing braces. -/
def closings (ts : List Token) : Nat :=
  ts.countP fun t => t.kind = .rightBrace

/-- Nothing is closed that was not opened, and `depth` groups are still open at the end. -/
structure Opens (depth : Nat) (ts : List Token) : Prop where
  /-- No prefix has more closing braces than opening ones. -/
  closings_le : ∀ us, us <+: ts → closings us ≤ openings us
  openings_eq : openings ts = closings ts + depth

/-- The token with the index `k` is the brace that closes the group which is opened by the one with
the index `m`. -/
def Pairs (ts : List Token) (m k : Nat) : Prop :=
  (∃ opening, ts[m]? = some opening ∧ opening.kind = .leftBrace) ∧
    ∃ inside closing, Group ts m inside closing ∧ k = m + 1 + inside.length

variable {t brace : Token} {ts us inside : List Token} {depth depth' i k m : Nat}

/-! ### Token by token -/

theorem openings_cons (t : Token) (ts : List Token) :
    openings (t :: ts) = openings ts + if t.kind = .leftBrace then 1 else 0 := by
  simp [openings, List.countP_cons]

theorem closings_cons (t : Token) (ts : List Token) :
    closings (t :: ts) = closings ts + if t.kind = .rightBrace then 1 else 0 := by
  simp [closings, List.countP_cons]

theorem openings_concat (ts : List Token) (t : Token) :
    openings (ts ++ [t]) = openings ts + if t.kind = .leftBrace then 1 else 0 := by
  simp [openings, List.countP_append, List.countP_singleton]

theorem closings_concat (ts : List Token) (t : Token) :
    closings (ts ++ [t]) = closings ts + if t.kind = .rightBrace then 1 else 0 := by
  simp [closings, List.countP_append, List.countP_singleton]

theorem opens_nil : Opens 0 [] where
  closings_le us hus := by rw [List.prefix_nil.1 hus]; exact Nat.le_refl _
  openings_eq := rfl

/-- One more token keeps the list open as long as it does not close too much. -/
theorem Opens.concat (h : Opens depth ts)
    (heq : openings (ts ++ [t]) = closings (ts ++ [t]) + depth') : Opens depth' (ts ++ [t]) where
  closings_le us hus := by
    rcases List.prefix_concat_iff.1 hus with rfl | hus
    · omega
    · exact h.closings_le us hus
  openings_eq := heq

theorem Opens.concat_leftBrace (h : Opens depth ts) (ht : t.kind = .leftBrace) :
    Opens (depth + 1) (ts ++ [t]) := by
  have heq := h.openings_eq
  refine h.concat ?_
  rw [openings_concat, closings_concat, if_pos ht, if_neg (by simp [ht])]
  omega

theorem Opens.concat_rightBrace (h : Opens (depth + 1) ts) (ht : t.kind = .rightBrace) :
    Opens depth (ts ++ [t]) := by
  have heq := h.openings_eq
  refine h.concat ?_
  rw [openings_concat, closings_concat, if_neg (by simp [ht]), if_pos ht]
  omega

theorem Opens.concat_of_ne (h : Opens depth ts) (hl : t.kind ≠ .leftBrace)
    (hr : t.kind ≠ .rightBrace) : Opens depth (ts ++ [t]) := by
  have heq := h.openings_eq
  refine h.concat ?_
  rw [openings_concat, closings_concat, if_neg hl, if_neg hr]
  omega

theorem Opens.depth_eq (h : Opens depth ts) (h' : Opens depth' ts) : depth = depth' := by
  have heq := h.openings_eq
  have heq' := h'.openings_eq
  omega

/-! ### From the left and from the right -/

theorem closings_eq_of_closes (h : Closes depth ts) : closings ts = openings ts + depth := by
  induction ts generalizing depth with
  | nil =>
    obtain rfl : depth = 0 := h
    rfl
  | cons t ts ih =>
    rw [openings_cons, closings_cons]
    by_cases hl : t.kind = .leftBrace
    · have heq := ih ((closes_cons_of_leftBrace hl).1 h)
      simp only [hl, reduceCtorEq, ↓reduceIte]
      omega
    · by_cases hr : t.kind = .rightBrace
      · obtain ⟨hpos, hcloses⟩ := (closes_cons_of_rightBrace hr).1 h
        have heq := ih hcloses
        simp only [hr, reduceCtorEq, ↓reduceIte]
        omega
      · rw [if_neg hl, if_neg hr]
        exact ih ((closes_cons_of_ne hl hr).1 h)

/-- **No closing brace too many, from either side.** The first stray brace would end a prefix that
closes one group more than it opens. -/
theorem Opens.strays_eq_zero (h : Opens depth ts) : strays ts = 0 := by
  by_contra hpos
  obtain ⟨inside, brace, after, rfl, hbrace, hinside⟩ :=
    exists_balanced_of_strays_pos (Nat.pos_of_ne_zero hpos)
  have hprefix : inside ++ [brace] <+: inside ++ brace :: after :=
    (List.prefix_append_right_inj inside).2 ⟨after, rfl⟩
  have hle := h.closings_le _ hprefix
  rw [openings_concat, closings_concat, if_pos hbrace, if_neg (by simp [hbrace])] at hle
  have heq := closings_eq_of_closes hinside
  omega

theorem strays_append_le (ts us : List Token) : strays (ts ++ us) ≤ strays ts + strays us := by
  induction ts with
  | nil => exact Nat.le_add_left _ _
  | cons t ts ih =>
    rw [List.cons_append]
    by_cases hl : t.kind = .leftBrace
    · rw [strays_cons_of_leftBrace hl, strays_cons_of_leftBrace hl]
      omega
    · by_cases hr : t.kind = .rightBrace
      · rw [strays_cons_of_rightBrace hr, strays_cons_of_rightBrace hr]
        omega
      · rw [strays_cons_of_ne hl hr, strays_cons_of_ne hl hr]
        exact ih

/-- A closing brace that is not stray has an opening one, with a balanced list between the two. The
search for it goes to the left, past the groups that `inside` has closed. -/
theorem exists_opening_of_strays (hbrace : brace.kind = .rightBrace) (hinside : Closes depth inside)
    (h : strays (ts ++ (inside ++ [brace])) = 0) :
    ∃ before opening between, ts ++ inside = before ++ opening :: between ∧
      opening.kind = .leftBrace ∧ Balanced between := by
  induction hn : ts.length generalizing ts inside depth with
  | zero =>
    obtain rfl := List.length_eq_zero_iff.1 hn
    rw [List.nil_append, strays_append_of_closes hinside, strays_cons_of_rightBrace hbrace] at h
    omega
  | succ n ih =>
    obtain ⟨ts, t, rfl⟩ : ∃ us t, ts = us ++ [t] :=
      (List.eq_nil_or_concat' ts).resolve_left fun hnil => by simp [hnil] at hn
    have hlength : ts.length = n := by simpa using hn
    rw [List.append_assoc, List.singleton_append, ← List.cons_append] at h
    rw [List.append_assoc, List.singleton_append]
    by_cases hl : t.kind = .leftBrace
    · cases depth with
      | zero => exact ⟨ts, t, inside, rfl, hl, hinside⟩
      | succ depth => exact ih ((closes_cons_of_leftBrace hl).2 hinside) h hlength
    · by_cases hr : t.kind = .rightBrace
      · have hcloses : Closes (depth + 1) (t :: inside) :=
          (closes_cons_of_rightBrace hr).2 ⟨Nat.succ_ne_zero _, hinside⟩
        exact ih hcloses h hlength
      · exact ih ((closes_cons_of_ne hl hr).2 hinside) h hlength

/-! ### Stretches of a list -/

theorem extract_succ (h : i ≤ k) (hk : ts[k]? = some t) :
    ts.extract i (k + 1) = ts.extract i k ++ [t] := by
  have hget : (ts.drop i)[k - i]? = some t := by
    rw [List.getElem?_drop, Nat.add_sub_cancel' h, hk]
  have hsucc : k + 1 - i = k - i + 1 := by omega
  rw [List.extract_eq_take_drop, hsucc, List.take_add_one, hget]
  rfl

theorem extract_of_le (h : k ≤ i) : ts.extract i k = [] := by
  rw [List.extract_eq_take_drop, Nat.sub_eq_zero_of_le h, List.take_zero]

theorem Pairs.lt (h : Pairs ts m k) : m < k := by
  obtain ⟨-, inside, closing, -, rfl⟩ := h
  omega

theorem Pairs.exists_closing (h : Pairs ts m k) :
    ∃ closing, ts[k]? = some closing ∧ closing.kind = .rightBrace := by
  obtain ⟨-, inside, closing, ⟨after, hgroup, hclosing, -⟩, rfl⟩ := h
  refine ⟨closing, ?_, hclosing⟩
  rw [← List.getElem?_drop, hgroup, List.getElem?_append_right (Nat.le_refl _), Nat.sub_self]
  rfl

/-- **A closing brace behind open groups** closes one of those that were opened in the stretch. -/
theorem exists_pairs_of_opens (h : Opens (depth + 1) (ts.extract i k)) (hle : i ≤ k)
    (hk : ts[k]? = some brace) (hbrace : brace.kind = .rightBrace) : ∃ m, i ≤ m ∧ Pairs ts m k := by
  have hstrays : strays (ts.extract i k ++ ([] ++ [brace])) = 0 :=
    (h.concat_rightBrace hbrace).strays_eq_zero
  have hnone : Closes 0 [] := rfl
  obtain ⟨before, opening, between, heq, hopening, hbetween⟩ :=
    exists_opening_of_strays hbrace hnone hstrays
  have hlt := (List.getElem?_eq_some_iff.1 hk).1
  -- What is left of the list from the start of the stretch on.
  have hdrop : ts.drop i = before ++ opening :: (between ++ brace :: ts.drop (k + 1)) := by
    have hsplit := List.take_append_drop (k - i) (ts.drop i)
    rw [List.append_nil, List.extract_eq_take_drop] at heq
    rw [heq, List.drop_drop, Nat.add_sub_cancel' hle, List.drop_eq_getElem_cons hlt,
      (List.getElem?_eq_some_iff.1 hk).2] at hsplit
    rw [← hsplit, List.append_assoc, List.cons_append]
  have hlength := congrArg List.length heq
  rw [List.append_nil, List.extract_eq_take_drop, List.length_take, List.length_drop,
    List.length_append, List.length_cons] at hlength
  refine ⟨i + before.length, Nat.le_add_right _ _, ⟨opening, ?_, hopening⟩, between, brace,
    ⟨ts.drop (k + 1), ?_, hbrace, hbetween⟩, by omega⟩
  · rw [← List.getElem?_drop, hdrop, List.getElem?_append_right (Nat.le_refl _), Nat.sub_self]
    rfl
  · rw [Nat.add_assoc, ← List.drop_drop, hdrop, ← List.drop_drop, List.drop_left]
    rfl

/-- **A brace too many in front of a group.** As many closing braces are stray from a place on as
from the last brace of a later group on. Seen from that place, the last brace of the group is not
stray; so another one is, and it lies in front of the group. -/
theorem Pairs.exists_stray (h : Pairs ts m k) (hle : i ≤ m)
    (hstrays : strays (ts.drop k) = strays (ts.drop i)) :
    ∃ inside brace after, ts.drop i = inside ++ brace :: after ∧ brace.kind = .rightBrace ∧
      Balanced inside ∧ i + inside.length < m := by
  obtain ⟨⟨opening, hopening, hl⟩, inside, closing, ⟨after, hgroup, hr, hinside⟩, rfl⟩ := h
  obtain ⟨hlt, rfl⟩ := List.getElem?_eq_some_iff.1 hopening
  have hend : ts.drop (m + 1 + inside.length) = closing :: after := by
    rw [← List.drop_drop, hgroup, List.drop_left]
  have hsplit : ts.drop i = (ts.drop i).take (m - i) ++ ts.drop m := by
    have htake := List.take_append_drop (m - i) (ts.drop i)
    rw [List.drop_drop, Nat.add_sub_cancel' hle] at htake
    exact htake.symm
  -- The group itself has no stray braces, and its last token has one, seen from inside.
  have hnone : strays (ts.drop m) = strays after := by
    rw [List.drop_eq_getElem_cons hlt, strays_cons_of_leftBrace hl, hgroup,
      strays_append_of_balanced hinside, strays_cons_of_rightBrace hr, Nat.add_sub_cancel]
  have happend := strays_append_le ((ts.drop i).take (m - i)) (ts.drop m)
  rw [← hsplit, hnone, ← hstrays, hend, strays_cons_of_rightBrace hr] at happend
  have hpos : 0 < strays ((ts.drop i).take (m - i)) := by omega
  obtain ⟨inner, brace, rest, heq, hbrace, hinner⟩ := exists_balanced_of_strays_pos hpos
  refine ⟨inner, brace, rest ++ ts.drop m, ?_, hbrace, hinner, ?_⟩
  · rw [hsplit, heq, List.append_assoc, List.cons_append]
  · have hlength := congrArg List.length heq
    rw [List.length_take, List.length_append, List.length_cons] at hlength
    omega

end MonkeySyntax
