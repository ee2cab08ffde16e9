import Mathlib.Tactic.SplitIfs
import MonkeySyntax.Text.Quoted

/-!
# Texts that show where they end

Values are written one behind the other, and what was written can be told from the result only if
each piece shows where it ends. A quoted text does so whatever stands behind it
(`Text.quotedList_append_inj`): its last character is the first quote mark that is not escaped. A
number and a word end where no further digit or letter follows (`Text.run_append_inj`). A list
between parentheses ends where its items end (`Text.listText_append_inj`), with or without a comma
behind a single one.

All statements have one form. If the same text begins with the writing of one value and with that
of another, then the values are equal, and so is what stands behind them. In this form they can be
put one behind the other, and carried along a list by induction.
-/

namespace MonkeySyntax.Text

variable {r r' : List Char}

/-! ### Runs -/

/-- The text does not begin with a character of the class. -/
def EndsRun (p : Char → Bool) (rest : List Char) : Prop :=
  ∀ c ∈ rest.head?, p c = false

/-- A run of characters of one class ends where there is no further one. -/
theorem run_append_inj {p : Char → Bool} {a b : List Char} (ha : ∀ c ∈ a, p c = true)
    (hb : ∀ c ∈ b, p c = true) (hr : EndsRun p r) (hr' : EndsRun p r') (h : a ++ r = b ++ r') :
    a = b ∧ r = r' := by
  induction a generalizing b with
  | nil =>
    cases b with
    | nil => exact ⟨rfl, h⟩
    | cons c b =>
      -- The text behind the shorter run would go on with the longer one.
      rw [List.nil_append] at h
      have hc := hr c (by simp [h])
      simp [hb c List.mem_cons_self] at hc
  | cons c a ih =>
    cases b with
    | nil =>
      rw [List.nil_append] at h
      have hc := hr' c (by simp [← h])
      simp [ha c List.mem_cons_self] at hc
    | cons d b =>
      obtain ⟨rfl, htail⟩ := List.cons.inj h
      obtain ⟨rfl, hrest⟩ := ih (fun x hx => ha x (List.mem_cons_of_mem _ hx))
        (fun x hx => hb x (List.mem_cons_of_mem _ hx)) htail
      exact ⟨rfl, hrest⟩

/-! ### Numbers -/

/-- A character of a number in decimal notation. -/
def isDecimalChar (c : Char) : Bool :=
  c.isDigit || c == '-'

theorem isDigit_of_mem_repr {n : Nat} {c : Char} (h : c ∈ n.repr.toList) : c.isDigit = true := by
  rw [Nat.toList_repr] at h
  exact Nat.isDigit_of_mem_toDigits (by decide) (by decide) h

theorem repr_injective : Function.Injective Nat.repr := by
  intro m n h
  have hdigits : Nat.toDigits 10 m = Nat.toDigits 10 n := by
    rw [← Nat.toList_repr, h, Nat.toList_repr]
  rw [← Nat.ofDigitChars_ten_toDigits (n := m), hdigits, Nat.ofDigitChars_ten_toDigits]

theorem toList_toString_ofNat (n : Nat) : (toString (Int.ofNat n)).toList = n.repr.toList := rfl

theorem toList_toString_negSucc (n : Nat) :
    (toString (Int.negSucc n)).toList = '-' :: (n + 1).repr.toList := by
  rw [Int.toString_eq_repr, Int.repr, String.toList_append]
  rfl

theorem isDecimalChar_of_mem_toString {i : Int} {c : Char} (h : c ∈ (toString i).toList) :
    isDecimalChar c = true := by
  cases i with
  | ofNat n => simp [isDecimalChar, isDigit_of_mem_repr (toList_toString_ofNat n ▸ h)]
  | negSucc n =>
    rw [toList_toString_negSucc, List.mem_cons] at h
    obtain rfl | h := h
    · rfl
    · simp [isDecimalChar, isDigit_of_mem_repr h]

/-- A number has a first character. -/
theorem exists_toList_toString (i : Int) :
    ∃ c cs, (toString i).toList = c :: cs ∧ isDecimalChar c = true := by
  obtain ⟨c, cs, h⟩ : ∃ c cs, (toString i).toList = c :: cs := by
    refine List.exists_cons_of_ne_nil ?_
    cases i with
    | ofNat n =>
      rw [toList_toString_ofNat, Nat.toList_repr]
      exact Nat.toDigits_ne_nil
    | negSucc n =>
      rw [toList_toString_negSucc]
      exact List.cons_ne_nil _ _
  exact ⟨c, cs, h, isDecimalChar_of_mem_toString (h ▸ List.mem_cons_self)⟩

/-- Only a negative number begins with a minus sign. -/
theorem cons_minus_ne_repr (cs : List Char) (n : Nat) : '-' :: cs ≠ n.repr.toList := by
  intro h
  have hdigit : Char.isDigit '-' = true := isDigit_of_mem_repr (n := n) (by simp [← h])
  exact absurd hdigit (by decide)

theorem toString_int_injective : Function.Injective (toString : Int → String) := by
  intro i j h
  have hl : (toString i).toList = (toString j).toList := by rw [h]
  cases i with
  | ofNat m =>
    cases j with
    | ofNat n => exact congrArg Int.ofNat (repr_injective h)
    | negSucc n =>
      rw [toList_toString_ofNat, toList_toString_negSucc] at hl
      exact absurd hl.symm (cons_minus_ne_repr _ _)
  | negSucc m =>
    cases j with
    | ofNat n =>
      rw [toList_toString_ofNat, toList_toString_negSucc] at hl
      exact absurd hl (cons_minus_ne_repr _ _)
    | negSucc n =>
      rw [toList_toString_negSucc, toList_toString_negSucc, List.cons.injEq] at hl
      have hmn := repr_injective (String.toList_injective hl.2)
      exact congrArg Int.negSucc (Nat.succ.inj hmn)

/-- **A number ends with its digits.** -/
theorem toString_int_append_inj {i j : Int} (hr : EndsRun isDecimalChar r)
    (hr' : EndsRun isDecimalChar r')
    (h : (toString i).toList ++ r = (toString j).toList ++ r') : i = j ∧ r = r' := by
  obtain ⟨hij, hrest⟩ := run_append_inj (fun _ => isDecimalChar_of_mem_toString)
    (fun _ => isDecimalChar_of_mem_toString) hr hr' h
  exact ⟨toString_int_injective (String.toList_injective hij), hrest⟩

/-! ### Escapes -/

theorem hexDigit_injective {d e : Nat} (hd : d < 16) (he : e < 16)
    (h : hexDigit d = hexDigit e) : d = e := by
  have hall : ∀ d < 16, ∀ e < 16, hexDigit d = hexDigit e → d = e := by decide
  exact hall d hd e he h

/-- How many numbers there are of so many hexadecimal digits. -/
def hexRange : (width : Nat) → Nat
  | 0 => 1
  | width + 1 => 16 * hexRange width

/-- So many digits tell a number as far as they reach. -/
theorem hex_mod_eq {width m n : Nat} (h : hex width m = hex width n) :
    m % hexRange width = n % hexRange width := by
  induction width generalizing m n with
  | zero => simp [hexRange, Nat.mod_one]
  | succ width ih =>
    obtain ⟨hinit, hlast⟩ := List.append_inj' h rfl
    have hdigit := hexDigit_injective (Nat.mod_lt m (by decide)) (Nat.mod_lt n (by decide))
      (List.singleton_inj.mp hlast)
    rw [hexRange, Nat.mod_mul, Nat.mod_mul, hdigit, ih hinit]

theorem hex_append_inj {width m n : Nat} (hm : m < hexRange width) (hn : n < hexRange width)
    (h : hex width m ++ r = hex width n ++ r') : m = n ∧ r = r' := by
  obtain ⟨hhex, hrest⟩ := List.append_inj h (by rw [length_hex, length_hex])
  have hmod := hex_mod_eq hhex
  rw [Nat.mod_eq_of_lt hm, Nat.mod_eq_of_lt hn] at hmod
  exact ⟨hmod, hrest⟩

/-- The letter of an escape by code point, and how many digits follow it. -/
def codePointForms : List (Char × Nat) :=
  [('x', 2), ('u', 4), ('U', 8)]

theorem codePointEscape_form (c : Char) : ∃ form ∈ codePointForms,
    codePointEscape c = backslash :: form.1 :: hex form.2 c.toNat ∧ c.toNat < hexRange form.2 := by
  unfold codePointEscape
  split_ifs with hx hu
  · exact ⟨('x', 2), by decide, rfl, hx⟩
  · exact ⟨('u', 4), by decide, rfl, hu⟩
  · have hvalid : c.toNat < 0xD800 ∨ 0xDFFF < c.toNat ∧ c.toNat < 0x110000 := c.valid
    exact ⟨('U', 8), by decide, rfl, show c.toNat < 0x100000000 by omega⟩

/-- An escape by code point: the letter tells how many digits follow. -/
theorem codePointEscape_append_inj {c d : Char}
    (h : codePointEscape c ++ r = codePointEscape d ++ r') : c = d ∧ r = r' := by
  obtain ⟨form, hform, hc, hlt⟩ := codePointEscape_form c
  obtain ⟨form', hform', hd, hlt'⟩ := codePointEscape_form d
  rw [hc, hd] at h
  simp only [List.cons_append, List.cons.injEq, true_and] at h
  obtain rfl : form = form' := by
    have hall : ∀ f ∈ codePointForms, ∀ g ∈ codePointForms, f.1 = g.1 → f = g := by decide
    exact hall form hform form' hform' h.1
  obtain ⟨hcd, hrest⟩ := hex_append_inj hlt hlt' h.2
  exact ⟨Char.toNat_inj.mp hcd, hrest⟩

/-- The characters that a quoted text may be marked with. -/
def marks : List Char :=
  [apostrophe, doubleQuote]

theorem quoteMark_mem_marks (cs : List Char) : quoteMark cs ∈ marks := by
  unfold quoteMark
  split_ifs <;> decide

theorem eq_of_mem_marks {mark : Char} (h : mark ∈ marks) :
    mark = apostrophe ∨ mark = doubleQuote := by
  simpa [marks] using h

/-- The characters that are escaped by another one, each with that other one. -/
def letterForms (mark : Char) : List (Char × Char) :=
  [(mark, mark), (backslash, backslash), ('\t', 't'), ('\n', 'n'), ('\r', 'r')]

/-- How a character stands in a quoted text: for itself, by a letter, or by its code point. -/
theorem quotedChar_cases (mark c : Char) :
    (quotedChar mark c = [c] ∧ c ≠ mark ∧ c ≠ backslash) ∨
      (∃ letter, (c, letter) ∈ letterForms mark ∧ quotedChar mark c = [backslash, letter]) ∨
      quotedChar mark c = codePointEscape c := by
  unfold quotedChar
  split_ifs with hmark ht hn hr hprintable
  · exact .inr (.inl ⟨c, by grind [letterForms], rfl⟩)
  · exact .inr (.inl ⟨'t', by simp [letterForms, ht], rfl⟩)
  · exact .inr (.inl ⟨'n', by simp [letterForms, hn], rfl⟩)
  · exact .inr (.inl ⟨'r', by simp [letterForms, hr], rfl⟩)
  · exact .inl ⟨rfl, not_or.mp hmark⟩
  · exact .inr (.inr rfl)

/-- A letter stands for one character, and begins no escape by code point. -/
theorem letterForms_unambiguous {mark : Char} (hmark : mark ∈ marks) {c letter : Char}
    (h : (c, letter) ∈ letterForms mark) :
    (∀ d, (d, letter) ∈ letterForms mark → c = d) ∧ ∀ form ∈ codePointForms, letter ≠ form.1 := by
  have hall : marks.all fun mark => (letterForms mark).all fun p =>
      ((letterForms mark).all fun q => p.2 != q.2 || p.1 == q.1) &&
        codePointForms.all fun form => p.2 != form.1 := by decide
  simp only [List.all_eq_true, Bool.and_eq_true] at hall
  obtain ⟨hletters, hforms⟩ := hall mark hmark _ h
  exact ⟨fun d hd => by simpa using hletters _ hd, fun form hf => by simpa using hforms form hf⟩

theorem letter_ne_codePointEscape {mark c d letter : Char} (hmark : mark ∈ marks)
    (h : (c, letter) ∈ letterForms mark) :
    [backslash, letter] ++ r ≠ codePointEscape d ++ r' := by
  obtain ⟨form, hform, hd, -⟩ := codePointEscape_form d
  rw [hd]
  simp [(letterForms_unambiguous hmark h).2 form hform]

theorem self_ne_codePointEscape {c d : Char} (h : c ≠ backslash) :
    [c] ++ r ≠ codePointEscape d ++ r' := by
  obtain ⟨form, -, hd, -⟩ := codePointEscape_form d
  rw [hd]
  simp [h]

/-- **No character of a quoted text is written as the beginning of another.** -/
theorem quotedChar_append_inj {mark c d : Char} (hmark : mark ∈ marks)
    (h : quotedChar mark c ++ r = quotedChar mark d ++ r') : c = d ∧ r = r' := by
  -- Each of the two stands for itself, by a letter, or by its code point.
  obtain ⟨hc, -, hcne⟩ | ⟨letter, hletter, hc⟩ | hc := quotedChar_cases mark c <;>
    obtain ⟨hd, -, hdne⟩ | ⟨letter', hletter', hd⟩ | hd := quotedChar_cases mark d <;>
    rw [hc, hd] at h
  · simpa using h
  · exact absurd (List.cons.inj h).1 hcne
  · exact absurd h (self_ne_codePointEscape hcne)
  · exact absurd (List.cons.inj h).1.symm hdne
  · simp only [List.cons_append, List.nil_append, List.cons.injEq, true_and] at h
    obtain ⟨rfl, hrest⟩ := h
    exact ⟨(letterForms_unambiguous hmark hletter).1 d hletter', hrest⟩
  · exact absurd h (letter_ne_codePointEscape hmark hletter)
  · exact absurd h.symm (self_ne_codePointEscape hdne)
  · exact absurd h.symm (letter_ne_codePointEscape hmark hletter')
  · exact codePointEscape_append_inj h

/-- No character is written so that it could be the closing mark. -/
theorem mark_cons_ne_quotedChar {mark : Char} (hmark : mark ∈ marks) (c : Char) :
    mark :: r ≠ quotedChar mark c ++ r' := by
  have hne : mark ≠ backslash := by
    obtain rfl | rfl := eq_of_mem_marks hmark <;> decide
  obtain ⟨hc, hcne, -⟩ | ⟨letter, -, hc⟩ | hc := quotedChar_cases mark c
  · simp [hc, hcne.symm]
  · simp [hc, hne]
  · obtain ⟨form, -, hform, -⟩ := codePointEscape_form c
    simp [hc, hform, hne]

/-! ### Quoted texts -/

/-- The characters between the marks end at the closing mark. -/
theorem flatMap_quotedChar_append_inj {mark : Char} (hmark : mark ∈ marks) {cs ds : List Char}
    (h : cs.flatMap (quotedChar mark) ++ mark :: r = ds.flatMap (quotedChar mark) ++ mark :: r') :
    cs = ds ∧ r = r' := by
  induction cs generalizing ds with
  | nil =>
    cases ds with
    | nil => simpa using h
    | cons d ds =>
      rw [List.flatMap_nil, List.flatMap_cons, List.append_assoc] at h
      exact absurd h (mark_cons_ne_quotedChar hmark d)
  | cons c cs ih =>
    cases ds with
    | nil =>
      rw [List.flatMap_nil, List.flatMap_cons, List.append_assoc] at h
      exact absurd h.symm (mark_cons_ne_quotedChar hmark c)
    | cons d ds =>
      rw [List.flatMap_cons, List.flatMap_cons, List.append_assoc, List.append_assoc] at h
      obtain ⟨rfl, htail⟩ := quotedChar_append_inj hmark h
      obtain ⟨rfl, hrest⟩ := ih htail
      exact ⟨rfl, hrest⟩

/-- **A quoted text ends at its closing mark**, whatever stands behind it. -/
theorem quotedList_append_inj {cs ds : List Char}
    (h : quotedList cs ++ r = quotedList ds ++ r') : cs = ds ∧ r = r' := by
  unfold quotedList at h
  simp only [List.cons_append, List.append_assoc, List.nil_append, List.cons.injEq] at h
  obtain ⟨hmark, h⟩ := h
  rw [← hmark] at h
  exact flatMap_quotedChar_append_inj (quoteMark_mem_marks cs) h

/-- **Different texts have different quoted forms.** -/
theorem quoted_injective : Function.Injective quoted := by
  intro s t h
  -- Nothing stands behind either of them.
  have hlists : quotedList s.toList ++ [] = quotedList t.toList ++ [] := by
    rw [← toList_quoted, h, toList_quoted]
  exact String.toList_injective (quotedList_append_inj hlists).1

/-! ### Lists -/

theorem toList_intercalate_cons (a : String) (l : List String) :
    (", ".intercalate (a :: l)).toList = a.toList ++ l.flatMap fun b => ',' :: ' ' :: b.toList := by
  induction l generalizing a with
  | nil => simp
  | cons b l ih => simp_all [String.toList_intercalate]

/-- The text goes on with a comma or a closing parenthesis, if at all. -/
def EndsValue (rest : List Char) : Prop :=
  ∀ c ∈ rest.head?, c = ',' ∨ c = ')'

theorem EndsValue.endsRun {p : Char → Bool} (hcomma : p ',' = false) (hclose : p ')' = false)
    (hr : EndsValue r) : EndsRun p r := by
  intro c hc
  obtain rfl | rfl := hr c hc
  · exact hcomma
  · exact hclose

section Lists

variable {α β : Type} {write : α → List Char} {ok : α → Prop} {key : α → β} {x : α} {xs ys : List α}

/-- The writing of `x`, where a comma or a closing parenthesis may follow, is not the beginning of
the writing of anything that differs in its key, among what may be written at all. -/
def Delimited (write : α → List Char) (ok : α → Prop) (key : α → β) (x : α) : Prop :=
  ∀ ⦃y⦄, ok y → ∀ ⦃r r'⦄, EndsValue r → EndsValue r' → write x ++ r = write y ++ r' →
    key x = key y ∧ r = r'

/-- What stands behind the first item of a list: the other items, each after a comma, and the
closing parenthesis. -/
def restText (write : α → List Char) (xs : List α) : List Char :=
  xs.flatMap (fun x => ',' :: ' ' :: write x) ++ [')']

/-- The same, with a text of its own behind a single item. -/
def tailText (write : α → List Char) (single : List Char) : List α → List Char
  | [] => single
  | x :: xs => restText write (x :: xs)

/-- What stands behind the opening parenthesis of a list. -/
def listText (write : α → List Char) (single : List Char) : List α → List Char
  | [] => [')']
  | x :: xs => write x ++ tailText write single xs

/-- The texts that close a list behind a single item. -/
def closers : List (List Char) :=
  [[')'], [',', ')']]

theorem restText_cons (write : α → List Char) (x : α) (xs : List α) :
    restText write (x :: xs) = ',' :: ' ' :: (write x ++ restText write xs) := by
  simp [restText]

theorem endsValue_restText_append (write : α → List Char) (xs : List α) (r : List Char) :
    EndsValue (restText write xs ++ r) := by
  cases xs <;> simp [restText, EndsValue]

theorem restText_append_inj (hxs : ∀ x ∈ xs, Delimited write ok key x) (hys : ∀ y ∈ ys, ok y)
    (h : restText write xs ++ r = restText write ys ++ r') : xs.map key = ys.map key ∧ r = r' := by
  induction xs generalizing ys with
  | nil =>
    cases ys with
    | nil => simpa [restText] using h
    | cons y ys => simp [restText] at h
  | cons x xs ih =>
    cases ys with
    | nil => simp [restText] at h
    | cons y ys =>
      simp only [restText_cons, List.cons_append, List.append_assoc, List.cons.injEq,
        true_and] at h
      obtain ⟨hkey, htail⟩ := hxs x List.mem_cons_self (hys y List.mem_cons_self)
        (endsValue_restText_append _ _ _) (endsValue_restText_append _ _ _) h
      obtain ⟨hkeys, hrest⟩ := ih (fun x hx => hxs x (List.mem_cons_of_mem _ hx))
        (fun y hy => hys y (List.mem_cons_of_mem _ hy)) htail
      exact ⟨by rw [List.map_cons, List.map_cons, hkey, hkeys], hrest⟩

variable {single : List Char} (hsingle : single ∈ closers)
include hsingle

theorem single_append_ne_restText_cons (y : α) (ys : List α) :
    single ++ r ≠ restText write (y :: ys) ++ r' := by
  simp only [closers, List.mem_cons, List.not_mem_nil, or_false] at hsingle
  obtain rfl | rfl := hsingle <;> simp [restText_cons]

theorem endsValue_tailText_append (xs : List α) : EndsValue (tailText write single xs ++ r) := by
  cases xs with
  | nil =>
    simp only [closers, List.mem_cons, List.not_mem_nil, or_false] at hsingle
    obtain rfl | rfl := hsingle <;> simp [tailText, EndsValue]
  | cons x xs => exact endsValue_restText_append write (x :: xs) r

theorem tailText_append_inj (hxs : ∀ x ∈ xs, Delimited write ok key x) (hys : ∀ y ∈ ys, ok y)
    (h : tailText write single xs ++ r = tailText write single ys ++ r') :
    xs.map key = ys.map key ∧ r = r' := by
  cases xs with
  | nil =>
    cases ys with
    | nil => exact ⟨rfl, List.append_cancel_left h⟩
    | cons y ys => exact absurd h (single_append_ne_restText_cons hsingle y ys)
  | cons x xs =>
    cases ys with
    | nil => exact absurd h.symm (single_append_ne_restText_cons hsingle x xs)
    | cons y ys => exact restText_append_inj hxs hys h

/-- **A list shows where it ends if its items do**, and no item begins like the end of a list. -/
theorem listText_append_inj (hopen : ∀ x, ok x → ∀ s s', write x ++ s ≠ ')' :: s')
    (hok : ∀ x ∈ xs, ok x) (hxs : ∀ x ∈ xs, Delimited write ok key x) (hys : ∀ y ∈ ys, ok y)
    (h : listText write single xs ++ r = listText write single ys ++ r') :
    xs.map key = ys.map key ∧ r = r' := by
  cases xs with
  | nil =>
    cases ys with
    | nil => exact ⟨rfl, List.append_cancel_left h⟩
    | cons y ys =>
      rw [listText, listText, List.append_assoc] at h
      exact absurd h.symm (hopen y (hys y List.mem_cons_self) _ _)
  | cons x xs =>
    cases ys with
    | nil =>
      rw [listText, listText, List.append_assoc] at h
      exact absurd h (hopen x (hok x List.mem_cons_self) _ _)
    | cons y ys =>
      rw [listText, listText, List.append_assoc, List.append_assoc] at h
      obtain ⟨hkey, htail⟩ := hxs x List.mem_cons_self (hys y List.mem_cons_self)
        (endsValue_tailText_append hsingle xs) (endsValue_tailText_append hsingle ys) h
      obtain ⟨hkeys, hrest⟩ := tailText_append_inj hsingle
        (fun x hx => hxs x (List.mem_cons_of_mem _ hx))
        (fun y hy => hys y (List.mem_cons_of_mem _ hy)) htail
      exact ⟨by rw [List.map_cons, List.map_cons, hkey, hkeys], hrest⟩

end Lists

end MonkeySyntax.Text
