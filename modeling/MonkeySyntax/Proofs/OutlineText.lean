import MonkeySyntax.Proofs.SelfDelimiting
import MonkeySyntax.Tree.Outline

/-!
# An outline can be told from its text

Up to places, the outline of a tree is determined by its debugging text, if it has one
(`Outline.unplaced_eq_of_debugText?`).

It does not matter here how long a number may be. The debugging text is taken from a text that every
outline has, in which each number is written out (`Outline.fullText`), and this one tells the
outline already (`Outline.unplaced_eq_of_fullText_eq`).

Not every outline has this property: a record whose kind is `None(` could be mistaken for something
else. Those of trees follow a schema, which lists the kinds of records with the names of their
parts, and all of these are words.

The text is taken apart from the left. It begins with a word, which may be empty, and the character
behind that word tells what form of outline it is. Each form shows where it ends, provided that what
comes next is a comma, a closing parenthesis or nothing; and this is what comes next behind the
items of a sequence and the parts of a record.
-/

namespace MonkeySyntax

namespace Outline

open Text

/-! ### Outlines without places -/

mutual

/-- The outline without any places. -/
def unplaced : Outline → Outline
  | absent => absent
  | truth value => truth value
  | number value => number value
  | text value => text value
  | sequence items => sequence (unplacedEach items)
  | record kind _ parts => record kind none (unplacedParts parts)

/-- The outlines without any places. -/
def unplacedEach : List Outline → List Outline
  | [] => []
  | item :: items => item.unplaced :: unplacedEach items

/-- The named parts without any places. -/
def unplacedParts : List (String × Outline) → List (String × Outline)
  | [] => []
  | (name, value) :: parts => (name, value.unplaced) :: unplacedParts parts

end

@[simp] theorem unplacedEach_eq_map (items : List Outline) :
    unplacedEach items = items.map unplaced := by
  induction items with
  | nil => rfl
  | cons item items ih => simp [unplacedEach, ih]

@[simp] theorem unplacedParts_eq_map (parts : List (String × Outline)) :
    unplacedParts parts = parts.map fun part => (part.1, part.2.unplaced) := by
  induction parts with
  | nil => rfl
  | cons part parts ih => simp [unplacedParts, ih]

theorem unplaced_sequence (items : List Outline) :
    (sequence items).unplaced = sequence (items.map unplaced) := by
  rw [unplaced, unplacedEach_eq_map]

theorem unplaced_record (kind : String) (place : Option (Int × Int))
    (parts : List (String × Outline)) : (record kind place parts).unplaced =
      record kind none (parts.map fun part => (part.1, part.2.unplaced)) := by
  rw [unplaced, unplacedParts_eq_map]

/-! ### Texts with all numbers written out -/

mutual

/-- The text of an outline if numbers of any length can be written. -/
def fullText : Outline → String
  | absent => "None"
  | truth true => "True"
  | truth false => "False"
  | number value => toString value
  | text value => Text.quoted value
  | sequence items => tupleText (fullTexts items)
  | record kind _ parts => recordText kind (fullPartTexts parts)

/-- The texts of several outlines. -/
def fullTexts : List Outline → List String
  | [] => []
  | item :: items => item.fullText :: fullTexts items

/-- The texts of named parts. -/
def fullPartTexts : List (String × Outline) → List String
  | [] => []
  | (name, value) :: parts => (name ++ "=" ++ value.fullText) :: fullPartTexts parts

end

@[simp] theorem fullTexts_eq_map (items : List Outline) : fullTexts items = items.map fullText := by
  induction items with
  | nil => rfl
  | cons item items ih => simp [fullTexts, ih]

@[simp] theorem fullPartTexts_eq_map (parts : List (String × Outline)) :
    fullPartTexts parts = parts.map fun part => part.1 ++ "=" ++ part.2.fullText := by
  induction parts with
  | nil => rfl
  | cons part parts ih => simp [fullPartTexts, ih]

mutual

/-- The debugging text, if there is one, has all numbers written out. -/
theorem fullText_of_debugText? : ∀ (o : Outline) {s : String}, o.debugText? = some s → o.fullText = s
  | absent, _, h | truth true, _, h | truth false, _, h | text _, _, h => Option.some.inj h
  | number value, s, h => by
    rw [debugText?, Numeral.decimalText?] at h
    split at h
    · exact Option.some.inj h
    · cases h
  | sequence items, s, h => by
    obtain ⟨texts, htexts, rfl⟩ := Option.map_eq_some_iff.mp h
    rw [fullText, fullTexts_of_debugTexts? items htexts]
  | record kind place parts, s, h => by
    obtain ⟨texts, htexts, rfl⟩ := Option.map_eq_some_iff.mp h
    rw [fullText, fullPartTexts_of_partTexts? parts htexts]

theorem fullTexts_of_debugTexts? : ∀ (items : List Outline) {texts : List String},
    debugTexts? items = some texts → fullTexts items = texts
  | [], _, h => Option.some.inj h
  | item :: items, _, h => by
    obtain ⟨text, htext, hrest⟩ := Option.bind_eq_some_iff.mp h
    obtain ⟨texts, htexts, rfl⟩ := Option.map_eq_some_iff.mp hrest
    rw [fullTexts, fullText_of_debugText? item htext, fullTexts_of_debugTexts? items htexts]

theorem fullPartTexts_of_partTexts? : ∀ (parts : List (String × Outline)) {texts : List String},
    partTexts? parts = some texts → fullPartTexts parts = texts
  | [], _, h => Option.some.inj h
  | (name, value) :: parts, _, h => by
    obtain ⟨text, htext, hrest⟩ := Option.bind_eq_some_iff.mp h
    obtain ⟨texts, htexts, rfl⟩ := Option.map_eq_some_iff.mp hrest
    rw [fullPartTexts, fullText_of_debugText? value htext, fullPartTexts_of_partTexts? parts htexts]

end

/-! ### The schema -/

/-- The kinds of records, each with the names of its parts in order. -/
def schema : List (String × List String) := [
    ("Node", []), ("Statement", []), ("Expression", []), ("Program", ["statements"]),
    ("Identifier", ["value"]), ("IntegerLiteral", ["value"]), ("BooleanLiteral", ["value"]),
    ("StringLiteral", ["value"]), ("ArrayLiteral", ["elements"]),
    ("PrefixExpression", ["operator", "right"]), ("InfixExpression", ["left", "operator", "right"]),
    ("IfExpression", ["condition", "consequence", "alternative"]),
    ("FunctionLiteral", ["parameters", "body"]), ("CallExpression", ["function", "arguments"]),
    ("LetStatement", ["name", "value"]), ("ReturnStatement", ["return_value"]),
    ("ExpressionStatement", ["expression"]), ("BlockStatement", ["statements"])]

/-- The outline follows the schema. -/
inductive Conforms : Outline → Prop where
  | absent : Conforms absent
  | truth (value : Bool) : Conforms (truth value)
  | number (value : Int) : Conforms (number value)
  | text (value : String) : Conforms (text value)
  | sequence {items : List Outline} (h : ∀ item ∈ items, Conforms item) : Conforms (sequence items)
  | record {kind : String} {place : Option (Int × Int)} {parts : List (String × Outline)}
      (hkind : (kind, parts.map Prod.fst) ∈ schema) (h : ∀ part ∈ parts, Conforms part.2) :
      Conforms (record kind place parts)

/-- A character of a word: a letter, or one of the few signs between the capitals and the others, of
which the names of parts use the underscore. -/
def isWordChar (c : Char) : Bool :=
  'A'.toNat ≤ c.toNat && c.toNat ≤ 'z'.toNat

/-- A text of such characters. -/
def isWord (s : String) : Bool :=
  s.toList.all isWordChar

theorem isWordChar_of_isWord {s : String} (h : isWord s = true) :
    ∀ c ∈ s.toList, isWordChar c = true :=
  List.all_eq_true.mp h

theorem isWord_kind : ∀ entry ∈ schema, entry.1 ≠ "" ∧ isWord entry.1 = true := by
  decide

theorem isWord_name : ∀ entry ∈ schema, ∀ name ∈ entry.2, isWord name = true := by
  decide

/-! ### The text of an outline -/

/-- The word that the text begins with; it may be empty. -/
def word : Outline → List Char
  | absent => "None".toList
  | truth true => "True".toList
  | truth false => "False".toList
  | record kind _ _ => kind.toList
  | number _ | text _ | sequence _ => []

/-- The text of a named part. -/
def partText (part : String × Outline) : List Char :=
  part.1.toList ++ '=' :: part.2.fullText.toList

/-- The text behind the word. -/
def body : Outline → List Char
  | number value => (toString value).toList
  | text value => quotedList value.toList
  | sequence items => '(' :: listText (fun item => item.fullText.toList) [',', ')'] items
  | record _ _ parts => '(' :: listText partText [')'] parts
  | absent | truth _ => []

theorem toList_listText {α : Type} (write : α → String) (xs : List α) :
    (", ".intercalate (xs.map write) ++ ")").toList =
      listText (fun x => (write x).toList) [')'] xs := by
  rw [String.toList_append]
  match xs with
  | [] => simp [listText]
  | [x] => simp [listText, tailText]
  | x :: y :: xs =>
    rw [List.map_cons, toList_intercalate_cons, List.flatMap_map, List.append_assoc]
    rfl

theorem toList_tupleText {α : Type} (write : α → String) (xs : List α) :
    (tupleText (xs.map write)).toList =
      '(' :: listText (fun x => (write x).toList) [',', ')'] xs := by
  match xs with
  | [] => simp [tupleText, listText]
  | [x] => simp [tupleText, listText, tailText]
  | x :: y :: xs =>
    have hlist := toList_listText write (x :: y :: xs)
    rw [List.map_cons, List.map_cons] at hlist ⊢
    rw [tupleText, String.append_assoc, String.toList_append, hlist]
    · rfl
    · simp

theorem toList_fullText (o : Outline) : o.fullText.toList = o.word ++ o.body := by
  cases o with
  | absent | text => simp [fullText, word, body]
  | number => rfl
  | truth value => cases value <;> rfl
  | sequence items => simp [fullText, word, body, toList_tupleText]
  | record kind place parts =>
    have hpart : (fun part : String × Outline => (part.1 ++ "=" ++ part.2.fullText).toList) =
        partText := by
      funext part
      simp [partText]
    rw [fullText, fullPartTexts_eq_map, recordText, String.append_assoc, String.toList_append,
      toList_listText, hpart]
    simp [word, body]

/-! ### The form of an outline -/

/-- The forms of outlines. Those that are just a word are one form. -/
inductive Form where
  | word
  | number
  | text
  | sequence
  | record
  deriving DecidableEq

/-- The form of an outline. -/
def form : Outline → Form
  | absent | truth _ => .word
  | number _ => .number
  | text _ => .text
  | sequence _ => .sequence
  | record .. => .record

/-- The form of an outline, from the word that its text begins with and the character behind it. -/
def Form.ofStart (word : List Char) (next : Option Char) : Form :=
  if word = [] then
    match next with
    | some c => if isDecimalChar c then .number else if c ∈ marks then .text else .sequence
    | none => .sequence
  else if next = some '(' then .record
  else .word

variable {o o' : Outline} {r r' : List Char}

theorem head?_ne_paren (hr : EndsValue r) : r.head? ≠ some '(' := by
  intro h
  have hc := hr '(' h
  simp at hc

theorem isDecimalChar_of_mem_marks {mark : Char} (h : mark ∈ marks) :
    isDecimalChar mark = false := by
  obtain rfl | rfl := eq_of_mem_marks h <;> rfl

theorem isWordChar_of_mem_marks {mark : Char} (h : mark ∈ marks) : isWordChar mark = false := by
  obtain rfl | rfl := eq_of_mem_marks h <;> rfl

/-- **The start of the text tells the form.** -/
theorem form_eq (h : Conforms o) (hr : EndsValue r) :
    o.form = Form.ofStart o.word (o.body ++ r).head? := by
  cases h with
  | absent => simp [form, Form.ofStart, word, body, head?_ne_paren hr]
  | truth value => cases value <;> simp [form, Form.ofStart, word, body, head?_ne_paren hr]
  | number value =>
    obtain ⟨c, cs, hcs, hc⟩ := exists_toList_toString value
    simp only [form, Form.ofStart, word, body, hcs]
    simp [hc]
  | text value =>
    have hmark := quoteMark_mem_marks value.toList
    simp [form, Form.ofStart, word, body, quotedList, hmark, isDecimalChar_of_mem_marks hmark]
  | sequence => rfl
  | record hkind => simp [form, Form.ofStart, word, body, (isWord_kind _ hkind).1]

theorem isWordChar_of_mem_word (h : Conforms o) : ∀ c ∈ o.word, isWordChar c = true := by
  cases h with
  | absent => exact isWordChar_of_isWord (s := "None") (by decide)
  | truth value =>
    cases value with
    | true => exact isWordChar_of_isWord (s := "True") (by decide)
    | false => exact isWordChar_of_isWord (s := "False") (by decide)
  | number | text | sequence => simp [word]
  | record hkind => exact isWordChar_of_isWord (isWord_kind _ hkind).2

theorem isWordChar_eq_false_of_isDecimalChar {c : Char} (h : isDecimalChar c = true) :
    isWordChar c = false := by
  simp only [isDecimalChar, Bool.or_eq_true, beq_iff_eq] at h
  obtain h | rfl := h
  · have hle : c.toNat ≤ '9'.toNat := (Char.isDigit_iff_toNat.mp h).2
    have hlt : c.toNat < 'A'.toNat := Nat.lt_of_le_of_lt hle (by decide)
    rw [isWordChar, decide_eq_false (Nat.not_le_of_lt hlt), Bool.false_and]
  · rfl

/-- The word ends where the body begins. -/
theorem endsRun_body (o : Outline) (hr : EndsValue r) : EndsRun isWordChar (o.body ++ r) := by
  cases o with
  | absent | truth => exact hr.endsRun rfl rfl
  | number value =>
    obtain ⟨c, cs, hcs, hc⟩ := exists_toList_toString value
    rw [body, hcs]
    simpa [EndsRun] using isWordChar_eq_false_of_isDecimalChar hc
  | text value =>
    simpa [EndsRun, body, quotedList] using isWordChar_of_mem_marks (quoteMark_mem_marks value.toList)
  | sequence | record => simp [EndsRun, body, isWordChar]

/-- Texts that begin alike are of outlines of one form and with the same word, and go on alike
behind it. -/
theorem starts_eq (h : Conforms o) (h' : Conforms o') (hr : EndsValue r) (hr' : EndsValue r')
    (heq : o.fullText.toList ++ r = o'.fullText.toList ++ r') :
    o.form = o'.form ∧ o.word = o'.word ∧ o.body ++ r = o'.body ++ r' := by
  rw [toList_fullText, toList_fullText, List.append_assoc, List.append_assoc] at heq
  obtain ⟨hword, hbody⟩ := run_append_inj (isWordChar_of_mem_word h) (isWordChar_of_mem_word h')
    (endsRun_body o hr) (endsRun_body o' hr') heq
  refine ⟨?_, hword, hbody⟩
  rw [form_eq h hr, form_eq h' hr', hword, hbody]

/-! ### Texts that show where they end -/

/-- The text shows where it ends, and tells the outline up to places. -/
def ShowsEnd (o : Outline) : Prop :=
  Delimited (fun o => o.fullText.toList) Conforms unplaced o

/-- It is enough to look at the bodies of outlines of one form and with the same word. -/
theorem showsEnd_of_body (h : Conforms o)
    (hbody : ∀ ⦃o'⦄, Conforms o' → o.form = o'.form → o.word = o'.word →
      ∀ ⦃r r'⦄, EndsValue r → EndsValue r' → o.body ++ r = o'.body ++ r' →
        o.unplaced = o'.unplaced ∧ r = r') : ShowsEnd o := by
  intro o' h' r r' hr hr' heq
  obtain ⟨hform, hword, hrest⟩ := starts_eq h h' hr hr' heq
  exact hbody h' hform hword hr hr' hrest

/-- An outline that is just a word is that word. -/
theorem eq_of_word_eq (hform : o.form = .word) (hform' : o'.form = .word)
    (hword : o.word = o'.word) : o = o' := by
  cases o with
  | absent =>
    cases o' with
    | absent => rfl
    | truth value => cases value <;> exact absurd hword (by decide)
    | _ => cases hform'
  | truth value =>
    cases o' with
    | absent => cases value <;> exact absurd hword (by decide)
    | truth value' =>
      cases value <;> cases value' <;> first | rfl | exact absurd hword (by decide)
    | _ => cases hform'
  | _ => cases hform

/-- There is a first character, and it is not the end of a list. -/
theorem exists_toList_fullText (h : Conforms o) :
    ∃ c cs, o.fullText.toList = c :: cs ∧ c ≠ ')' := by
  rw [toList_fullText]
  cases h with
  | absent => exact ⟨'N', _, rfl, by decide⟩
  | truth value =>
    cases value with
    | true => exact ⟨'T', _, rfl, by decide⟩
    | false => exact ⟨'F', _, rfl, by decide⟩
  | number value =>
    obtain ⟨c, cs, hcs, hc⟩ := exists_toList_toString value
    refine ⟨c, cs, hcs, ?_⟩
    rintro rfl
    exact absurd hc (by decide)
  | text value =>
    refine ⟨quoteMark value.toList, _, rfl, fun hmark => ?_⟩
    exact absurd (hmark ▸ quoteMark_mem_marks value.toList) (by decide)
  | sequence => exact ⟨'(', _, rfl, by decide⟩
  | @record kind place parts hkind =>
    obtain ⟨hne, hword⟩ := isWord_kind _ hkind
    obtain ⟨c, cs, hcs⟩ := List.exists_cons_of_ne_nil (mt String.toList_eq_nil_iff.mp hne)
    refine ⟨c, _, by rw [word, hcs, List.cons_append], ?_⟩
    rintro rfl
    exact absurd (isWordChar_of_isWord hword ')' (by simp [hcs])) (by decide)

theorem fullText_append_ne_closeParen (h : Conforms o) (s s' : List Char) :
    o.fullText.toList ++ s ≠ ')' :: s' := by
  obtain ⟨c, cs, hcs, hc⟩ := exists_toList_fullText h
  simp [hcs, hc]

/-- The items of a sequence end where the sequence does. -/
theorem body_sequence_inj {items items' : List Outline} (h : ∀ item ∈ items, Conforms item)
    (ih : ∀ item ∈ items, ShowsEnd item) (h' : ∀ item ∈ items', Conforms item)
    (hbody : (sequence items).body ++ r = (sequence items').body ++ r') :
    (sequence items).unplaced = (sequence items').unplaced ∧ r = r' := by
  obtain ⟨hitems, hrest⟩ := listText_append_inj (by decide)
    (fun _ => fullText_append_ne_closeParen) h ih h' (List.cons.inj hbody).2
  exact ⟨by rw [unplaced_sequence, unplaced_sequence, hitems], hrest⟩

/-- A part that may be written: its name is a word. -/
def IsPart (part : String × Outline) : Prop :=
  isWord part.1 = true ∧ Conforms part.2

theorem partText_append_ne_closeParen {part : String × Outline} (hpart : IsPart part)
    (s s' : List Char) : partText part ++ s ≠ ')' :: s' := by
  intro heq
  cases hcs : part.1.toList with
  | nil => simp [partText, hcs] at heq
  | cons c cs =>
    have hc : isWordChar c = true := isWordChar_of_isWord hpart.1 c (by simp [hcs])
    simp only [partText, hcs, List.cons_append, List.cons.injEq] at heq
    rw [heq.1] at hc
    exact absurd hc (by decide)

/-- A named part shows where it ends if its value does. -/
theorem delimited_partText {part : String × Outline} (hname : isWord part.1 = true)
    (h : ShowsEnd part.2) :
    Delimited partText IsPart (fun part => (part.1, part.2.unplaced)) part := by
  rintro part' ⟨hname', h'⟩ r r' hr hr' heq
  simp only [partText, List.append_assoc, List.cons_append] at heq
  have hstops (rest : List Char) : EndsRun isWordChar ('=' :: rest) := by
    simp [EndsRun, isWordChar]
  obtain ⟨hnames, htail⟩ := run_append_inj (isWordChar_of_isWord hname)
    (isWordChar_of_isWord hname') (hstops _) (hstops _) heq
  obtain ⟨hvalues, hrest⟩ := h h' hr hr' (List.cons.inj htail).2
  exact ⟨Prod.ext (String.toList_injective hnames) hvalues, hrest⟩

theorem isPart_of_mem {kind : String} {parts : List (String × Outline)}
    (hkind : (kind, parts.map Prod.fst) ∈ schema) (h : ∀ part ∈ parts, Conforms part.2) :
    ∀ part ∈ parts, IsPart part := fun part hp =>
  ⟨isWord_name _ hkind _ (List.mem_map_of_mem hp), h part hp⟩

/-- The parts of a record end where the record does. -/
theorem body_record_inj {kind : String} {place place' : Option (Int × Int)}
    {parts parts' : List (String × Outline)} (h : ∀ part ∈ parts, IsPart part)
    (ih : ∀ part ∈ parts, ShowsEnd part.2) (h' : ∀ part ∈ parts', IsPart part)
    (hbody : (record kind place parts).body ++ r = (record kind place' parts').body ++ r') :
    (record kind place parts).unplaced = (record kind place' parts').unplaced ∧ r = r' := by
  obtain ⟨hparts, hrest⟩ := listText_append_inj (by decide)
    (fun _ => partText_append_ne_closeParen) h
    (fun part hp => delimited_partText (h part hp).1 (ih part hp)) h' (List.cons.inj hbody).2
  exact ⟨by rw [unplaced_record, unplaced_record, hparts], hrest⟩

/-- **The text of an outline shows where it ends, and tells the outline up to places.** -/
theorem showsEnd (h : Conforms o) : ShowsEnd o := by
  induction h with
  | absent =>
    refine showsEnd_of_body .absent fun o' _ hform hword r r' _ _ hbody => ?_
    obtain rfl := eq_of_word_eq rfl hform.symm hword
    exact ⟨rfl, hbody⟩
  | truth value =>
    refine showsEnd_of_body (.truth value) fun o' _ hform hword r r' _ _ hbody => ?_
    obtain rfl := eq_of_word_eq rfl hform.symm hword
    exact ⟨rfl, List.append_cancel_left hbody⟩
  | number value =>
    refine showsEnd_of_body (.number value) fun o' h' hform _ r r' hr hr' hbody => ?_
    cases h' with
    | number value' =>
      obtain ⟨rfl, hrest⟩ :=
        toString_int_append_inj (hr.endsRun rfl rfl) (hr'.endsRun rfl rfl) hbody
      exact ⟨rfl, hrest⟩
    | _ => cases hform
  | text value =>
    refine showsEnd_of_body (.text value) fun o' h' hform _ r r' _ _ hbody => ?_
    cases h' with
    | text value' =>
      obtain ⟨hvalue, hrest⟩ := quotedList_append_inj hbody
      exact ⟨congrArg text (String.toList_injective hvalue), hrest⟩
    | _ => cases hform
  | @sequence items h ih =>
    refine showsEnd_of_body (.sequence h) fun o' h' hform _ r r' _ _ hbody => ?_
    cases h' with
    | sequence h' => exact body_sequence_inj h ih h' hbody
    | _ => cases hform
  | @record kind place parts hkind h ih =>
    refine showsEnd_of_body (.record hkind h) fun o' h' hform hword r r' _ _ hbody => ?_
    cases h' with
    | @record kind' place' parts' hkind' h' =>
      obtain rfl : kind = kind' := String.toList_injective hword
      exact body_record_inj (isPart_of_mem hkind h) ih (isPart_of_mem hkind' h') hbody
    | _ => cases hform

/-- **Outlines with the same text are the same up to places**, if numbers of any length can be
written. -/
theorem unplaced_eq_of_fullText_eq (h : Conforms o) (h' : Conforms o')
    (heq : o.fullText = o'.fullText) : o.unplaced = o'.unplaced := by
  have hnil : EndsValue [] := by simp [EndsValue]
  exact (showsEnd h h' hnil hnil (by simp only [heq])).1

/-- **Outlines with the same debugging text are the same up to places.** -/
theorem unplaced_eq_of_debugText? {s : String} (h : Conforms o) (h' : Conforms o')
    (hs : o.debugText? = some s) (hs' : o'.debugText? = some s) : o.unplaced = o'.unplaced := by
  apply unplaced_eq_of_fullText_eq h h'
  rw [fullText_of_debugText? o hs, fullText_of_debugText? o' hs']

/-! ### Which outlines have a debugging text -/

mutual

/-- Places are not shown in the text, whether or not there is one. -/
theorem debugText?_unplaced : ∀ o : Outline, o.unplaced.debugText? = o.debugText?
  | absent | truth _ | number _ | text _ => rfl
  | sequence items => by
    rw [unplaced, debugText?, debugText?, debugTexts?_unplacedEach items]
  | record kind place parts => by
    rw [unplaced, debugText?, debugText?, partTexts?_unplacedParts parts]

theorem debugTexts?_unplacedEach : ∀ items : List Outline,
    debugTexts? (unplacedEach items) = debugTexts? items
  | [] => rfl
  | item :: items => by
    rw [unplacedEach, debugTexts?, debugTexts?, debugText?_unplaced item,
      debugTexts?_unplacedEach items]

theorem partTexts?_unplacedParts : ∀ parts : List (String × Outline),
    partTexts? (unplacedParts parts) = partTexts? parts
  | [] => rfl
  | (name, value) :: parts => by
    rw [unplacedParts, partTexts?, partTexts?, debugText?_unplaced value,
      partTexts?_unplacedParts parts]

end

@[simp] theorem isSome_debugText?_absent : absent.debugText?.isSome = true := rfl

@[simp] theorem isSome_debugText?_truth (value : Bool) : (truth value).debugText?.isSome = true := by
  cases value <;> rfl

@[simp] theorem isSome_debugText?_text (value : String) : (text value).debugText?.isSome = true :=
  rfl

/-- A sequence has a debugging text if its items have. -/
@[simp] theorem isSome_debugText?_sequence (items : List Outline) :
    (sequence items).debugText?.isSome = true ↔ ∀ item ∈ items, item.debugText?.isSome = true := by
  rw [debugText?, Option.isSome_map]
  induction items with
  | nil => simp [debugTexts?]
  | cons item items ih =>
    rw [debugTexts?, List.forall_mem_cons, ← ih]
    cases item.debugText? <;> simp

/-- A record has a debugging text if its parts have. -/
@[simp] theorem isSome_debugText?_record (kind : String) (place : Option (Int × Int))
    (parts : List (String × Outline)) : (record kind place parts).debugText?.isSome = true ↔
      ∀ part ∈ parts, part.2.debugText?.isSome = true := by
  rw [debugText?, Option.isSome_map]
  induction parts with
  | nil => simp [partTexts?]
  | cons part parts ih =>
    rw [partTexts?, List.forall_mem_cons, ← ih]
    cases part.2.debugText? <;> simp

end Outline

end MonkeySyntax
