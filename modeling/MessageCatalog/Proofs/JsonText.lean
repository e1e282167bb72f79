import MessageCatalog.JsonValue
import MessageCatalog.Proofs.Quoting

/-!
# MessageCatalog.Proofs.JsonText

A JSON value can be told from its text: no other value, at the same level of indentation, has that
text (`JsonValue.pretty_injective`).

A text inside of a larger one has to show where it ends as well. All values do, save that a number
needs something other than a digit behind it (`NoDigit`), which a comma, a line break and the end of
the whole text all are. So the induction over values is about a value with something behind it
(`JsonValue.Told`): whatever other value is written as the same text, with anything behind it, is
the same value with the same behind it.

The first character tells the kind of the value (`JsonValue.head?_pretty_append`), and there is one
lemma for each kind (`told_string`, `told_number`, `told_array`, `told_object`). Arrays and objects
share theirs on what stands in brackets (`inside_append_inj`), which is about any way of writing
elements: what `f` writes for each can be told, so the list can be. Strings are a style of escaping
as in `MessageCatalog.Proofs.Quoting`.

The whole is put together in `told_pretty`, by recursion on the value, since elements of arrays and
fields of objects are values again.
-/

namespace MessageCatalog

/-! ### What stands behind a number

The one condition under which texts are put one behind the other here. -/

/-- No digit comes first, so a number in front of `x` ends there. Nothing at all will do as well. -/
def NoDigit (x : List Char) : Prop := ∀ c ∈ x.head?, c.isDigit = false

/-! ### Numbers

Digits are told from what is behind them as a run of one class of characters (`run_append_inj`), and
then read back as a number. -/

namespace Text

theorem natDigits_append_inj {m n : Nat} {x y : List Char} (hx : NoDigit x) (hy : NoDigit y)
    (h : natDigits m ++ x = natDigits n ++ y) : m = n ∧ x = y := by
  obtain ⟨hdigits, hrest⟩ :=
    run_append_inj (fun _ => natDigits_isDigit) (fun _ => natDigits_isDigit) hx hy h
  have hread : some m = some n := by
    rw [← readDigits_natDigits m, hdigits, readDigits_natDigits]
  exact ⟨Option.some.inj hread, hrest⟩

/-- The digits of a number do not start with a minus sign, so `showInt` of no natural number is that
of a negative one. -/
theorem natDigits_append_ne_minus (n : Nat) (x y : List Char) : natDigits n ++ x ≠ '-' :: y := by
  cases hdigits : natDigits n with
  | nil => exact absurd hdigits (natDigits_ne_nil n)
  | cons c cs =>
    intro h
    obtain rfl : c = '-' := (List.cons.inj h).1
    exact absurd (natDigits_isDigit (n := n) (c := '-') (by simp [hdigits])) (by decide)

/-- Which number `showInt` has written, and where it ends, can be told. A minus sign tells the sign,
and what is left are the digits of a natural number. -/
theorem showInt_append_inj {m n : Int} {x y : List Char} (hx : NoDigit x) (hy : NoDigit y)
    (h : (showInt m).toList ++ x = (showInt n).toList ++ y) : m = n ∧ x = y := by
  cases m with
  | ofNat m =>
    cases n with
    | ofNat n =>
      obtain ⟨rfl, hrest⟩ := natDigits_append_inj hx hy (by simpa [showInt, showNat] using h)
      exact ⟨rfl, hrest⟩
    | negSucc n =>
      exact absurd (by simpa [showInt, showNat] using h) (natDigits_append_ne_minus m x _)
  | negSucc m =>
    cases n with
    | ofNat n =>
      exact absurd (by simpa [showInt, showNat] using h.symm) (natDigits_append_ne_minus n y _)
    | negSucc n =>
      obtain ⟨hmn, hrest⟩ := natDigits_append_inj hx hy (by simpa [showInt, showNat] using h)
      obtain rfl : m = n := by omega
      exact ⟨rfl, hrest⟩

/-- Different numbers are written differently. This is `showInt_append_inj` with nothing behind. -/
theorem showInt_injective : Function.Injective showInt := by
  intro m n h
  exact (showInt_append_inj (x := []) (y := []) (by simp [NoDigit]) (by simp [NoDigit])
    (by rw [h])).1

end Text

namespace JsonValue

/-! ### Strings

The style of escaping of JSON strings, and what it gives: strings are told from what is behind them.
-/

/-- The style of `JsonValue.quote`. The longer form is the code point in four hexadecimal digits,
which is used for control characters alone, so that two digits are zero. -/
def escaping : Escaping where
  letters := [('"', '"'), ('\\', '\\'), ('n', '\n'), ('r', '\r'), ('t', '\t'), ('b', '\x08'),
    ('f', '\x0C')]
  Long c s := c.toNat < 0x20 ∧ s = ['0', '0', hexDigit (c.toNat / 16), hexDigit (c.toNat % 16)]
  letters_inj := by decide
  letters_ne := by decide
  long_inj := by
    rintro c d _ _ x y ⟨hc, rfl⟩ ⟨hd, rfl⟩ h
    simp only [List.cons_append, List.nil_append, List.cons.injEq, true_and] at h
    obtain ⟨hquot, hrem, hrest⟩ := h
    have hquot := digitChar_inj (by omega) (by omega) hquot
    have hrem := digitChar_inj (Nat.mod_lt _ (by decide)) (Nat.mod_lt _ (by decide)) hrem
    exact ⟨Char.toNat_inj.mp (by omega), hrest⟩

/-- What `escapeChar` writes for a character is one of the ways of the style `escaping`: a short
form where there is one, the longer form for other control characters, and else the character
itself. -/
theorem writes_escapeChar (c : Char) : escaping.Writes c (escapeChar c) := by
  unfold escapeChar
  split_ifs with hmark hbackslash hlf hcr htab hbs hff hlong
  · exact .letter (by simp [escaping, hmark])
  · exact .letter (by simp [escaping, hbackslash])
  · exact .letter (by simp [escaping, hlf])
  · exact .letter (by simp [escaping, hcr])
  · exact .letter (by simp [escaping, htab])
  · obtain rfl : c = '\x08' := Char.toNat_inj.mp hbs
    exact .letter (by decide)
  · obtain rfl : c = '\x0C' := Char.toNat_inj.mp hff
    exact .letter (by decide)
  · exact .long ⟨hlong, rfl⟩
  · exact .plain hbackslash hmark

theorem toList_quote (s : String) :
    (quote s).toList = '"' :: (s.toList.flatMap escapeChar ++ ['"']) := by
  simp [quote]

/-- Which string is in the quotes, and where they end, can be told from `quote` of it with anything
behind. -/
theorem quote_append_inj {s t : String} {x y : List Char}
    (h : (quote s).toList ++ x = (quote t).toList ++ y) : s = t ∧ x = y := by
  simp only [toList_quote, List.cons_append, List.append_assoc, List.nil_append, List.cons.injEq,
    true_and] at h
  obtain ⟨hchars, rfl⟩ := Escaping.flatMap_append_inj writes_escapeChar h
  exact ⟨String.toList_inj.mp hchars, rfl⟩

/-! ### The first character

So values of different kinds are never written alike, and only values of one kind have to be
compared. -/

/-- The kinds of values there are. The characters with which their texts start are different ones,
see `Kind.ofChar`. -/
inductive Kind
  | string
  | number
  | array
  | object
  deriving DecidableEq

/-- The kind of a value, which is its constructor. -/
def kind : JsonValue → Kind
  | .string _ => .string
  | .number _ => .number
  | .array _ => .array
  | .object _ => .object

/-- The kind of value that a character opens, in the text of `pretty`. What opens none of the others
opens a number. -/
def Kind.ofChar : Char → Kind
  | '"' => .string
  | '[' => .array
  | '{' => .object
  | _ => .number

theorem Kind.ofChar_of_isDigit {c : Char} (h : c.isDigit = true) : Kind.ofChar c = .number := by
  unfold Kind.ofChar
  split
  · exact absurd h (by decide)
  · exact absurd h (by decide)
  · exact absurd h (by decide)
  · rfl

/-- The first character of `pretty level v` tells the kind of `v`, whatever is behind. For a number
that is a digit or a minus sign, which open nothing else. -/
theorem head?_pretty_append (level : Nat) (v : JsonValue) (x : List Char) :
    ((pretty level v).toList ++ x).head?.map Kind.ofChar = some v.kind := by
  match v with
  | .string s =>
    rw [pretty, toList_quote]
    rfl
  | .number (.ofNat n) =>
    cases hdigits : Text.natDigits n with
    | nil => exact absurd hdigits (Text.natDigits_ne_nil n)
    | cons c cs =>
      have hc : c.isDigit = true := Text.natDigits_isDigit (n := n) (by simp [hdigits])
      simp [pretty, Text.showInt, Text.showNat, hdigits, Kind.ofChar_of_isDigit hc, kind]
  | .number (.negSucc n) => simp [pretty, Text.showInt, Kind.ofChar, kind]
  | .array [] | .array (_ :: _) => simp [pretty, Kind.ofChar, kind]
  | .object [] | .object ((_, _) :: _) => simp [pretty, Kind.ofChar, kind]

/-- Values that are written alike, with anything behind them, are of the same `kind`. -/
theorem kind_eq_of_append {level : Nat} {v w : JsonValue} {x y : List Char}
    (h : (pretty level v).toList ++ x = (pretty level w).toList ++ y) : v.kind = w.kind := by
  have hkind : some v.kind = some w.kind := by
    rw [← head?_pretty_append level v x, h, head?_pretty_append]
  exact Option.some.inj hkind

/-! ### Elements in brackets

For lists of anything that is written by a function `f`. Between elements there is a comma and a
line break, and before the closing bracket a line break without a comma; so after each element one
character tells whether there is another. -/

section

variable {α : Type} {f : α → List Char} {a : α} {as bs : List α} {x y : List Char} {level : Nat}

/-- What `f` writes for `a` is not written for anything else, whatever stands behind; and where it
ends is told too. Neither may have a digit behind it (`NoDigit`), which matters where `f` writes
numbers. -/
def Told (f : α → List Char) (a : α) : Prop :=
  ∀ ⦃b x y⦄, NoDigit x → NoDigit y → f a ++ x = f b ++ y → a = b ∧ x = y

/-- Elements behind another one, each behind a comma and on a line of its own. This is what
`prettyItems` and `prettyFields` write, with `f` for one element. -/
def further (level : Nat) (f : α → List Char) (as : List α) : List Char :=
  as.flatMap fun a => ',' :: ((lineBreak level).toList ++ f a)

/-- What stands in brackets: each element on a line of its own, one level deeper than the brackets,
and nothing at all where there is no element. -/
def inside (level : Nat) (f : α → List Char) : List α → List Char
  | [] => []
  | a :: as =>
    (lineBreak (level + 1)).toList ++ f a ++ further (level + 1) f as ++ (lineBreak level).toList

theorem toList_lineBreak (level : Nat) :
    (lineBreak level).toList = '\n' :: List.replicate (2 * level) ' ' := by
  simp [lineBreak]

/-- Behind an element there is a comma or a line break, so that `Told` applies to the element. -/
theorem noDigit_further : NoDigit (further level f as ++ '\n' :: x) := by
  cases as <;> simp [further, NoDigit]

/-- Which elements follow another one can be told, if each is `Told`. By induction on the elements;
the comma tells that there is one more. -/
theorem further_append_inj (has : ∀ a ∈ as, Told f a)
    (h : further level f as ++ '\n' :: x = further level f bs ++ '\n' :: y) :
    as = bs ∧ x = y := by
  induction as generalizing bs with
  | nil =>
    cases bs with
    | nil => exact ⟨rfl, by simpa [further] using h⟩
    | cons b bs => simp [further] at h
  | cons a as ih =>
    cases bs with
    | nil => simp [further] at h
    | cons b bs =>
      have h : f a ++ (further level f as ++ '\n' :: x) =
          f b ++ (further level f bs ++ '\n' :: y) := by
        simpa [further] using h
      obtain ⟨rfl, hmore⟩ := has a (by simp) noDigit_further noDigit_further h
      obtain ⟨rfl, hrest⟩ := ih (fun a ha => has a (by simp [ha])) hmore
      exact ⟨rfl, hrest⟩

/-- Which elements are in the brackets can be told from `inside` and the closing bracket. That there
are some shows in the line break, which is no bracket. -/
theorem inside_append_inj (has : ∀ a ∈ as, Told f a) {bracket : Char} (hbracket : bracket ≠ '\n')
    (h : inside level f as ++ bracket :: x = inside level f bs ++ bracket :: y) :
    as = bs ∧ x = y := by
  cases as with
  | nil =>
    cases bs with
    | nil => exact ⟨rfl, by simpa [inside] using h⟩
    | cons b bs => simp [inside, toList_lineBreak, hbracket] at h
  | cons a as =>
    cases bs with
    | nil => simp [inside, toList_lineBreak, hbracket.symm] at h
    | cons b bs =>
      simp only [inside, List.append_assoc, List.append_cancel_left_eq, toList_lineBreak level,
        List.cons_append] at h
      obtain ⟨rfl, hmore⟩ := has a (by simp) noDigit_further noDigit_further h
      obtain ⟨rfl, hend⟩ := further_append_inj (fun a ha => has a (by simp [ha])) hmore
      exact ⟨rfl, by simpa using hend⟩

end

/-! ### Values

The texts of arrays and objects are brought into the form of the section above, and then each kind
of values has its lemma. -/

/-- The text of a field: its name as a string, a colon and a blank, and its value. -/
def prettyField (level : Nat) (field : String × JsonValue) : List Char :=
  (quote field.1).toList ++ ':' :: ' ' :: (pretty level field.2).toList

theorem toList_prettyItems (level : Nat) (items : List JsonValue) :
    (prettyItems level items).toList = further level (fun v => (pretty level v).toList) items := by
  induction items with
  | nil => rfl
  | cons v items ih => simp [prettyItems, further, ih]

theorem toList_prettyFields (level : Nat) (fields : List (String × JsonValue)) :
    (prettyFields level fields).toList = further level (prettyField level) fields := by
  induction fields with
  | nil => rfl
  | cons field fields ih => simp [prettyFields, further, prettyField, ih]

theorem toList_pretty_array (level : Nat) (items : List JsonValue) :
    (pretty level (.array items)).toList =
      '[' :: (inside level (fun v => (pretty (level + 1) v).toList) items ++ [']']) := by
  cases items <;> simp [pretty, inside, toList_prettyItems]

/-- The text of an object, with what is `inside` its braces. Arrays are the same with brackets and
without names. -/
theorem toList_pretty_object (level : Nat) (fields : List (String × JsonValue)) :
    (pretty level (.object fields)).toList =
      '{' :: (inside level (prettyField (level + 1)) fields ++ ['}']) := by
  rcases fields with - | ⟨⟨name, v⟩, fields⟩ <;>
    simp [pretty, inside, toList_prettyFields, prettyField]

/-- A field is `Told` if its value is. The name is a string, which shows where it ends. -/
theorem Told.field {level : Nat} {field : String × JsonValue}
    (h : Told (fun v => (pretty level v).toList) field.2) : Told (prettyField level) field := by
  rintro ⟨name, w⟩ x y hx hy heq
  simp only [prettyField, List.append_assoc, List.cons_append] at heq
  obtain ⟨hname, heq⟩ := quote_append_inj heq
  obtain ⟨hvalue, hrest⟩ := h hx hy (List.cons.inj (List.cons.inj heq).2).2
  exact ⟨Prod.ext hname hvalue, hrest⟩

theorem told_string (level : Nat) (s : String) :
    Told (fun v => (pretty level v).toList) (.string s) := by
  intro w x y _ _ h
  obtain ⟨t, rfl⟩ : ∃ t, w = .string t := by
    have hkind := kind_eq_of_append h
    cases w <;> simp [kind] at hkind ⊢
  obtain ⟨rfl, hrest⟩ := quote_append_inj (by simpa only [pretty] using h)
  exact ⟨rfl, hrest⟩

/-- Numbers are `Told`; this is the kind of value for which `NoDigit` is asked for. -/
theorem told_number (level : Nat) (n : Int) :
    Told (fun v => (pretty level v).toList) (.number n) := by
  intro w x y hx hy h
  obtain ⟨n', rfl⟩ : ∃ n', w = .number n' := by
    have hkind := kind_eq_of_append h
    cases w <;> simp [kind] at hkind ⊢
  obtain ⟨rfl, hrest⟩ := Text.showInt_append_inj hx hy (by simpa only [pretty] using h)
  exact ⟨rfl, hrest⟩

/-- Arrays are `Told` if their elements are, one level deeper, by `inside_append_inj`. -/
theorem told_array {level : Nat} {items : List JsonValue}
    (hitems : ∀ v ∈ items, Told (fun v => (pretty (level + 1) v).toList) v) :
    Told (fun v => (pretty level v).toList) (.array items) := by
  intro w x y _ _ h
  obtain ⟨items', rfl⟩ : ∃ items', w = .array items' := by
    have hkind := kind_eq_of_append h
    cases w <;> simp [kind] at hkind ⊢
  obtain ⟨rfl, hrest⟩ :=
    inside_append_inj hitems (by decide : ']' ≠ '\n') (by simpa [toList_pretty_array] using h)
  exact ⟨rfl, hrest⟩

/-- Objects are `Told` if the values of their fields are, one level deeper, by `Told.field` and
`inside_append_inj`. -/
theorem told_object {level : Nat} {fields : List (String × JsonValue)}
    (hfields : ∀ field ∈ fields, Told (fun v => (pretty (level + 1) v).toList) field.2) :
    Told (fun v => (pretty level v).toList) (.object fields) := by
  intro w x y _ _ h
  obtain ⟨fields', rfl⟩ : ∃ fields', w = .object fields' := by
    have hkind := kind_eq_of_append h
    cases w <;> simp [kind] at hkind ⊢
  obtain ⟨rfl, hrest⟩ :=
    inside_append_inj (fun field hfield => (hfields field hfield).field)
      (by decide : '}' ≠ '\n') (by simpa [toList_pretty_object] using h)
  exact ⟨rfl, hrest⟩

/-- Which value is written, and where it ends, can be told (`Told`), at every level. By recursion on
the value. -/
theorem told_pretty (level : Nat) :
    ∀ v : JsonValue, Told (fun v => (pretty level v).toList) v
  | .string s => told_string level s
  | .number n => told_number level n
  | .array items => told_array fun v _ => told_pretty (level + 1) v
  | .object fields => told_object fun (_, v) _ => told_pretty (level + 1) v
termination_by v => v
decreasing_by
  · have hlt := List.sizeOf_lt_of_mem ‹v ∈ items›
    simp only [array.sizeOf_spec]
    omega
  · have hlt := List.sizeOf_lt_of_mem ‹(_, v) ∈ fields›
    simp only [Prod.mk.sizeOf_spec] at hlt
    simp only [object.sizeOf_spec]
    omega

/-- Different values have different texts. This is `told_pretty` with nothing behind the values,
which is no digit. -/
theorem pretty_injective (level : Nat) : Function.Injective (pretty level) := by
  intro v w h
  have hnil : NoDigit [] := by simp [NoDigit]
  exact (told_pretty level v hnil hnil (congrArg (·.toList ++ []) h)).1

end JsonValue

end MessageCatalog
