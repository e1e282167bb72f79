import MessageCatalog.Message.Render
import MessageCatalog.Text.Decimal

/-!
# MessageCatalog.Message.Canonical

The canonical source of a message body (`Message.canonical`): text as it is, and each replacement as
a placeholder such as `${n:plural.one{item}.other{items}}`.

The form is canonical in what it leaves out and in what order it writes: the kind `string` is not
written, nor is the plural type `cardinal`; numbers of a plural come before its categories, both in
increasing order; and a default is written behind the cases, if it is not empty. It is defined along
the nesting of messages, one function for each type that occurs in a message.

The section and the key of a message are no part of it, nor is the markup of a file around a body:
line breaks and indentation have become blanks in the text by then. Whether the canonical form can
be read again is the subject of `MessageCatalog.Proofs.RoundTrip`.
-/

namespace MessageCatalog

/-- The option `name` with the body `body`, as it is written in a file. -/
def optionSource (name body : String) : String := "." ++ name ++ "\x7b" ++ body ++ "\x7d"

/-- The name of an option in brackets. -/
def literalSource (text : String) : String := "[" ++ text ++ "]"

mutual

/-- The body of a message in canonical form: its segments, and the canonical form of each
replacement between them (`Message.weave`). -/
def Message.canonical : Message → String
  | ⟨_, _, text, replacements⟩ =>
    String.join ((Message.weave 0 text (canonicalMarks replacements)).map Message.flatten)

/-- The replacements of a message in canonical form, each with its place, as `Message.weave` takes
them. -/
def canonicalMarks : List Replacement → List (Nat × String)
  | [] => []
  | r :: rest => (r.textPos, Replacement.canonical r) :: canonicalMarks rest

/-- A replacement in canonical form: its key, its kind unless that is `string`, and its options. -/
def Replacement.canonical : Replacement → String
  | ⟨key, _, kind, details⟩ =>
    "$\x7b" ++ key ++ (if kind = .string then "" else ":" ++ kind.name) ++
      Details.canonical details ++ "\x7d"

/-- The options of a replacement in canonical form. An empty default is not written, since no option
could say it. -/
def Details.canonical : Details → String
  | .none => ""
  | .money currency => optionSource "currency" currency
  | .plural type variants custom =>
    (if type = .ordinal then "." ++ type.name else "") ++
      canonicalNumbers custom ++ canonicalCategories variants
  | .select cases fallback =>
    canonicalCases cases ++ (if fallback.isEmpty then "" else optionSource "default" fallback)

/-- The options for plural categories in canonical form, in their order. -/
def canonicalCategories : List (PluralCategory × Message) → String
  | [] => ""
  | (category, body) :: rest =>
    optionSource category.name (Message.canonical body) ++ canonicalCategories rest

/-- The options for numbers in canonical form, in their order. -/
def canonicalNumbers : List (Int × Message) → String
  | [] => ""
  | (n, body) :: rest =>
    optionSource (literalSource (Text.showInt n)) (Message.canonical body) ++ canonicalNumbers rest

/-- The options for select cases in canonical form, in their order. -/
def canonicalCases : List (String × Message) → String
  | [] => ""
  | (value, body) :: rest =>
    optionSource (literalSource value) (Message.canonical body) ++ canonicalCases rest

end

/-! ### The canonical form is a rendering

To write a message is to render it with a resolver that writes each replacement
(`Message.canonical_eq_render`), so what is known of rendering is known of writing. -/

/-- The list function of the mutual recursion is a map. -/
theorem canonicalMarks_eq_map (rs : List Replacement) :
    canonicalMarks rs = rs.map fun r => (r.textPos, r.canonical) := by
  induction rs with
  | nil => rfl
  | cons r rest ih => rw [canonicalMarks, ih, List.map_cons]

/-- Marks may be changed before or after they are woven in. -/
theorem Message.map_weave {α β : Type} (f : α → β) (marks : List (Nat × α)) :
    ∀ (passed : Nat) (segments : List String),
      weave passed segments (marks.map fun m => (m.1, f m.2)) =
        (weave passed segments marks).map (Sum.map id f) := by
  induction marks with
  | nil => intro passed segments; simp [weave]
  | cons mark marks ih =>
    intro passed segments
    simp only [List.map_cons, weave, ih, List.map_append, List.map_map]
    rfl

/-- A message is written by rendering it (`Message.render`) with the canonical form of each
replacement. -/
theorem Message.canonical_eq_render (m : Message) :
    m.canonical = m.render Replacement.canonical := by
  obtain ⟨sectionName, key, text, replacements⟩ := m
  have h := Message.map_weave Replacement.canonical
    (replacements.map fun r => (r.textPos, r)) 0 text
  rw [List.map_map] at h
  rw [Message.canonical, canonicalMarks_eq_map, render, pieces]
  have hmarks : (replacements.map fun r => (r.textPos, r.canonical)) =
      replacements.map ((fun m => (m.1, m.2.canonical)) ∘ fun r => (r.textPos, r)) := rfl
  rw [hmarks, h, List.map_map]
  congr 1
  apply List.map_congr_left
  intro p _
  cases p <;> rfl

end MessageCatalog
