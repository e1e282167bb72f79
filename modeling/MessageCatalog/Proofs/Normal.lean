import MessageCatalog.Message.Canonical

/-!
# MessageCatalog.Proofs.Normal

The normal form of a message. The body of a plural option remembers how its option was written, such
as `ONE` or `+1`; in normal form (`Message.normal`) it has the name that is written in canonical
form. Nothing else changes.

So a message and its normal form have the same canonical form (`Message.canonical_normal`), and a
message whose plural options are all written in canonical spelling (`Message.Spelled`) is its own
normal form (`Message.normal_eq_self`). Reading the canonical form of a message gives its normal
form, as `MessageCatalog.Proofs.RoundTrip` proves.

Definitions and proofs recurse along the types of `MessageCatalog.Message`: messages, replacements
and details, and one function for each list in them.
-/

namespace MessageCatalog

/-! ### Normal form

The key of an option body is the name of the option, so the key of a body is what normalizing
replaces, from the outside. -/

/-- The message under another key. Bodies of options are messages whose key comes from the name of
the option. -/
def Message.withKey (m : Message) (key : String) : Message := { m with key }

mutual

/-- The message in normal form: the bodies of all plural options in it have the keys of
`Details.normal`. Its own section, key and text stay. -/
def Message.normal : Message → Message
  | ⟨sectionName, key, text, replacements⟩ =>
    ⟨sectionName, key, text, normalReplacements replacements⟩

/-- The replacements in normal form, one by one. -/
def normalReplacements : List Replacement → List Replacement
  | [] => []
  | r :: rest => Replacement.normal r :: normalReplacements rest

/-- The replacement in normal form, which is in its details alone (`Details.normal`). -/
def Replacement.normal : Replacement → Replacement
  | ⟨key, textPos, kind, details⟩ => ⟨key, textPos, kind, Details.normal details⟩

/-- The details in normal form. Bodies get the canonical keys of their options (`Message.withKey`),
and are in normal form themselves. -/
def Details.normal : Details → Details
  | .none => .none
  | .money currency => .money currency
  | .plural type variants custom =>
    .plural type (normalCategories variants) (normalNumbers custom)
  | .select cases fallback => .select (normalCases cases) fallback

/-- Plural variants in normal form: each has the name of its category as its key. Below, a body for
a number has that number in decimal (`Text.showInt`), and a case of a selection keeps its key, for
it is compared as it is written. -/
def normalCategories : List (PluralCategory × Message) → List (PluralCategory × Message)
  | [] => []
  | (category, body) :: rest =>
    (category, (Message.normal body).withKey category.name) :: normalCategories rest

def normalNumbers : List (Int × Message) → List (Int × Message)
  | [] => []
  | (n, body) :: rest => (n, (Message.normal body).withKey (Text.showInt n)) :: normalNumbers rest

def normalCases : List (String × Message) → List (String × Message)
  | [] => []
  | (value, body) :: rest => (value, Message.normal body) :: normalCases rest

end

/-! ### Canonical spelling of options

A message is spelled canonically if normalizing finds nothing to replace. -/

mutual

/-- All plural options of the message, at every depth, are written in canonical spelling, that is,
the keys of their bodies are the ones of `Message.normal`. -/
def Message.Spelled : Message → Prop
  | ⟨_, _, _, replacements⟩ => spelledReplacements replacements

/-- All plural options of the replacements are written in canonical spelling. -/
def spelledReplacements : List Replacement → Prop
  | [] => True
  | r :: rest => Replacement.Spelled r ∧ spelledReplacements rest

/-- All plural options of the replacement are written in canonical spelling, see `Details.Spelled`.
-/
def Replacement.Spelled : Replacement → Prop
  | ⟨_, _, _, details⟩ => Details.Spelled details

/-- All plural options of the details are written in canonical spelling: a category by its name, a
number in decimal. -/
def Details.Spelled : Details → Prop
  | .none => True
  | .money _ => True
  | .plural _ variants custom => spelledCategories variants ∧ spelledNumbers custom
  | .select cases _ => spelledCases cases

/-- The categories, and all plural options of their bodies, are written in canonical spelling. -/
def spelledCategories : List (PluralCategory × Message) → Prop
  | [] => True
  | (category, body) :: rest =>
    body.key = category.name ∧ Message.Spelled body ∧ spelledCategories rest

def spelledNumbers : List (Int × Message) → Prop
  | [] => True
  | (n, body) :: rest =>
    body.key = Text.showInt n ∧ Message.Spelled body ∧ spelledNumbers rest

def spelledCases : List (String × Message) → Prop
  | [] => True
  | (_, body) :: rest => Message.Spelled body ∧ spelledCases rest

end

/-! ### Messages in canonical spelling

One induction over the three types. -/

mutual

/-- In canonical spelling (`Message.Spelled`) a message is in normal form. By recursion on the
message, with one lemma for each of its parts. -/
theorem Message.normal_eq_self : ∀ m : Message, m.Spelled → m.normal = m
  | ⟨sectionName, key, text, replacements⟩, h => by
    rw [Message.normal, normalReplacements_eq_self replacements h]

theorem normalReplacements_eq_self :
    ∀ rs : List Replacement, spelledReplacements rs → normalReplacements rs = rs
  | [], _ => by rw [normalReplacements]
  | r :: rest, h => by
    rw [normalReplacements, Replacement.normal_eq_self r h.1, normalReplacements_eq_self rest h.2]

/-- In canonical spelling a replacement is in normal form. -/
theorem Replacement.normal_eq_self : ∀ r : Replacement, r.Spelled → r.normal = r
  | ⟨key, textPos, kind, details⟩, h => by
    rw [Replacement.normal, Details.normal_eq_self details h]

/-- In canonical spelling details are in normal form. -/
theorem Details.normal_eq_self : ∀ d : Details, d.Spelled → d.normal = d
  | .none, _ => by rw [Details.normal]
  | .money _, _ => by rw [Details.normal]
  | .plural type variants custom, h => by
    rw [Details.normal, normalCategories_eq_self variants h.1, normalNumbers_eq_self custom h.2]
  | .select cases fallback, h => by rw [Details.normal, normalCases_eq_self cases h]

theorem normalCategories_eq_self :
    ∀ es : List (PluralCategory × Message), spelledCategories es → normalCategories es = es
  | [], _ => by rw [normalCategories]
  | (category, ⟨sectionName, key, text, replacements⟩) :: rest, h => by
    obtain ⟨hkey, hbody, hrest⟩ := h
    rw [normalCategories, Message.normal_eq_self _ hbody, normalCategories_eq_self rest hrest,
      ← hkey]
    rfl

theorem normalNumbers_eq_self :
    ∀ es : List (Int × Message), spelledNumbers es → normalNumbers es = es
  | [], _ => by rw [normalNumbers]
  | (n, ⟨sectionName, key, text, replacements⟩) :: rest, h => by
    obtain ⟨hkey, hbody, hrest⟩ := h
    rw [normalNumbers, Message.normal_eq_self _ hbody, normalNumbers_eq_self rest hrest, ← hkey]
    rfl

theorem normalCases_eq_self : ∀ es : List (String × Message), spelledCases es → normalCases es = es
  | [], _ => by rw [normalCases]
  | (value, body) :: rest, h => by
    rw [normalCases, Message.normal_eq_self body h.1, normalCases_eq_self rest h.2]

end

/-! ### Canonical form

In canonical form an option is written by its category, number or case, never by the key of its
body. -/

/-- The canonical form of a body does not show its key, which is why `Message.normal` can change it.
-/
theorem Message.canonical_withKey (m : Message) (key : String) :
    (m.withKey key).canonical = m.canonical := by
  obtain ⟨sectionName, key', text, replacements⟩ := m
  rw [Message.canonical, withKey, Message.canonical]

mutual

/-- A message and its normal form have the same canonical form. So what is read back from
`Message.canonical` can be no more than the normal form. -/
theorem Message.canonical_normal : ∀ m : Message, m.normal.canonical = m.canonical
  | ⟨sectionName, key, text, replacements⟩ => by
    rw [Message.normal, Message.canonical, Message.canonical, canonicalMarks_normal replacements]

/-- Replacements are written as their normal forms are. -/
theorem canonicalMarks_normal :
    ∀ rs : List Replacement, canonicalMarks (normalReplacements rs) = canonicalMarks rs
  | [] => by rw [normalReplacements]
  | ⟨key, textPos, kind, details⟩ :: rest => by
    rw [normalReplacements, canonicalMarks, canonicalMarks, canonicalMarks_normal rest,
      Replacement.canonical_normal]
    rw [Replacement.normal]

/-- A replacement is written (`Replacement.canonical`) as its normal form is, and so are its details
and their bodies. -/
theorem Replacement.canonical_normal : ∀ r : Replacement, r.normal.canonical = r.canonical
  | ⟨key, textPos, kind, details⟩ => by
    rw [Replacement.normal, Replacement.canonical, Replacement.canonical,
      Details.canonical_normal details]

theorem Details.canonical_normal : ∀ d : Details, d.normal.canonical = d.canonical
  | .none => by rw [Details.normal]
  | .money _ => by rw [Details.normal]
  | .plural type variants custom => by
    rw [Details.normal, Details.canonical, Details.canonical, canonicalNumbers_normal custom,
      canonicalCategories_normal variants]
  | .select cases fallback => by
    rw [Details.normal, Details.canonical, Details.canonical, canonicalCases_normal cases]

/-- Categories are written as their normal forms are. -/
theorem canonicalCategories_normal : ∀ es : List (PluralCategory × Message),
    canonicalCategories (normalCategories es) = canonicalCategories es
  | [] => by rw [normalCategories]
  | (category, body) :: rest => by
    rw [normalCategories, canonicalCategories, canonicalCategories, Message.canonical_withKey,
      Message.canonical_normal body, canonicalCategories_normal rest]

theorem canonicalNumbers_normal :
    ∀ es : List (Int × Message), canonicalNumbers (normalNumbers es) = canonicalNumbers es
  | [] => by rw [normalNumbers]
  | (n, body) :: rest => by
    rw [normalNumbers, canonicalNumbers, canonicalNumbers, Message.canonical_withKey,
      Message.canonical_normal body, canonicalNumbers_normal rest]

theorem canonicalCases_normal :
    ∀ es : List (String × Message), canonicalCases (normalCases es) = canonicalCases es
  | [] => by rw [normalCases]
  | (value, body) :: rest => by
    rw [normalCases, canonicalCases, canonicalCases, Message.canonical_normal body,
      canonicalCases_normal rest]

end

end MessageCatalog
