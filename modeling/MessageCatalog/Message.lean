import MessageCatalog.Message.Keyword
import MessageCatalog.Entries

/-!
# MessageCatalog.Message

Messages (`Message`). A message is authored text with typed replacements between its segments; the
details of a replacement may hold further messages, one for each case it distinguishes. So the three
types are defined together.

Text and replacements are kept in two lists, and a replacement tells where it stands by the number
of segments in front of it (`Replacement.textPos`). Any numbers are possible: what they mean for a
message that was put together by hand is said in `MessageCatalog.Message.Render`, and what they are
in a message that was read or built, in `MessageCatalog.Proofs.Rendering` and
`MessageCatalog.Proofs.Interleaving`.

A message that is the body of an option has the name of the option as its key, and no section.

Equality of messages is decidable, by one function for each type that occurs in a message. They are
written out because no instance can be derived for nested types.
-/

namespace MessageCatalog

mutual

/-- A message: text segments, and replacements that each tell how many segments stand in front of
them. -/
structure Message where
  sectionName : String
  key : String
  text : List String
  replacements : List Replacement

/-- A replacement: a placeholder for a value, and how to format it. -/
structure Replacement where
  key : String
  textPos : Nat
  kind : ReplacementKind
  details : Details

/-- What a kind of replacement needs to know besides its key. The maps are `Entries`; here they are
plain lists, because a nested type has to be one that the recursion can see through. -/
inductive Details
  | none
  | money (currency : String)
  | plural (type : PluralType) (variants : List (PluralCategory × Message))
      (custom : List (Int × Message))
  | select (cases : List (String × Message)) (fallback : String)

end

/-! ### Equality is decidable

The recursion is structural, so equality of messages that are written out can be evaluated. -/

mutual

/-- Decides whether two messages are equal. -/
def Message.decEq : (a b : Message) → Decidable (a = b)
  | ⟨s, k, t, rs⟩, ⟨s', k', t', rs'⟩ =>
    match Replacement.decEqList rs rs' with
    | isTrue h => decidable_of_iff (s = s' ∧ k = k' ∧ t = t') (by simp [h])
    | isFalse h => isFalse (by simp [h])
termination_by structural a => a

/-- Decides whether two lists of replacements are equal. -/
def Replacement.decEqList : (as bs : List Replacement) → Decidable (as = bs)
  | [], [] => isTrue rfl
  | [], _ :: _ => isFalse (by simp)
  | _ :: _, [] => isFalse (by simp)
  | a :: as, b :: bs =>
    match Replacement.decEq a b with
    | isTrue h =>
      match Replacement.decEqList as bs with
      | isTrue h' => isTrue (by rw [h, h'])
      | isFalse h' => isFalse (by simp [h'])
    | isFalse h => isFalse (by simp [h])
termination_by structural a => a

/-- Decides whether two replacements are equal. -/
def Replacement.decEq : (a b : Replacement) → Decidable (a = b)
  | ⟨k, p, kind, d⟩, ⟨k', p', kind', d'⟩ =>
    match Details.decEq d d' with
    | isTrue h => decidable_of_iff (k = k' ∧ p = p' ∧ kind = kind') (by simp [h])
    | isFalse h => isFalse (by simp [h])
termination_by structural a => a

/-- Decides whether two details are equal. -/
def Details.decEq : (a b : Details) → Decidable (a = b)
  | .none, .none => isTrue rfl
  | .none, .money _ | .none, .plural .. | .none, .select .. => isFalse (by simp)
  | .money c, .money c' => decidable_of_iff (c = c') (by simp)
  | .money _, .none | .money _, .plural .. | .money _, .select .. => isFalse (by simp)
  | .plural t v n, .plural t' v' n' =>
    match Details.decEqVariants v v', Details.decEqNumbers n n' with
    | isTrue h, isTrue h' => decidable_of_iff (t = t') (by simp [h, h'])
    | isFalse h, _ => isFalse (by simp [h])
    | _, isFalse h => isFalse (by simp [h])
  | .plural .., .none | .plural .., .money _ | .plural .., .select .. => isFalse (by simp)
  | .select c f, .select c' f' =>
    match Details.decEqCases c c' with
    | isTrue h => decidable_of_iff (f = f') (by simp [h])
    | isFalse h => isFalse (by simp [h])
  | .select .., .none | .select .., .money _ | .select .., .plural .. => isFalse (by simp)
termination_by structural a => a

/-- Decides whether two lists of plural variants are equal. -/
def Details.decEqVariants : (as bs : List (PluralCategory × Message)) → Decidable (as = bs)
  | [], [] => isTrue rfl
  | [], _ :: _ => isFalse (by simp)
  | _ :: _, [] => isFalse (by simp)
  | (k, a) :: as, (k', b) :: bs =>
    match Message.decEq a b, Details.decEqVariants as bs with
    | isTrue h, isTrue h' => decidable_of_iff (k = k') (by simp [h, h'])
    | isFalse h, _ => isFalse (by simp [h])
    | _, isFalse h => isFalse (by simp [h])
termination_by structural a => a

/-- Decides whether two lists of bodies for numbers are equal. -/
def Details.decEqNumbers : (as bs : List (Int × Message)) → Decidable (as = bs)
  | [], [] => isTrue rfl
  | [], _ :: _ => isFalse (by simp)
  | _ :: _, [] => isFalse (by simp)
  | (k, a) :: as, (k', b) :: bs =>
    match Message.decEq a b, Details.decEqNumbers as bs with
    | isTrue h, isTrue h' => decidable_of_iff (k = k') (by simp [h, h'])
    | isFalse h, _ => isFalse (by simp [h])
    | _, isFalse h => isFalse (by simp [h])
termination_by structural a => a

/-- Decides whether two lists of select cases are equal. -/
def Details.decEqCases : (as bs : List (String × Message)) → Decidable (as = bs)
  | [], [] => isTrue rfl
  | [], _ :: _ => isFalse (by simp)
  | _ :: _, [] => isFalse (by simp)
  | (k, a) :: as, (k', b) :: bs =>
    match Message.decEq a b, Details.decEqCases as bs with
    | isTrue h, isTrue h' => decidable_of_iff (k = k') (by simp [h, h'])
    | isFalse h, _ => isFalse (by simp [h])
    | _, isFalse h => isFalse (by simp [h])
termination_by structural a => a

end

instance : DecidableEq Message := Message.decEq

instance : DecidableEq Replacement := Replacement.decEq

instance : DecidableEq Details := Details.decEq

/-! ### Making messages

A message starts empty and is built piece by piece, see `MessageCatalog.Message.Build`. -/

/-- A message without any content, under the key `key` of a section. -/
def Message.empty (sectionName key : String) : Message :=
  { sectionName, key, text := [], replacements := [] }

end MessageCatalog
