import MessageCatalog.Message

/-!
# MessageCatalog.Message.Render

Reading order. The segments and replacements of a message are woven into one sequence
(`Message.pieces`): a replacement comes once at least as many segments as it asks for are out, or
all of them.

Weaving is defined for marks of any kind (`Message.weave`), so that the canonical form of a message
can weave in texts and rendering can weave in replacements. It is total: a place beyond the last
segment means the end, and one that has been passed means that the mark comes at once.

Rendering asks a resolver for the text of each replacement (`Message.renderM`), in any monad, so the
resolver may have effects and may fail; `Message.render` is the pure case.

Nothing gets lost on the way: the segments and the marks both come out complete and in their order
(`filterMap_getLeft?_weave`, `filterMap_getRight?_weave`), whatever the places are.
-/

namespace MessageCatalog.Message

/-- Weaves marks into text segments. A mark names the number of segments in front of it, counted
from the start of the text, of which `passed` are already out. -/
def weave {α : Type} (passed : Nat) (segments : List String) :
    List (Nat × α) → List (String ⊕ α)
  | [] => segments.map .inl
  | (place, mark) :: marks =>
    -- a place that has been passed gives zero here, so the mark comes at once
    (segments.take (place - passed)).map .inl ++
      .inr mark :: weave (max passed place) (segments.drop (place - passed)) marks

/-- The segments and replacements of a message in reading order. -/
def pieces (m : Message) : List (String ⊕ Replacement) :=
  weave 0 m.text (m.replacements.map fun r => (r.textPos, r))

/-- Renders a message; `resolve` is asked once for each replacement, in reading order, and the first
failure ends the rendering. -/
def renderM {μ : Type → Type} [Monad μ] (resolve : Replacement → μ String) (m : Message) :
    μ String := do
  let parts ← m.pieces.mapM fun
    | .inl text => pure text
    | .inr r => resolve r
  return String.join parts

/-- The text of a piece that may be given as it is. -/
def flatten : String ⊕ String → String
  | .inl text => text
  | .inr text => text

/-- Renders a message with a text for each replacement: `renderM` without effects. -/
def render (resolve : Replacement → String) (m : Message) : String :=
  String.join (m.pieces.map fun
    | .inl text => text
    | .inr r => resolve r)

/-! ### Weaving loses nothing

By induction on the marks, for any number of segments that are already out: each mark hands out a
prefix of the segments and leaves the rest to the marks behind it. -/

/-- The segments come out of `weave` complete and in order. -/
theorem filterMap_getLeft?_weave {α : Type} (marks : List (Nat × α)) :
    ∀ (passed : Nat) (segments : List String),
      (weave passed segments marks).filterMap Sum.getLeft? = segments := by
  have hleft (xs : List String) :
      (xs.map (Sum.inl : String → String ⊕ α)).filterMap Sum.getLeft? = xs := by
    simp [List.filterMap_map, Function.comp_def]
  induction marks with
  | nil => intro passed segments; exact hleft segments
  | cons mark marks ih =>
    intro passed segments
    rw [weave, List.filterMap_append, hleft, List.filterMap_cons_none rfl, ih,
      List.take_append_drop]

/-- The marks come out of `weave` complete and in order. -/
theorem filterMap_getRight?_weave {α : Type} (marks : List (Nat × α)) :
    ∀ (passed : Nat) (segments : List String),
      (weave passed segments marks).filterMap Sum.getRight? = marks.map Prod.snd := by
  have hleft (xs : List String) :
      (xs.map (Sum.inl : String → String ⊕ α)).filterMap Sum.getRight? = [] := by
    simp [List.filterMap_map, Function.comp_def]
  induction marks with
  | nil => intro passed segments; exact hleft segments
  | cons mark marks ih =>
    intro passed segments
    rw [weave, List.filterMap_append, hleft]
    simp [ih]

end MessageCatalog.Message
