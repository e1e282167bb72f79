import MessageCatalog.Message
import MessageCatalog.Text.Blank

/-!
# MessageCatalog.Message.Build

Building a message piece by piece: text (`pushText`), replacements (`pushReplacement`), and in the
end the trimming of its text (`trimTrailing`).

Text is appended to the last segment unless a replacement stands behind it, so that two segments are
never adjacent. The list of replacements alone tells whether one does (`endsInReplacement`): the
last replacement knows how many segments there were when it came.

The operations read the last segment and the last replacement of any message, also of one whose
places make no sense. What they keep of a message that makes sense is proved in
`MessageCatalog.Proofs.Woven`; the lemmas here only say what they leave alone.
-/

namespace MessageCatalog.Message

/-- The message has no replacements. -/
def isPlain (m : Message) : Bool := m.replacements.isEmpty

/-- All text segments joined. For a message without replacements (`isPlain`) this is its whole text.
-/
def plainText (m : Message) : String := String.join m.text

/-- The message has any content, be it text or a replacement. -/
def hasContent (m : Message) : Bool := !m.text.isEmpty || !m.replacements.isEmpty

/-- The last replacement stands behind all the text: its `textPos` is the number of segments. -/
def endsInReplacement (m : Message) : Bool :=
  match m.replacements.getLast? with
  | some r => m.text.length ≤ r.textPos
  | none => false

/-- Appends text: to the last segment, or as a segment of its own behind a replacement
(`endsInReplacement`). -/
def pushText (m : Message) (t : String) : Message :=
  match m.text.getLast? with
  | some last =>
    -- text behind a replacement must not run into the text in front of it
    if m.endsInReplacement then { m with text := m.text ++ [t] }
    else { m with text := m.text.dropLast ++ [last ++ t] }
  | none => { m with text := [t] }

/-- Appends a replacement behind all the text. -/
def pushReplacement (m : Message) (key : String) (kind : ReplacementKind) (details : Details) :
    Message :=
  { m with replacements := m.replacements ++ [{ key, textPos := m.text.length, kind, details }] }

/-- Trims the text behind the last replacement at its end (`Text.trimEnd`). A segment that becomes
empty goes. -/
def trimTrailing (m : Message) : Message :=
  if m.endsInReplacement then m
  else
    match m.text.getLast? with
    | some last =>
      let trimmed := Text.trimEnd last
      -- nothing is left of blanks that stand behind the last replacement
      if trimmed.isEmpty then { m with text := m.text.dropLast }
      else { m with text := m.text.dropLast ++ [trimmed] }
    | none => m

/-! ### What building leaves alone

The section and the key of a message never change while it is built, and text does not touch its
replacements. -/

@[simp] theorem key_pushText (m : Message) (t : String) : (m.pushText t).key = m.key := by
  unfold pushText
  split
  · split <;> rfl
  · rfl

@[simp] theorem sectionName_pushText (m : Message) (t : String) :
    (m.pushText t).sectionName = m.sectionName := by
  unfold pushText
  split
  · split <;> rfl
  · rfl

@[simp] theorem replacements_pushText (m : Message) (t : String) :
    (m.pushText t).replacements = m.replacements := by
  unfold pushText
  split
  · split <;> rfl
  · rfl

@[simp] theorem key_trimTrailing (m : Message) : m.trimTrailing.key = m.key := by
  unfold trimTrailing
  split
  · rfl
  · split
    · dsimp only
      split <;> rfl
    · rfl

@[simp] theorem sectionName_trimTrailing (m : Message) :
    m.trimTrailing.sectionName = m.sectionName := by
  unfold trimTrailing
  split
  · rfl
  · split
    · dsimp only
      split <;> rfl
    · rfl

@[simp] theorem replacements_trimTrailing (m : Message) :
    m.trimTrailing.replacements = m.replacements := by
  unfold trimTrailing
  split
  · rfl
  · split
    · dsimp only
      split <;> rfl
    · rfl

end MessageCatalog.Message
