import MessageCatalog.Details.Draft
import MessageCatalog.Event
import MessageCatalog.Token.Scanner

/-!
# MessageCatalog.Reading

Reading messages out of a stream of tokens. The reader is a pushdown machine that takes one token at
a time: it holds the innermost construct that is open, a message body or a replacement, and the
frames of those around it (`Focus`). A token that does not belong to the innermost construct closes
it, and so on outwards, until it reaches one to which it belongs; between messages everything
belongs.

A step (`Reader.step`) so has two parts. `Reader.makeRoom` closes what is open until the innermost
construct takes the token, and `Reader.take` takes it. Which kinds of tokens a construct takes is
said by `Reader.bodyTakes` and `OpenReplacement.takes`; its own closing brace is among them.

Any stream of tokens can be read. What is missing is reported, except after an invalid token, which
is a report of its own: from there to the next section header or message key the reader is silent
about the shape of the stream (`Report.addShape`). Errors in what is said, such as an option that is
repeated, are reported all the same.

What a stream of tokens leads to is proved from the steps: the form of the messages in
`MessageCatalog.Proofs.Stream` and `MessageCatalog.Proofs.Interleaving`, the completeness of
replacements in `MessageCatalog.Proofs.Completeness`, the reports in
`MessageCatalog.Proofs.Agreement`.
-/

namespace MessageCatalog

/-- A replacement that is being read, with the place of its first token and the number of text
segments in front of it. `kind` is none if its type is not known. -/
structure OpenReplacement where
  key : String
  pos : Position
  textPos : Nat
  kind : Option ReplacementKind := some .string
  draft : Draft := .none
  /-- Nothing but the key has been read. -/
  fresh : Bool := true

/-- The surroundings of an option body: the option with its place, its replacement, and the body
that holds the replacement. -/
structure Frame where
  name : OptionName
  pos : Position
  replacement : OpenReplacement
  outer : Message

/-- Where the reader is, with the frames from the inside out. The body in hand is not among the
`Frame`s: a frame holds what lies around it. -/
inductive Focus
  /-- Between messages. -/
  | idle
  /-- In a body: that of a message if there are no frames, else of an option. -/
  | body (message : Message) (frames : List Frame)
  /-- In a replacement of the body `message`. -/
  | replacement (current : OpenReplacement) (message : Message) (frames : List Frame)

/-! ### Reports

Everything that is reported goes through `Report`, in the order in which it is found. There are two
ways to add an error: `add` for errors that count always, `addShape` for those that an invalid token
makes doubtful. -/

/-- What has been reported so far: errors, each a `Diagnostic`, and `Event`s for whoever watches. -/
structure Report where
  errors : List Diagnostic := []
  events : List Event := []
  /-- An invalid token has come since the last section header or message key. -/
  recovering : Bool := false

namespace Report

/-- Adds errors. -/
def addAll (r : Report) (errors : List Diagnostic) : Report :=
  { r with errors := r.errors ++ errors }

/-- Adds an error. -/
def add (r : Report) (cause : Cause) (pos : Position) : Report := r.addAll [⟨cause, pos⟩]

/-- Adds an error about the shape of the stream, unless an invalid token has made it doubtful
(`recovering`). -/
def addShape (r : Report) (cause : Cause) (pos : Position) : Report :=
  if r.recovering then r else r.add cause pos

/-- Adds an event. -/
def note (r : Report) (event : Event) : Report := { r with events := r.events ++ [event] }

end Report

/-- What stands where something else was expected, in the words of a report (`Token.describe`, or
the end of the file), and where it stands. -/
structure Found where
  what : String
  pos : Position

/-! ### Closing what is open

A construct is closed by its brace, or because the next token does not belong to it. In both ways an
option is handed to its replacement (`Frame.close`) and a replacement is attached to the body that
holds it (`attach`). Without the brace that is an error of shape, one for each construct that is
closed. -/

namespace OpenReplacement

/-- Takes an option whose body is complete. Where options have no meaning, this is noted
(`Event.optionIgnored`); else what is wrong with it is reported at the option. -/
def addOption (r : OpenReplacement) (option : ReplacementOption) (report : Report) :
    OpenReplacement × Report :=
  match r.draft with
  | .none => (r, report.note (.optionIgnored option.pos))
  | draft =>
    let (draft, cause) := draft.add option
    ({ r with draft }, report.addAll (cause.toList.map (⟨·, option.pos⟩)))

/-- The outcome when everything still open has been closed: the same `makeRoom`, for no token at
all. -/
def finish (r : OpenReplacement) (last : Position) : Option Replacement × List Diagnostic :=
  let (details, errors) := r.draft.finish r.pos last
  (r.kind.map fun kind => { key := r.key, textPos := r.textPos, kind, details }, errors)

/-- The kinds of tokens that belong to the replacement. A type belongs to it only behind the key,
while it is `fresh`. -/
def takes (r : OpenReplacement) : Token.Kind → Bool
  | .replacementType => r.fresh
  | .optionStart | .replacementEnd => true
  | _ => false

end OpenReplacement

namespace Frame

/-- Closes the option with its body, of which trailing blanks are dropped (`Message.trimTrailing`).
-/
def close (f : Frame) (body : Message) (report : Report) : OpenReplacement × Report :=
  f.replacement.addOption { name := f.name, pos := f.pos, body := body.trimTrailing } report

end Frame

namespace Reader

/-- The kinds of tokens that belong to a body. An option body also takes its closing brace. -/
def bodyTakes (frames : List Frame) : Token.Kind → Bool
  | .messageNewline | .messageText | .replacementStart => true
  | .optionEnd => !frames.isEmpty
  | _ => false

/-- The body with a replacement behind it. A replacement whose type is not known is `none` here, and
is dropped. -/
def attach (body : Message) (r : Option Replacement) : Message :=
  { body with replacements := body.replacements ++ r.toList }

/-- Closes a replacement without its brace, which is an error about what was `found` instead. -/
def closeReplacement (last : Position) (r : OpenReplacement) (body : Message) (found : Found)
    (report : Report) : Message × Report :=
  let (replacement, errors) := r.finish last
  (attach body replacement,
    (report.addAll errors).addShape (.replacementClosing found.what) found.pos)

/-- Closes bodies from the inside out until one of them, or a replacement on the way, takes the
next token; at the end of the stream nothing does. The message is given if it is closed too. The
last token that has been taken, none of those that are unwound here, stands at `last`. -/
def unwindBody (last : Position) (kind : Option Token.Kind) (found : Found) (body : Message)
    (report : Report) : List Frame → Focus × Option Message × Report
  | [] =>
    if kind.any (bodyTakes []) then (.body body [], none, report)
    else (.idle, some body.trimTrailing, report)
  | frame :: frames =>
    if kind.any (bodyTakes (frame :: frames)) then (.body body (frame :: frames), none, report)
    else
      -- the option is closed without its brace, and then perhaps the replacement around it
      let (r, report) :=
        frame.close body (report.addShape (.optionClosing found.what) found.pos)
      if kind.any r.takes then (.replacement r frame.outer frames, none, report)
      else
        let (outer, report) := closeReplacement last r frame.outer found report
        unwindBody last kind found outer report frames

/-- Closes what is open until the next token belongs to the innermost construct, which `takes` and
`bodyTakes` decide. What comes out is the new focus, and the message if its body was closed too. -/
def unwind (last : Position) (kind : Option Token.Kind) (found : Found) (report : Report) :
    Focus → Focus × Option Message × Report
  | .idle => (.idle, none, report)
  | .body body frames => unwindBody last kind found body report frames
  | .replacement r body frames =>
    if kind.any r.takes then (.replacement r body frames, none, report)
    else
      let (body, report) := closeReplacement last r body found report
      unwindBody last kind found body report frames

end Reader

/-! ### The reader

The state is a `Focus` and what has been gathered around it. One function for each focus takes a
token (`takeIdle`, `takeBody`, `takeReplacement`). The last two are asked only for tokens that
belong, and would leave the state as it is for any other; between messages, where everything
belongs, a token that starts nothing is an error. -/

/-- The state of a reader: where it is, the section it is in, the finished messages, what has been
reported, and the position of the last token. -/
structure Reader where
  focus : Focus := .idle
  sectionName : String := ""
  messages : List Message := []
  report : Report := {}
  lastPos : Position := {}

/-- The outcome of reading: the messages, also of a faulty file, and what has been reported. -/
structure Parsed where
  messages : List Message
  errors : List Diagnostic
  events : List Event := []

namespace Parsed

/-- There are no errors. -/
def ok (p : Parsed) : Bool := p.errors.isEmpty

/-- The messages of a file without errors, or the errors. -/
def toExcept (p : Parsed) : Except (List Diagnostic) (List Message) :=
  if p.errors.isEmpty then .ok p.messages else .error p.errors

end Parsed

namespace Reader

/-- Makes sure that the next token belongs to the innermost construct (`unwind`). A message that is
closed on the way is finished. -/
def makeRoom (s : Reader) (kind : Option Token.Kind) (found : Found) : Reader :=
  let (focus, finished, report) := unwind s.lastPos kind found s.report s.focus
  { s with focus, messages := s.messages ++ finished.toList, report }

/-- Takes a token between messages. A section header or a message key ends the silence behind an
invalid token. -/
def takeIdle (s : Reader) (t : Token) : Reader :=
  match t.kind with
  | .sectionHeader =>
    { s with sectionName := t.text, report := { s.report with recovering := false } }
  | .messageKey =>
    { s with
      focus := .body (.empty s.sectionName t.text) [],
      report := { s.report.note (.messageStarted t.pos t.text) with recovering := false } }
  | _ => { s with report := s.report.addShape (.unexpectedToken t.describe) t.pos }

/-- Takes a token in a body. A line break is a blank between two pieces of content, and nothing
where the body is still empty. -/
def takeBody (s : Reader) (t : Token) (body : Message) (frames : List Frame) : Reader :=
  match t.kind, frames with
  | .messageNewline, _ =>
    { s with focus := .body (if body.hasContent then body.pushText " " else body) frames }
  | .messageText, _ => { s with focus := .body (body.pushText t.text) frames }
  | .replacementStart, _ =>
    { s with
      focus := .replacement { key := t.text, pos := t.pos, textPos := body.text.length } body
        frames }
  | .optionEnd, frame :: frames =>
    let (r, report) := frame.close body s.report
    { s with focus := .replacement r frame.outer frames, report }
  | _, _ => s

/-- Takes a token in a replacement: a type, an option, whose body is read next, or the closing
brace. -/
def takeReplacement (s : Reader) (t : Token) (r : OpenReplacement) (body : Message)
    (frames : List Frame) : Reader :=
  match t.kind with
  | .replacementType =>
    match ReplacementKind.ofName? t.text with
    | some kind =>
      { s with
        focus := .replacement { r with kind := some kind, draft := .ofKind kind, fresh := false }
          body frames }
    -- the options of an unknown type are read like those of a type without any
    | none =>
      { s with
        focus := .replacement { r with kind := none, draft := .none, fresh := false } body frames,
        report := s.report.add (.invalidType t.text) t.pos }
  | .optionStart =>
    let name := OptionName.ofText t.text
    let frame : Frame :=
      { name, pos := t.pos, replacement := { r with fresh := false }, outer := body }
    { s with focus := .body (.empty "" name.key) (frame :: frames) }
  | .replacementEnd =>
    let (replacement, errors) := r.finish s.lastPos
    { s with focus := .body (attach body replacement) frames, report := s.report.addAll errors }
  | _ => s

/-- Takes a token that belongs to the innermost construct: `makeRoom` has closed whatever it does
not belong to. -/
def take (s : Reader) (t : Token) : Reader :=
  match s.focus with
  | .idle => s.takeIdle t
  | .body body frames => s.takeBody t body frames
  | .replacement r body frames => s.takeReplacement t r body frames

/-- Takes an invalid token: a report to pass on, behind which errors of shape are not reported
(`recovering`). -/
def takeInvalid (s : Reader) (t : Token) : Reader :=
  let report := if t.aborts then s.report.note (.scanAborted t.pos t.text) else s.report
  { s with report := { report.add (.reported t.text) t.pos with recovering := true } }

/-- One token: room is made for it (`makeRoom`), and it is taken. An invalid token closes nothing
and is not counted as the last one. -/
def step (s : Reader) (t : Token) : Reader :=
  if t.kind = .invalid then s.takeInvalid t
  -- constructs closed on the way still see the position of the token before this one
  else { (s.makeRoom (some t.kind) ⟨t.describe, t.pos⟩).take t with lastPos := t.pos }

/-- The outcome when everything still open has been closed. -/
def finish (s : Reader) (found : Found) : Parsed :=
  let s := s.makeRoom none found
  { messages := s.messages, errors := s.report.errors, events := s.report.events }

/-- Reads the rest of a stream, up to the first end-of-file token or the end of the stream. What
stands behind an end-of-file token is not looked at. -/
def run (s : Reader) : List Token → Parsed
  | [] => s.finish ⟨"end of file", s.lastPos⟩
  | t :: rest => if t.kind = .eof then s.finish ⟨t.describe, t.pos⟩ else run (s.step t) rest

end Reader

/-- Reads the messages of a stream of tokens, by `Reader.run` from a reader that has seen nothing.
-/
def readTokens (stream : List Token) : Parsed := Reader.run {} stream

/-- Parses a message file: reads the stream of its tokens (`tokens`). -/
def parse (file : String) (bytes : List UInt8) : Parsed := readTokens (tokens file bytes)

end MessageCatalog
