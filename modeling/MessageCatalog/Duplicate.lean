import MessageCatalog.Message
import MessageCatalog.Text.Quoted

/-!
# MessageCatalog.Duplicate

Messages that share their section and key with an earlier one. A pair is warned about once, where it
occurs for the second time, however often it occurs after that.

What has occurred is kept in a register, a map of maps (`Register`), and the list of messages is
gone through once (`dueAfter`). That the outcome is the repeated addresses in the order of their
second occurrences, each once, is proved in `MessageCatalog.Proofs.Duplicates`; which messages of a
catalog cannot be found for that reason, in `MessageCatalog.Proofs.Shadowing`.
-/

namespace MessageCatalog

namespace Message

/-- What identifies a message in a catalog: its section and its key. -/
def address (m : Message) : String × String := (m.sectionName, m.key)

end Message

namespace Duplicate

/-- The keys that have occurred in each section. A key has `true` once it has been warned about. -/
abbrev Register := Entries String (Entries String Bool)

/-- Enters an address, and tells whether a warning about it is due: it has occurred before, and has
not been warned about. Nothing is entered about any other address. -/
def Register.enter (r : Register) (address : String × String) : Register × Bool :=
  let keys := (r.find? address.1).getD []
  match keys.find? address.2 with
  | none => (r.set address.1 (keys.set address.2 false), false)
  | some false => (r.set address.1 (keys.set address.2 true), true)
  | some true => (r, false)

/-- The addresses of a list that are to be warned about, in order, where those in the register have
occurred before. -/
def dueAfter (r : Register) : List (String × String) → List (String × String)
  | [] => []
  | address :: rest =>
    let (r, due) := r.enter address
    if due then address :: dueAfter r rest else dueAfter r rest

/-- The addresses that more than one message has, in the order of their second occurrences. -/
def addresses (messages : List Message) : List (String × String) :=
  dueAfter [] (messages.map Message.address)

/-- The warning about an address. The section is named if there is one. -/
def warning (address : String × String) : String :=
  let message := "duplicate message key " ++ Text.quote address.2
  if address.1.isEmpty then message else message ++ " for section " ++ Text.quote address.1

/-- The warnings about a list of messages, one for each of its `addresses`. -/
def warnings (messages : List Message) : List String := (addresses messages).map warning

end Duplicate

end MessageCatalog
