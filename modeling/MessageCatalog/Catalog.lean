import MessageCatalog.Locale
import MessageCatalog.Message

/-!
# MessageCatalog.Catalog

The messages of one locale (`Catalog`). Where two messages have the same section and key, the first
is found (`Catalog.get?`); `MessageCatalog.Duplicate` warns of the others.
-/

namespace MessageCatalog

/-- The compiled messages of a locale, in the order of their sources and, within a source, in the
order of its text. -/
structure Catalog where
  locale : Locale
  messages : List Message

namespace Catalog

/-- The first message under a key of a section. The empty section name stands for no section. -/
def get? (c : Catalog) (sectionName key : String) : Option Message :=
  c.messages.find? fun m => m.sectionName = sectionName && m.key = key

end Catalog

end MessageCatalog
