import MessageCatalog.Main
import MessageCatalog.Proofs.Words
import MessageCatalog.Proofs.Moves
import MessageCatalog.Proofs.Stream
import MessageCatalog.Proofs.Agreement
import MessageCatalog.Proofs.Grammar
import MessageCatalog.Proofs.Acceptance
import MessageCatalog.Proofs.Place
import MessageCatalog.Proofs.Relocation
import MessageCatalog.Proofs.Locality
import MessageCatalog.Proofs.Normal
import MessageCatalog.Proofs.Sound
import MessageCatalog.Proofs.Passage
import MessageCatalog.Proofs.Rereading
import MessageCatalog.Proofs.RoundTrip
import MessageCatalog.Proofs.Woven
import MessageCatalog.Proofs.Conservation
import MessageCatalog.Proofs.LineEndings
import MessageCatalog.Proofs.TextDump
import MessageCatalog.Proofs.Changes
import MessageCatalog.Proofs.Interleaving
import MessageCatalog.Proofs.Completeness
import MessageCatalog.Proofs.Offsets
import MessageCatalog.Proofs.Reachable
import MessageCatalog.Proofs.Sites
import MessageCatalog.Proofs.Succession
import MessageCatalog.Proofs.Lookout
import MessageCatalog.Proofs.FileNames
import MessageCatalog.Proofs.Duplicates
import MessageCatalog.Proofs.Compilation
import MessageCatalog.Proofs.Outcome
import MessageCatalog.Proofs.Sweep
import MessageCatalog.Proofs.FaultLines
import MessageCatalog.Proofs.Vigilance
import MessageCatalog.Proofs.Rendering
import MessageCatalog.Proofs.Options
import MessageCatalog.Proofs.PluralOptions
import MessageCatalog.Proofs.SelectOptions
import MessageCatalog.Proofs.Quoting
import MessageCatalog.Proofs.JsonDump
import MessageCatalog.Proofs.Shadowing
import MessageCatalog.Proofs.Tags
import MessageCatalog.Proofs.Decoding
