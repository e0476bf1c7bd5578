import MessageCatalog.Text.LetterCase
import MessageCatalog.Json.Reader
import MessageCatalog.Store.Scenario
import MessageCatalog.Proofs.Merge.LastDefiner
import MessageCatalog.Proofs.Merge.Order
import MessageCatalog.Proofs.Merge.Grouping
import MessageCatalog.Proofs.Merge.Compatible
import MessageCatalog.Proofs.Store.Dispatcher
import MessageCatalog.Proofs.Store.Ledger
import MessageCatalog.Proofs.Store.RunToCompletion
import MessageCatalog.Proofs.Store.PanicRecovery
import MessageCatalog.Proofs.Store.FlatLoop
import MessageCatalog.Proofs.Json.CompactText
import MessageCatalog.Proofs.Tree.Image
import MessageCatalog.Proofs.Merge.Snapshot
import MessageCatalog.Proofs.Store.Coherence
import MessageCatalog.Proofs.Store.DirectRound
import MessageCatalog.Proofs.Key.Grammar
import MessageCatalog.Proofs.Merge.KeyOrder
import MessageCatalog.Proofs.Key.Resolution
import MessageCatalog.Proofs.Store.Session
import MessageCatalog.Proofs.Files.Listing
import MessageCatalog.Proofs.Files.Walk
import MessageCatalog.Proofs.Files.Loading
import MessageCatalog.Proofs.Translation.FallbackChain
import MessageCatalog.Proofs.Translation.ForeignLocales
import MessageCatalog.Proofs.Template.Filling
import MessageCatalog.Proofs.Key.Printing
import MessageCatalog.Proofs.Tree.FaultPath
import MessageCatalog.Proofs.Store.Initialization
import MessageCatalog.Proofs.Tree.RoundTrip
import MessageCatalog.Proofs.Plural.Selection
import MessageCatalog.Proofs.Locale.PrimaryLanguage
import MessageCatalog.Proofs.Text.Title
