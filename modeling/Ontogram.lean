import Ontogram.Main
import Ontogram.Service.EventStream
import Ontogram.Proofs.NameExpansion
import Ontogram.Proofs.Rules
import Ontogram.Proofs.Derivation
import Ontogram.Proofs.Acceptance
import Ontogram.Proofs.Views
import Ontogram.Proofs.Escaping
import Ontogram.Proofs.LanguageTag
import Ontogram.Proofs.LineSpelling
import Ontogram.Proofs.FlatText
import Ontogram.Proofs.LineWeight
import Ontogram.Proofs.Rereading
import Ontogram.Proofs.Reordering
import Ontogram.Proofs.Announcements
import Ontogram.Proofs.AtomicUpdate
import Ontogram.Proofs.DepthFirst
import Ontogram.Proofs.StoreHistories
import Ontogram.Proofs.ChainNumbers
import Ontogram.Proofs.BlockEntries
import Ontogram.Proofs.KeyOrder
import Ontogram.Proofs.Timeline
import Ontogram.Proofs.Restart
import Ontogram.Proofs.Separation
import Ontogram.Proofs.WakeUps
import Ontogram.Proofs.DocumentSchema
import Ontogram.Proofs.BlockOrder
import Ontogram.Proofs.RefusedViews
import Ontogram.Proofs.ListChains
import Ontogram.Proofs.PrimaryKeys
import Ontogram.Proofs.IgnoredElements
import Ontogram.Proofs.RawFailures
import Ontogram.Proofs.BareTokens
import Ontogram.Proofs.QuotedLiterals
import Ontogram.Proofs.WrittenLabels
import Ontogram.Proofs.DocumentModel
import Ontogram.Proofs.HistoryBounds
import Ontogram.Proofs.IndependentLines
import Ontogram.Proofs.NamespaceHeader
import Ontogram.Proofs.Precedence
import Ontogram.Proofs.LeastViolation
import Ontogram.Proofs.NameGrammar
import Ontogram.Proofs.WordWrapping
