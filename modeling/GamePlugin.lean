import GamePlugin.Main
import GamePlugin.Chunk.Next
import GamePlugin.Draft
import GamePlugin.Outline.Decode
import GamePlugin.Proofs.Chunks
import GamePlugin.Proofs.Forest
import GamePlugin.Proofs.Coverage
import GamePlugin.Proofs.Words
import GamePlugin.Proofs.Written
import GamePlugin.Proofs.FieldGrammar
import GamePlugin.Proofs.Readers
import GamePlugin.Proofs.Arena
import GamePlugin.Proofs.Contents
import GamePlugin.Proofs.Loading
import GamePlugin.Proofs.Completion
import GamePlugin.Proofs.Opening
import GamePlugin.Proofs.Agreement
import GamePlugin.Proofs.Tables
import GamePlugin.Proofs.Misfits
import GamePlugin.Proofs.Transport
import GamePlugin.Proofs.Offsets
import GamePlugin.Proofs.DisplayTexts
import GamePlugin.Proofs.Naturality
import GamePlugin.Proofs.Localization
import GamePlugin.Proofs.Operations
import GamePlugin.Proofs.Declined
import GamePlugin.Proofs.Descent
import GamePlugin.Proofs.Watermark
import GamePlugin.Proofs.Failure
import GamePlugin.Proofs.Representation
import GamePlugin.Proofs.Paths
import GamePlugin.Proofs.Recall
import GamePlugin.Proofs.Tally
import GamePlugin.Proofs.Lookup
import GamePlugin.Proofs.Answers
import GamePlugin.Proofs.Budget
import GamePlugin.Proofs.Lands
import GamePlugin.Proofs.Names
import GamePlugin.Proofs.Framing
import GamePlugin.Proofs.FlatFile
import GamePlugin.Proofs.CommitLog
import GamePlugin.Proofs.PassedOver
import GamePlugin.Proofs.Blindness
import GamePlugin.Proofs.TopGroups
import GamePlugin.Proofs.NullKeys
import GamePlugin.Proofs.WrittenFields
import GamePlugin.Proofs.Truncation
import GamePlugin.Proofs.CellReferences
import GamePlugin.Proofs.Termination
import GamePlugin.Proofs.Inflation
import GamePlugin.Proofs.Registered
import GamePlugin.Proofs.Obtained
import GamePlugin.Proofs.SizeLimit
import GamePlugin.Proofs.Series
import GamePlugin.Proofs.LatestElements
import GamePlugin.Proofs.Heights
import GamePlugin.Proofs.StoredText
import GamePlugin.Proofs.Histogram
import GamePlugin.Proofs.Confinement
import GamePlugin.Proofs.Headers
import GamePlugin.Proofs.GridKeys
