import ObjectIds.Main
import ObjectIds.Proofs.BlankedText
import ObjectIds.Proofs.CheckedSymbols
import ObjectIds.Proofs.ConditionalBlocks
import ObjectIds.Proofs.ConditionalFrames
import ObjectIds.Proofs.DeclarationSites
import ObjectIds.Proofs.IssueSites
import ObjectIds.Proofs.LexedText
import ObjectIds.Proofs.LexemeLocations
import ObjectIds.Proofs.PrintedDeclarations
import ObjectIds.Proofs.RecoveryNotes
import ObjectIds.Proofs.HeaderSteps
import ObjectIds.Proofs.JoinedSources
import ObjectIds.Proofs.QuotedTokens
import ObjectIds.Proofs.ExclusiveBranches
import ObjectIds.Proofs.Lookahead
import ObjectIds.TokenStream.Scan
import ObjectIds.Proofs.ResumedScans
import ObjectIds.Proofs.ForwardProgress
import ObjectIds.Proofs.RangeCapacity
import ObjectIds.Proofs.WarningThreshold
import ObjectIds.Proofs.RemainingIds
import ObjectIds.Proofs.RecordedIds
import ObjectIds.Proofs.ReportLabels
import ObjectIds.Proofs.AppDiscovery
import ObjectIds.Proofs.ListedFiles
import ObjectIds.Proofs.SourceEdits
import ObjectIds.Proofs.IntegerThreshold
import ObjectIds.Proofs.HeaderGrammar
import ObjectIds.Proofs.SkippedBodies
import ObjectIds.Proofs.LineEndings
import ObjectIds.Proofs.LineBreaks
import ObjectIds.Proofs.TrailingComments
import ObjectIds.Proofs.UnmatchedLines
import ObjectIds.Proofs.ListingOrder
import ObjectIds.Proofs.SpacedTokens
import ObjectIds.Proofs.ListedLines
import ObjectIds.Proofs.ManifestTexts
import ObjectIds.Proofs.DirectiveLines
import ObjectIds.Proofs.CursorRuns
