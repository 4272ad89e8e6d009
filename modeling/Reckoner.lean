import Reckoner.Expression.Tree
import Reckoner.Form.Records
import Reckoner.History.Call
import Reckoner.Main
import Reckoner.Proofs.LedgerJournal
import Reckoner.Proofs.PostfixForest
import Reckoner.Proofs.DeepPaths
import Reckoner.Proofs.DisplayEvaluation
import Reckoner.Proofs.LexemeSegments
import Reckoner.Proofs.ParenthesisCompletion
import Reckoner.Proofs.PostfixOrder
import Reckoner.Proofs.RunWrites
import Reckoner.Proofs.SessionDisplay
import Reckoner.Proofs.SessionView
import Reckoner.Proofs.SpelledTokens
import Reckoner.Session.Request
import Reckoner.Proofs.SourceLines
import Reckoner.Proofs.ArchiveSources
import Reckoner.Proofs.InputReadings
import Reckoner.Proofs.StepAgreement
import Reckoner.Proofs.FactorialProducts
import Reckoner.Proofs.StepText
import Reckoner.Proofs.ExpressionErrors
import Reckoner.Proofs.WaitingLayers
import Reckoner.Proofs.FunctionDomains
import Reckoner.Proofs.SeriesLength
import Reckoner.Proofs.VerbatimArguments
import Reckoner.Proofs.DisplayedOperands
