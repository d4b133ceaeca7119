import SqlCode.Proofs.ResultContract
import SqlCode.Proofs.Sharing
import SqlCode.Proofs.FreshNames
import SqlCode.Proofs.SequenceDraws
import SqlCode.Proofs.DateComparison
import SqlCode.Proofs.FloatExtremes
import SqlCode.Proofs.BitFolds
import SqlCode.Proofs.GroupingMask
import SqlCode.Proofs.ExtractedParts
import SqlCode.Proofs.ZonedTimestamps
import SqlCode.Proofs.TextCasts
import SqlCode.Proofs.EpochSeconds
import SqlCode.Proofs.InstantArithmetic
import SqlCode.Proofs.BagAlgebra
import SqlCode.Proofs.Trichotomy
import SqlCode.Proofs.PathTexts
import SqlCode.Proofs.JsonRemoval
import SqlCode.Proofs.JsonConversion
import SqlCode.Proofs.SimilarBrackets
import SqlCode.Proofs.JsonValueClauses
import SqlCode.Proofs.TextPositions
import SqlCode.Proofs.CommonTypes
import SqlCode.Proofs.NegatedTests
import SqlCode.Proofs.TensRounding
