import Ibm704.Command.World
import Ibm704.Main
import Ibm704.Word.Accumulator
import Ibm704.Proofs.FirstPass
import Ibm704.Proofs.SecondPass
import Ibm704.Proofs.Assembly
import Ibm704.Proofs.FinalSymbols
import Ibm704.Proofs.Layout
import Ibm704.Proofs.Labels
import Ibm704.Proofs.StoredWords
import Ibm704.Proofs.ImageRoundTrip
import Ibm704.Proofs.Segments
import Ibm704.Proofs.Loading
import Ibm704.Proofs.CoreWords
import Ibm704.Proofs.Reports
import Ibm704.Proofs.UndefinedSymbols
import Ibm704.Proofs.SegmentBounds
import Ibm704.Proofs.NearestTemplate
import Ibm704.Proofs.Disassembly
import Ibm704.Proofs.Reassembly
import Ibm704.Proofs.Unfailing
import Ibm704.Proofs.Misses
import Ibm704.Proofs.Anchor
import Ibm704.Proofs.AnchoredLabels
import Ibm704.Proofs.SegmentsInOrder
import Ibm704.Proofs.IdleCards
import Ibm704.Proofs.SourceLines
import Ibm704.Proofs.InertCards
import Ibm704.Proofs.CardLayouts
import Ibm704.Proofs.OperandGrammar
import Ibm704.Proofs.OperandTokens
import Ibm704.Proofs.OperandLanguage
import Ibm704.Proofs.ExactValue
import Ibm704.Proofs.WrittenSums
import Ibm704.Proofs.Substitution
import Ibm704.Proofs.FurtherAnchors
import Ibm704.Proofs.Dependence
import Ibm704.Proofs.Repetitions
import Ibm704.Proofs.PlainLiterals
import Ibm704.Proofs.DecimalRange
import Ibm704.Proofs.ScaledLiterals
import Ibm704.Proofs.FloatWords
import Ibm704.Proofs.TableScan
import Ibm704.Proofs.SignedSums
import Ibm704.Proofs.FloatRounding
import Ibm704.Proofs.FloatOrder
import Ibm704.Proofs.CharacterWords
import Ibm704.Proofs.Accumulators
import Ibm704.Proofs.Regions
import Ibm704.Proofs.ReportPositions
import Ibm704.Proofs.FieldLenses
