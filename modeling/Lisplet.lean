import Lisplet.Main
import Lisplet.Proofs.EvaluationRun
import Lisplet.Proofs.ParametricEvaluation
import Lisplet.Proofs.FrameGrowth
import Lisplet.Proofs.Descent
import Lisplet.Proofs.NumeralText
import Lisplet.Proofs.PrintedText
import Lisplet.Proofs.ReadBack
import Lisplet.Proofs.Trace
import Lisplet.Proofs.ReaderRun
import Lisplet.Proofs.LiteralAgreement
import Lisplet.Proofs.SessionRun
import Lisplet.Proofs.SoundValue
import Lisplet.Proofs.SoundEvaluation
import Lisplet.Proofs.SoundSession
import Lisplet.Proofs.SessionScopes
import Lisplet.Proofs.SessionNumbers
import Lisplet.Proofs.OverwritingFrames
import Lisplet.Proofs.LongerText
import Lisplet.Proofs.Passage
import Lisplet.Proofs.LineCuts
import Lisplet.Proofs.LineComments
import Lisplet.Proofs.NumeralShape
import Lisplet.Proofs.ParseOutcome
import Lisplet.Proofs.Completion
import Lisplet.Proofs.Reach
import Lisplet.Proofs.LexicalScope
import Lisplet.Proofs.SpareDepth
import Lisplet.Proofs.PendingLines
import Lisplet.Proofs.LineEnds
import Lisplet.Proofs.RoundedAgain
import Lisplet.Proofs.PrintedAgain
import Lisplet.Proofs.ChainText
import Lisplet.Proofs.Reprinting
import Lisplet.Proofs.EvaluationTasks
import Lisplet.Proofs.ClosureCall
import Lisplet.Proofs.SourceParts
import Lisplet.Proofs.SourceCode
import Lisplet.Proofs.SessionSources
import Lisplet.Proofs.ExactValue
import Lisplet.Proofs.NumberOrder
import Lisplet.Proofs.Remainder
import Lisplet.Proofs.FrameHistory
import Lisplet.Proofs.NearestNumber
import Lisplet.Proofs.NumeralValue
import Lisplet.Proofs.Conditionals
import Lisplet.Proofs.CodeCuts
import Lisplet.Proofs.ReadingProgress
import Lisplet.Proofs.Conversation
