import Pinout.Main
import Pinout.PinTable.Edit
import Pinout.Specifier.Shelf
import Pinout.Proofs.FirstFailure
import Pinout.Proofs.DividingComma
import Pinout.Proofs.PrintedRows
import Pinout.Proofs.UnderstoodRows
import Pinout.Proofs.FinishedPinfile
import Pinout.Proofs.WrittenLines
import Pinout.Proofs.GrammarContent
import Pinout.Proofs.SpecifierLife
import Pinout.Proofs.ResolvedBindings
import Pinout.Proofs.LineAccounts
import Pinout.Proofs.StagedBuild
import Pinout.Proofs.PinHistory
import Pinout.Proofs.CommandCourse
import Pinout.Proofs.RunInPlace
import Pinout.Proofs.QuietRuns
import Pinout.Proofs.SurvivingSpecifiers
import Pinout.Proofs.Climbing
import Pinout.Proofs.IdealTerms
import Pinout.Proofs.WrittenSpecifiers
import Pinout.Proofs.ResolvedTexts
import Pinout.Proofs.LeftmostBinding
import Pinout.Proofs.ReplacedNames
import Pinout.Proofs.BindingOutcomes
import Pinout.Proofs.SwappedBindings
import Pinout.Proofs.ListedContents
import Pinout.Proofs.ListedBindings
import Pinout.Proofs.OverlappingGrammars
import Pinout.Proofs.LineEnds
import Pinout.Proofs.ColumnTitles
import Pinout.Proofs.ArbitraryCaptures
import Pinout.Proofs.GuessedFormats
import Pinout.Proofs.PartialWrites
import Pinout.Proofs.TableFromMap
