import EntityQuery.Domain.ConfigurationText
import EntityQuery.Domain.FileName
import EntityQuery.Domain.Metamodel
import EntityQuery.Exchange.PhraseReader
import EntityQuery.Exchange.PhraseWriter
import EntityQuery.Exchange.ResolvedWriter
import EntityQuery.Grammar.Reading
import EntityQuery.Interpretation.Statement
import EntityQuery.Json.Writer
import EntityQuery.Number.Scaled
import EntityQuery.Number.Shortest
import EntityQuery.Proofs.AdvisedStatements
import EntityQuery.Proofs.AliasRule
import EntityQuery.Proofs.BulkFields
import EntityQuery.Proofs.ClosedModels
import EntityQuery.Proofs.ClosedSubqueries
import EntityQuery.Proofs.EnclosedMeaning
import EntityQuery.Proofs.GrammarRecursion
import EntityQuery.Proofs.LoweredReading
import EntityQuery.Proofs.Operands
import EntityQuery.Proofs.ParameterStyles
import EntityQuery.Proofs.PolymorphicElements
import EntityQuery.Proofs.PrecedenceSpelling
import EntityQuery.Proofs.RepeatedPaths
import EntityQuery.Proofs.Respacing
import EntityQuery.Proofs.RestoredLevels
import EntityQuery.Proofs.ScopeArena
import EntityQuery.Proofs.ShapedReading
import EntityQuery.Proofs.SharedJoins
import EntityQuery.Proofs.SplitCopies
import EntityQuery.Proofs.SplitRebuilds
import EntityQuery.Proofs.SplitTypes
import EntityQuery.Proofs.StrictLanguage
import EntityQuery.Proofs.VariableHygiene
import EntityQuery.Proofs.VisitedLeaves
import EntityQuery.Proofs.WellScoped
import EntityQuery.Proofs.WellTyped
import EntityQuery.Proofs.WrittenValues
import EntityQuery.Report.Advisory
import EntityQuery.Resolved.Visits
import EntityQuery.Splitting.Split
