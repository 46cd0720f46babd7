import Scythe.UnionShapes
import Scythe.ParamMerge
import Scythe.Codegen
import Scythe.Composites
import Scythe.GroupedFold
import Scythe.CleanedTokens
import Scythe.Literals
import Scythe.CatalogResolution
import Scythe.OptionalDisabled
import Scythe.LivePlaceholders
import Scythe.HeaderComment
import Scythe.QueryFingerprint
import Scythe.PercentTransparency
import Scythe.RowAgreement
import Scythe.EnumDefinitions
import Scythe.PositionalArguments
import Scythe.SchemaFingerprint
import Scythe.SchemaLookups
import Scythe.TypeClosure
import Scythe.JoinPresence
import Scythe.FromItems
import Scythe.Verification
import Scythe.Suppression
import Scythe.ClusterScope
import Scythe.AssembledFile
import Scythe.SilentDiff
import Scythe.Migration
import Scythe.OutputPath
import Scythe.SplitOperators
import Scythe.Redaction
import Scythe.UnboundParams
import Scythe.StatementRecovery
import Scythe.GuardSoundness
import Scythe.LiveTypes
import Scythe.QuerySplit
import Scythe.LiveLossless
import Scythe.Casing
import Scythe.OuterJoins
import Scythe.TypeWidening
import Scythe.AlterTable
import Scythe.AlterType
import Scythe.TypeResolution
import Scythe.SingleRow
import Scythe.InlineEnums
import Scythe.RubyLiterals
import Scythe.PlaceholderContexts
import Scythe.ClauseCuts
import Scythe.Extraction
import Scythe.FunctionHeaders
import Scythe.ConflictPredicates
import Scythe.Interchange
import Scythe.OverloadOrder
import Scythe.CanonicalOrder
import Scythe.DdlStatements
import Scythe.DdlFootprints
import Scythe.DdlOrder
import Scythe.NullRelationFilter
import Scythe.DependencyOrder
import Scythe.ScriptLiterals
import Scythe.Degradation
import Scythe.GroupedSplit
import Scythe.NestedReferences
import Scythe.MatcherExactness
import Scythe.UniqueNames
import Scythe.Suggestions
import Scythe.OptionsFingerprint
import Scythe.LintRules
import Scythe.LintCoverage
import Scythe.PolicyAuth
import Scythe.WeakHash
import Scythe.PiiWildcards
import Scythe.CheckCoverage
import Scythe.DefinitionCompleteness
import Scythe.TypeRendering
import Scythe.ManifestOverlay
import Scythe.AnalyzerGrowth
import Scythe.LintEngine
import Scythe.LintRun
import Scythe.CheckRun
import Scythe.GenerateRun
import Scythe.GenerateCheck
import Scythe.AuditRun
