import TemplateMessages.Main
import TemplateMessages.Proofs.ParsedTags
import TemplateMessages.Proofs.SessionHistory
import TemplateMessages.Template.Session
import TemplateMessages.Proofs.Requests
import TemplateMessages.Proofs.SuppliedArguments
import TemplateMessages.Proofs.Unescaping
import TemplateMessages.Proofs.TagLookup
import TemplateMessages.Proofs.FilterLookup
import TemplateMessages.Proofs.ContextKeys
import TemplateMessages.Proofs.ImportedEntries
import TemplateMessages.Proofs.BlockLines
import TemplateMessages.Proofs.PotReading
import TemplateMessages.Proofs.Merging
import TemplateMessages.Proofs.BatchReports
import TemplateMessages.Proofs.StoredKeys
import TemplateMessages.Proofs.JoinedRules
import TemplateMessages.Proofs.KeyClashes
import TemplateMessages.Proofs.MergeLaws
import TemplateMessages.Proofs.Positions
import TemplateMessages.Proofs.DomainVisits
import TemplateMessages.Proofs.FilledDomains
import TemplateMessages.Proofs.AddedDomains
import TemplateMessages.Proofs.OpenPlaceholders
import TemplateMessages.Proofs.Interpretation
import TemplateMessages.Proofs.TokenLines
import TemplateMessages.Proofs.MessageLines
import TemplateMessages.Proofs.DocumentOrder
import TemplateMessages.Proofs.RecordedMessages
import TemplateMessages.Proofs.TranslationHistory
import TemplateMessages.Proofs.ExpressionGrammar
import TemplateMessages.Proofs.GrammarSoundness
import TemplateMessages.Proofs.RepeatedArguments
import TemplateMessages.Proofs.GrammarCompleteness
import TemplateMessages.Proofs.ParsedExpressions
import TemplateMessages.Proofs.WrittenTokens
import TemplateMessages.Proofs.PrintedExpressions
import TemplateMessages.Proofs.RepeatedImports
import TemplateMessages.Proofs.DumpedPaths
import TemplateMessages.Proofs.BlockIdentities
import TemplateMessages.Proofs.CollectedDetails
import TemplateMessages.Proofs.TemplateLines
import TemplateMessages.Proofs.TagReading
import TemplateMessages.Proofs.PluralPlaceholders
import TemplateMessages.Proofs.TokenSubstitution
import TemplateMessages.Proofs.RuleRoundTrips
import TemplateMessages.Proofs.PipeRuns
import TemplateMessages.Proofs.KeptPlaceholders
import TemplateMessages.Proofs.MatchingTokens
import TemplateMessages.Proofs.MatchingExpressions
import TemplateMessages.Proofs.MatchingNodes
import TemplateMessages.Proofs.Reindentation
import TemplateMessages.Proofs.ReindentedRules
import TemplateMessages.Proofs.SourceTags
import TemplateMessages.Proofs.TagWalk
import TemplateMessages.Proofs.SourceLayout
import TemplateMessages.Proofs.TokenPositions
import TemplateMessages.Proofs.KeptTexts
import TemplateMessages.Proofs.TokenEnds
import TemplateMessages.Proofs.TokenSpacing
import TemplateMessages.Proofs.MatchingSources
import TemplateMessages.Proofs.ReindentedTemplates
import TemplateMessages.Proofs.ReportedLines
import TemplateMessages.Proofs.FiledMessages
import TemplateMessages.Proofs.MergeOrder
import TemplateMessages.Proofs.EscapedTexts
import TemplateMessages.Proofs.KeyProbing
import TemplateMessages.Proofs.ParenthesizedArguments
import TemplateMessages.Proofs.TokenCursors
import TemplateMessages.Proofs.ParsingLoops
import TemplateMessages.Proofs.ExpressionProgress
import TemplateMessages.Proofs.ParsingProgress
