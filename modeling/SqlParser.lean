import SqlParser.Library.Splice
import SqlParser.Library.ItemReader
import SqlParser.Library.Numbering
import SqlParser.Core.SourceEdits
import SqlParser.Core.AstRebase
import SqlParser.Core.IdentifierOrigin
import SqlParser.Core.IdentifierOriginRuns
import SqlParser.Core.IdentifierOriginSoundness
import SqlParser.Core.Selector
import SqlParser.Core.SelectorRoundTrip
import SqlParser.Core.PublicLexer
import SqlParser.Core.PublicItems
import SqlParser.Core.NestedComments
import SqlParser.Core.BindOccurrences
import SqlParser.Core.NationalLiterals
import SqlParser.Mysql.QuotesPlaceholders
import SqlParser.Sqlserver.ScannerPublicLexer
import SqlParser.PgQuery.ScalarInsert
import SqlParser.Postgresql.Preprocess
import SqlParser.Postgresql.PreprocessPublicLexer
import SqlParser.Postgresql.NationalRoundTrip
import SqlParser.Core.AstSurface
import SqlParser.Core.SurfaceRecords
import SqlParser.Core.RecordHistory
import SqlParser.Core.ReturningInto
import SqlParser.Oracle.Placeholders
import SqlParser.Core.RebasePlanSoundness
import SqlParser.Core.IdentifierSpellingRuns
import SqlParser.Core.MixedStringsSoundness
import SqlParser.Core.RebasePlanCoordinates
import SqlParser.Library.ProtobufWire
import SqlParser.Library.BoundedWriter
import SqlParser.PgQuery.InsertAst
import SqlParser.Core.CertifiedInsertPackSoundness
import SqlParser.Core.CertifiedInsertUpdates
import SqlParser.Core.CertifiedInsertReaders
import SqlParser.Core.CertifiedInsertSoundness
import SqlParser.Core.CompactInsert
import SqlParser.Library.MarkedText
import SqlParser.Core.CompactInsertSoundness
import SqlParser.Core.CloneFailure
import SqlParser.Core.PreparedBinds
import SqlParser.Oracle.ValueItems
import SqlParser.Oracle.ValueIdentity
import SqlParser.Oracle.ValueLiterals
import SqlParser.Library.Unfolding
import SqlParser.Core.ControlState
import SqlParser.Core.ControlForest
import SqlParser.Core.HandleOperations
import SqlParser.Core.HandleRuns
import SqlParser.Core.HandleGenerations
import SqlParser.Core.StaleViews
import SqlParser.Library.Versions
import SqlParser.Core.SourceTokens
import SqlParser.Core.SourceIdentifiers
import SqlParser.Core.SourceIdentifierMeaning
import SqlParser.Core.IdentifierSearch
import SqlParser.Core.IdentifierRequests
import SqlParser.Core.BackwardTrivia
import SqlParser.Core.BackwardGaps
import SqlParser.Core.SourceRestore
import SqlParser.Core.ControlEnvelope
import SqlParser.Core.ControlProjection
import SqlParser.Sqlserver.ScannerTokens
import SqlParser.Sqlserver.ScannerHelpers
import SqlParser.Sqlserver.CandidateMask
import SqlParser.Sqlserver.GoLine
import SqlParser.Core.SurfaceScan
import SqlParser.Core.WhereLiterals
import SqlParser.Core.SurfaceDispatch
import SqlParser.Mysql.NonCodeMask
import SqlParser.Mysql.AbsenceFilters
import SqlParser.Library.CanonicalVarint
import SqlParser.Core.WireVarint
import SqlParser.Core.PublicLexerReference
import SqlParser.Library.WriteLog
import SqlParser.Sqlserver.ControlGrammar
import SqlParser.Sqlserver.ControlPasses
import SqlParser.Sqlserver.ControlTree
import SqlParser.Sqlserver.ControlParserSteps
import SqlParser.Sqlserver.ControlPassesAgree
import SqlParser.Sqlserver.ControlTreeShape
import SqlParser.Sqlserver.ControlTreeWrites
import SqlParser.Sqlserver.ControlParse
import SqlParser.Sqlserver.ControlParseForest
import SqlParser.Sqlserver.ControlFailures
import SqlParser.Sqlserver.ControlParseSoundness
import SqlParser.Mysql.ExecutableComments
import SqlParser.Mysql.ExecutableCommentStatements
import SqlParser.Mysql.ExecutableCommentPasses
import SqlParser.Mysql.ExecutableCommentForms
import SqlParser.Mysql.ExecutableCommentsRoundTrip
import SqlParser.Library.UniqueMatch
import SqlParser.Core.SemanticComments
import SqlParser.Core.SemanticCommentPlaces
import SqlParser.Core.SemanticCommentsRestored
