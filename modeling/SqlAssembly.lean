import SqlAssembly.Condition
import SqlAssembly.Session
import SqlAssembly.Value.Passed
import SqlAssembly.Proofs.DialectIndependence
import SqlAssembly.Proofs.Construction
import SqlAssembly.Proofs.CallEffects
import SqlAssembly.Proofs.ConditionWords
import SqlAssembly.Proofs.Parenthesization
import SqlAssembly.Proofs.CallerText
import SqlAssembly.Proofs.PlaceholderScan
import SqlAssembly.Proofs.ValueMap
import SqlAssembly.Proofs.ValueSubstitution
import SqlAssembly.Proofs.FirstFault
import SqlAssembly.Proofs.NestedQueries
import SqlAssembly.Proofs.NestedFailures
import SqlAssembly.Proofs.Composition
import SqlAssembly.Proofs.Preview
import SqlAssembly.Proofs.Suffixes
import SqlAssembly.Proofs.NestedDialects
import SqlAssembly.Proofs.DialectResolution
import SqlAssembly.Proofs.AndChains
import SqlAssembly.Proofs.ContextAlignment
import SqlAssembly.Proofs.EventLog
import SqlAssembly.Proofs.PlaceholderReading
import SqlAssembly.Proofs.QuotedNames
import SqlAssembly.Proofs.LiteralReading
import SqlAssembly.Proofs.RectangularRows
import SqlAssembly.Proofs.OrderDirections
import SqlAssembly.Proofs.CallOrder
import SqlAssembly.Proofs.NullBinding
import SqlAssembly.Proofs.ColumnSpelling
import SqlAssembly.Proofs.AnyDialect
import SqlAssembly.Proofs.MergedTexts
