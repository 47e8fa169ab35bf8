import SchemaTypes.Filter.Main
import SchemaTypes.Proofs.TypeText
import SchemaTypes.Proofs.IdentityHook
import SchemaTypes.Proofs.PropertyFaces
import SchemaTypes.Proofs.RequiredConjuncts
import SchemaTypes.Proofs.GeneratedRun
import SchemaTypes.Proofs.Lookups
import SchemaTypes.Proofs.PointerEscape
import SchemaTypes.Proofs.ScriptString
import SchemaTypes.Proofs.DeclarationText
import SchemaTypes.Proofs.DefinitionLookups
import SchemaTypes.Proofs.JsonString
import SchemaTypes.Proofs.LineEnds
import SchemaTypes.Proofs.DeclarationLines
import SchemaTypes.Proofs.SourceLineEnds
import SchemaTypes.Proofs.FinishedSource
import SchemaTypes.Proofs.PassRuns
import SchemaTypes.Proofs.WrittenDocument
import SchemaTypes.Proofs.RunFiles
import SchemaTypes.Proofs.Composable
import SchemaTypes.Proofs.PassOrder
import SchemaTypes.Proofs.SecondPass
import SchemaTypes.Proofs.ChildVisits
import SchemaTypes.Proofs.Warnings
import SchemaTypes.Proofs.FormatterExchange
import SchemaTypes.Proofs.RequiredChanges
