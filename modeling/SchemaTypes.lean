import SchemaTypes.Main
import SchemaTypes.Proofs.References
import SchemaTypes.Proofs.Rendering
import SchemaTypes.Proofs.Answer
import SchemaTypes.Proofs.Resolution
import SchemaTypes.Proofs.Ambiguity
import SchemaTypes.Proofs.Dependence
import SchemaTypes.Proofs.Lossless
import SchemaTypes.Proofs.Runs
import SchemaTypes.Proofs.Served
import SchemaTypes.Proofs.Built
import SchemaTypes.Proofs.Target
import SchemaTypes.Proofs.Traversal
import SchemaTypes.Proofs.Warnings
import SchemaTypes.Proofs.EnumOrder
import SchemaTypes.Proofs.OwnName
import SchemaTypes.Proofs.Qualified
import SchemaTypes.Proofs.Parameter
import SchemaTypes.Proofs.OutputName
import SchemaTypes.Proofs.Foreign
import SchemaTypes.Proofs.SearchPath
