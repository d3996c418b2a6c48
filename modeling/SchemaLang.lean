import SchemaLang.Files.Tree
import SchemaLang.Main
import SchemaLang.Proofs.Files
import SchemaLang.Proofs.Json.Encoding
import SchemaLang.Proofs.Registry.Chain
import SchemaLang.Proofs.Registry.Shape
import SchemaLang.Proofs.Registry.Splitting
import SchemaLang.Proofs.Schema.Descent
import SchemaLang.Proofs.Schema.Display
import SchemaLang.Proofs.Schema.Fault
import SchemaLang.Proofs.Schema.Finished
import SchemaLang.Proofs.Schema.Inlining
import SchemaLang.Proofs.Schema.Joining
import SchemaLang.Proofs.Scope
import SchemaLang.Proofs.Validation.Deferral
