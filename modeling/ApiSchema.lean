import ApiSchema.Acceptance
import ApiSchema.Main
import ApiSchema.Proofs.Command.Check
import ApiSchema.Proofs.Declaration.Prefixing
import ApiSchema.Proofs.Declaration.Sharing
import ApiSchema.Proofs.Format.Fixed
import ApiSchema.Proofs.Format.Registry
import ApiSchema.Proofs.Module.Annotation
import ApiSchema.Proofs.Module.Capture
import ApiSchema.Proofs.Module.Imports
import ApiSchema.Proofs.Module.Naming
import ApiSchema.Proofs.Module.Unambiguous
import ApiSchema.Proofs.Name.History
import ApiSchema.Proofs.Schema.Cycle
import ApiSchema.Proofs.Schema.Integer
import ApiSchema.Proofs.Schema.Normalisation
import ApiSchema.Proofs.Schema.Order
import ApiSchema.Proofs.Schema.Parameters
import ApiSchema.Proofs.Store.Cache
import ApiSchema.Proofs.Validator.Required
import ApiSchema.Proofs.Value.Equality
import ApiSchema.Proofs.Validator.Unique
