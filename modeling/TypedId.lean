import TypedId.Database.Codec
import TypedId.Database.Session
import TypedId.Effect.Life
import TypedId.Effect.Slots
import TypedId.Expansion.Summary
import TypedId.Invocation
import TypedId.Proofs.Database.Interchange
import TypedId.Proofs.Effect.Lazy
import TypedId.Proofs.EntityModule.Forms
import TypedId.Proofs.EntityModule.Imports
import TypedId.Proofs.EntityModule.Reserved
import TypedId.Proofs.EntityModule.Spelling
import TypedId.Proofs.Expansion.Capture
import TypedId.Proofs.Expansion.Carrying
import TypedId.Proofs.Expansion.Reading
import TypedId.Proofs.Grammar.Associated
import TypedId.Proofs.Grammar.Beginnings
import TypedId.Proofs.Grammar.Blocks
import TypedId.Proofs.Grammar.Bounds
import TypedId.Proofs.Grammar.Calls
import TypedId.Proofs.Grammar.Declarations
import TypedId.Proofs.Grammar.Depth
import TypedId.Proofs.Grammar.Generics
import TypedId.Proofs.Grammar.Members
import TypedId.Proofs.Grammar.Operators
import TypedId.Proofs.Grammar.Sufficiency
import TypedId.Proofs.IdLiteral.Acceptance
import TypedId.Proofs.IdLiteral.Agreement
import TypedId.Proofs.IdLiteral.Construction
import TypedId.Proofs.Identifier.Json
import TypedId.Proofs.Invocation.Layout
import TypedId.Proofs.Invocation.Literals
import TypedId.Proofs.Invocation.Order
import TypedId.Proofs.Options.Refusal
import TypedId.Proofs.Random.Draws
import TypedId.Proofs.Uuid.Order
import TypedId.Proofs.Uuid.Spelling
import TypedId.Random
import TypedId.Registry
