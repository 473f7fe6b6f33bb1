import QueryDomain.Main
import QueryDomain.Proofs.Reparse
import QueryDomain.Proofs.Shape
import QueryDomain.Proofs.Batches
import QueryDomain.Proofs.Joining
import QueryDomain.Proofs.Integers
import QueryDomain.Proofs.Json.Erasure
import QueryDomain.Proofs.Json.Lines
import QueryDomain.Proofs.FieldNames
import QueryDomain.Proofs.Text.Matching
import QueryDomain.Proofs.Appending
