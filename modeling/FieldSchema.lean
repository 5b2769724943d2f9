import FieldSchema.CommandLine.Reply
import FieldSchema.Main
import FieldSchema.Proofs.Acceptance
import FieldSchema.Proofs.Acyclicity
import FieldSchema.Proofs.AloneAndInline
import FieldSchema.Proofs.ArtifactTexts
import FieldSchema.Proofs.ConstraintOrder
import FieldSchema.Proofs.DeclaredKeywords
import FieldSchema.Proofs.ForwardPointers
import FieldSchema.Proofs.Groups
import FieldSchema.Proofs.Items
import FieldSchema.Proofs.Locations
import FieldSchema.Proofs.MappingDocuments
import FieldSchema.Proofs.MappingRecords
import FieldSchema.Proofs.Metadata
import FieldSchema.Proofs.PathTexts
import FieldSchema.Proofs.Places
import FieldSchema.Proofs.PropertyParameters
import FieldSchema.Proofs.PropertyPaths
import FieldSchema.Proofs.Rearrangements
import FieldSchema.Proofs.References
import FieldSchema.Proofs.RepeatedFields
import FieldSchema.Proofs.RequiredNames
import FieldSchema.Proofs.Settings
import FieldSchema.Proofs.Unfolding
import FieldSchema.Proofs.UnknownTags
import FieldSchema.Proofs.UnwrittenDifferences
import FieldSchema.Proofs.WrittenNulls
