import GoApiDoc.Main
import GoApiDoc.Proofs.StrictBuild
import GoApiDoc.Proofs.TagFilter
import GoApiDoc.Proofs.Evaluation
import GoApiDoc.Proofs.Instantiation
import GoApiDoc.Proofs.DocumentExtension
import GoApiDoc.Proofs.RequestOrder
import GoApiDoc.Proofs.Bounds
import GoApiDoc.Proofs.Override
import GoApiDoc.Proofs.ExprText
import GoApiDoc.Proofs.Fitting
import GoApiDoc.Proofs.Shadowing
import GoApiDoc.Proofs.Ending
import GoApiDoc.Proofs.Range
import GoApiDoc.Proofs.DocComment
import GoApiDoc.Proofs.TagText
import GoApiDoc.Proofs.AttributeOrder
import GoApiDoc.Proofs.InstanceText
import GoApiDoc.Proofs.CompositeText
import GoApiDoc.Proofs.Rejection
import GoApiDoc.Proofs.Body
