import WorkloadImages.Main
import WorkloadImages.Patch.InPlace
import WorkloadImages.Proofs.Dict
import WorkloadImages.Proofs.Json.Frame
import WorkloadImages.Proofs.Json.Pointer
import WorkloadImages.Proofs.Json.PointerText
import WorkloadImages.Proofs.Json.Update
import WorkloadImages.Proofs.Patch.Replace
import WorkloadImages.Proofs.Reference.Characters
import WorkloadImages.Proofs.Reference.Domain
import WorkloadImages.Proofs.Reference.Host
import WorkloadImages.Proofs.Reference.Image
import WorkloadImages.Proofs.Reference.Language
import WorkloadImages.Proofs.Reference.Parse
import WorkloadImages.Proofs.Reference.Parts
import WorkloadImages.Proofs.Reference.Recognition
import WorkloadImages.Proofs.Reference.Registry
import WorkloadImages.Proofs.Reference.RoundTrip
import WorkloadImages.Proofs.Text.Cut
import WorkloadImages.Proofs.Text.Lowercase
import WorkloadImages.Proofs.Workload.Canonical
import WorkloadImages.Proofs.Workload.Containers
import WorkloadImages.Proofs.Workload.Idempotence
import WorkloadImages.Proofs.Workload.Rewriting
import WorkloadImages.Proofs.Reference.Digest
import WorkloadImages.Proofs.Reference.Splitting
import WorkloadImages.Proofs.Workload.Verdicts
import WorkloadImages.Proofs.Workload.Recollection
import WorkloadImages.Proofs.Json.Resolution
import WorkloadImages.Proofs.Patch.Independent
import WorkloadImages.Proofs.Workload.Sources
import WorkloadImages.Proofs.Workload.OtherDocuments
import WorkloadImages.Proofs.Workload.Coverage
import WorkloadImages.Proofs.Workload.PodSpecs
import WorkloadImages.Proofs.Command.ReadAgain
import WorkloadImages.Proofs.Command.Strict
import WorkloadImages.Proofs.Reference.Identity
import WorkloadImages.Proofs.Workload.Serialized
import WorkloadImages.Proofs.Patch.Batches
import WorkloadImages.Proofs.Reference.Uppercase
import WorkloadImages.Proofs.Json.PointerPaths
import WorkloadImages.Proofs.Command.Warnings
import WorkloadImages.Proofs.Reference.Patterns
