import GridKernel.Main
import GridKernel.Proofs.Atomic.Contended
import GridKernel.Proofs.Device.Parameters
import GridKernel.Proofs.Diagnostic.Positions
import GridKernel.Proofs.Dispatch.Interference
import GridKernel.Proofs.Dispatch.Transfers
import GridKernel.Proofs.Document.RoundTrip
import GridKernel.Proofs.Eval.Activations
import GridKernel.Proofs.Eval.Stack
import GridKernel.Proofs.Kernel.Occurrences
import GridKernel.Proofs.Launch.Chunks
import GridKernel.Proofs.Launch.Coordinates
import GridKernel.Proofs.Launch.Races
import GridKernel.Proofs.Target.Extensions
import GridKernel.Proofs.Target.Initialized
import GridKernel.Proofs.Target.Uniqueness
