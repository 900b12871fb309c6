import KubeAtlas.Main
import KubeAtlas.Proofs.Api.Signature
import KubeAtlas.Proofs.CommandLine.Whole
import KubeAtlas.Proofs.Config.Switch
import KubeAtlas.Proofs.Kubeconfig.Coherence
import KubeAtlas.Proofs.Kubeconfig.Composition
import KubeAtlas.Proofs.Kubeconfig.Contexts
import KubeAtlas.Proofs.Kubeconfig.Identity
import KubeAtlas.Proofs.Kubeconfig.Normal
import KubeAtlas.Proofs.Kubeconfig.References
import KubeAtlas.Proofs.Kubeconfig.RoundTrip
import KubeAtlas.Proofs.Redaction
import KubeAtlas.Proofs.Store.Again
import KubeAtlas.Proofs.Store.Ambiguous
import KubeAtlas.Proofs.Store.Built
import KubeAtlas.Proofs.Store.Client
import KubeAtlas.Proofs.Store.Decoding
import KubeAtlas.Proofs.Store.FixedPoint
import KubeAtlas.Proofs.Store.Interleaving
import KubeAtlas.Proofs.Store.LastStage
import KubeAtlas.Proofs.Store.Refused
import KubeAtlas.Proofs.Store.Session
import KubeAtlas.Proofs.Store.Skipped
import KubeAtlas.Store.Queue
