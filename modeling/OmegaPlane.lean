import OmegaPlane.Agent.Buffer
import OmegaPlane.Agent.Drops
import OmegaPlane.Agent.Recovery
import OmegaPlane.Agent.Replay
import OmegaPlane.Agent.Size
import OmegaPlane.Agent.SpoolFaults
import OmegaPlane.Attestor.Kubelet
import OmegaPlane.Attestor.Pods
import OmegaPlane.Decision.Evaluations
import OmegaPlane.Decision.Search
import OmegaPlane.Directory.Confinement
import OmegaPlane.Directory.DisplayNames
import OmegaPlane.Directory.Providers
import OmegaPlane.Evaluation.Placement
import OmegaPlane.Evaluation.Refresh
import OmegaPlane.Federation.OwnBundle
import OmegaPlane.Identity.Distrust
import OmegaPlane.Identity.Reload
import OmegaPlane.Identity.Replicas
import OmegaPlane.Identity.Sequence
import OmegaPlane.Leader.Runs
import OmegaPlane.Policies.Snapshot
import OmegaPlane.Policies.Sources
import OmegaPlane.Policies.Tampering
import OmegaPlane.Storage.Anchor
import OmegaPlane.Storage.Forwarding
import OmegaPlane.Tokens.Binding
import OmegaPlane.Tokens.Narrowing
import OmegaPlane.Tokens.Refusals
import OmegaPlane.Tokens.UserToken
import OmegaPlane.Tokens.Validation
import OmegaPlane.Workload.InUse
