import Mathlib.Data.List.Nodup
import Mathlib.Logic.Function.Basic
import OmegaPlane.Attestor.Cgroup

/-!
# The pod of a container

The attestor keeps the pods of its node by their UIDs, and by the hashes of static pods
that they carry in an annotation.  Anyone who makes a pod can write the annotation, so a
hash only nominates pods: the container in the status of one of them decides.
-/

namespace OmegaPlane.Attestor

structure ContainerStatus where
  name : Bytes
  containerID : Bytes
  deriving DecidableEq

structure Pod where
  uid : Bytes
  namespaceName : Bytes
  name : Bytes
  nodeName : Bytes
  annotations : List (Bytes × Bytes)
  containerStatuses : List ContainerStatus
  initContainerStatuses : List ContainerStatus
  ephemeralContainerStatuses : List ContainerStatus
  deriving DecidableEq

def mirrorAnnotation : Bytes := ascii "kubernetes.io/config.mirror"

/-- The hash of the static pod that a pod stands for; empty without the annotation. -/
def Pod.mirror (pod : Pod) : Bytes :=
  (pod.annotations.lookup mirrorAnnotation).getD []

/-- The name of the container with a runtime id; a status holds `<runtime>://<id>`. -/
def containerName (pod : Pod) (id : Bytes) : Option Bytes :=
  (pod.containerStatuses ++ pod.initContainerStatuses ++ pod.ephemeralContainerStatuses).findSome?
    fun status =>
      match Text.cut (ascii "://") status.containerID with
      | some (_, cid) => if cid = id then some status.name else none
      | none => none

def Pod.hasContainer (pod : Pod) (id : Bytes) : Bool :=
  (containerName pod id).isSome

/-- The pods of the node by UID, and by the hash they carry. -/
structure Listing where
  pods : Bytes → Option Pod
  mirrors : Bytes → List Pod

def Listing.empty : Listing := ⟨fun _ => none, fun _ => []⟩

def Listing.add (node : Bytes) (listing : Listing) (pod : Pod) : Listing :=
  if pod.nodeName ≠ node then listing
  else
    { pods := Function.update listing.pods pod.uid (some pod)
      mirrors :=
        if pod.mirror ≠ [] then
          Function.update listing.mirrors pod.mirror (listing.mirrors pod.mirror ++ [pod])
        else listing.mirrors }

inductive FindError where
  | ambiguous (first second : Pod) (containerID : Bytes)
  deriving DecidableEq

/-- Look for another candidate with the container. -/
def findFrom (id : Bytes) : Option Pod → List (Option Pod) → Except FindError (Option Pod)
  | found, [] => .ok found
  | found, none :: rest => findFrom id found rest
  | found, some pod :: rest =>
    if found = some pod ∨ pod.hasContainer id = false then findFrom id found rest
    else
      match found with
      | some first => .error (.ambiguous first pod id)
      | none => findFrom id (some pod) rest

variable {node : Bytes} {items : List Pod}

end OmegaPlane.Attestor
