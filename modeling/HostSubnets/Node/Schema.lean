import HostSubnets.Json.Schema

/-!
# The shape of node records

The members that a node record and a list of records may have, with the shapes of their values.
Members that are not named here may have any value.

* `Node.schema` : a record;
* `Node.listSchema` : a list of records. It has no members of unknown shape: what is not named must
  still be a value.
-/

namespace HostSubnets.Node

open Json.Schema (options texts signed)
open Json (Schema)

/-! ## Metadata -/

def managedFieldsSchema : Schema :=
  options [("apiVersion", .text), ("fieldsType", .text), ("fieldsV1", .anything),
    ("manager", .text), ("operation", .text), ("subresource", .text), ("time", .time)]

def ownerSchema : Schema :=
  options [("apiVersion", .text), ("blockOwnerDeletion", .truth), ("controller", .truth),
    ("kind", .text), ("name", .text), ("uid", .text)]

def metadataSchema : Schema :=
  options [("annotations", .map .text), ("creationTimestamp", .time),
    ("deletionGracePeriodSeconds", signed 64), ("deletionTimestamp", .time),
    ("finalizers", .list .text), ("generateName", .text), ("generation", signed 64),
    ("labels", .map .text), ("managedFields", .list managedFieldsSchema), ("name", .text),
    ("namespace", .text), ("ownerReferences", .list ownerSchema), ("resourceVersion", .text),
    ("selfLink", .text), ("uid", .text)]

/-! ## What is wanted -/

def configSourceSchema : Schema :=
  options [("configMap",
    texts ["kubeletConfigKey", "name", "namespace", "resourceVersion", "uid"])]

def taintSchema : Schema :=
  options [("effect", .text), ("key", .text), ("timeAdded", .time), ("value", .text)]

def specSchema : Schema :=
  options [("configSource", configSourceSchema), ("externalID", .text), ("podCIDR", .text),
    ("podCIDRs", .list .text), ("providerID", .text), ("taints", .list taintSchema),
    ("unschedulable", .truth)]

/-! ## What is the case -/

def conditionSchema : Schema :=
  options [("lastHeartbeatTime", .time), ("lastTransitionTime", .time), ("message", .text),
    ("reason", .text), ("status", .text), ("type", .text)]

def configStatusSchema : Schema :=
  options [("active", configSourceSchema), ("assigned", configSourceSchema), ("error", .text),
    ("lastKnownGood", configSourceSchema)]

def endpointsSchema : Schema := options [("kubeletEndpoint", options [("Port", signed 32)])]

def imageSchema : Schema := options [("names", .list .text), ("sizeBytes", signed 64)]

def systemSchema : Schema :=
  options (["architecture", "bootID", "containerRuntimeVersion", "kernelVersion",
    "kubeProxyVersion", "kubeletVersion", "machineID", "operatingSystem", "osImage",
    "systemUUID"].map (fun name => (name, Schema.text)) ++
    [("swap", options [("capacity", signed 64)])])

def runtimeHandlerSchema : Schema :=
  options [("features", options [("recursiveReadOnlyMounts", .truth), ("userNamespaces", .truth)]),
    ("name", .text)]

def statusSchema : Schema :=
  options [("addresses", .list (texts ["address", "type"])), ("allocatable", .map .text),
    ("capacity", .map .text), ("conditions", .list conditionSchema),
    ("config", configStatusSchema), ("daemonEndpoints", endpointsSchema),
    ("features", options [("supplementalGroupsPolicy", .truth)]), ("images", .list imageSchema),
    ("nodeInfo", systemSchema), ("phase", .text), ("runtimeHandlers", .list runtimeHandlerSchema),
    ("volumesAttached", .list (texts ["devicePath", "name"])), ("volumesInUse", .list .text)]

/-! ## Records -/

/-- A record. It need not say of what kind it is, but it cannot be of another kind. -/
def schema : Schema :=
  .record [("apiVersion", .exactly "v1"), ("kind", .exactly "Node"),
    ("metadata", .nullable metadataSchema), ("spec", .nullable specSchema),
    ("status", .nullable statusSchema)] none

def listMetadataSchema : Schema :=
  options [("continue", .text), ("remainingItemCount", signed 64), ("resourceVersion", .text),
    ("selfLink", .text)]

def listSchema : Schema :=
  .record [("metadata", listMetadataSchema), ("items", .nullable (.list schema))] (some .anything)

end HostSubnets.Node
