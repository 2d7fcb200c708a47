/-
The members of a cluster register their addresses in directories, of which several members may share
one. Whoever looks sees all addresses in one order, so that all who share a directory agree on who
owns an indicator.
-/
import MetricCascade.Cluster.RoutingHash
import MetricCascade.Text.Blank

namespace MetricCascade

structure Address where
  host : String
  portNumber : Nat
  deriving DecidableEq

namespace Address

def text (a : Address) : String := s!"{a.host}:{a.portNumber}"

/-- By host, character by character, and then by number. -/
def precedes (a b : Address) : Bool := a.host < b.host || (a.host = b.host && a.portNumber ≤ b.portNumber)

/-- Whether somebody can be reached there: the host is not blank, the number not zero. -/
def isUsable (a : Address) : Bool := !Text.isAllBlank a.host && a.portNumber ≠ 0

end Address

/-- An address as one member sees it. -/
structure Peer where
  address : Address
  /-- It is the member's own. -/
  own : Bool
  deriving DecidableEq

instance : Coe Address Peer := ⟨fun a => ⟨a, false⟩⟩

namespace Peer

/-- The mark makes no difference. -/
def same (p q : Peer) : Bool := p.address == q.address

def precedes (p q : Peer) : Bool := p.address.precedes q.address

/-- The peer as `self` sees it. -/
def seenBy (p self : Peer) : Peer := { p with own := p.same self }

end Peer

inductive ClusterError where
  | unusable (address : Address)
  | notRegistered
  deriving DecidableEq

def ClusterError.message : ClusterError → String
  | unusable address =>
    s!"failed to register remote instance {address.text}: host and port are required"
  | notRegistered => "no instance registered as self"

/-! ## Routing -/

/-- The element that a hash falls to. -/
def route? {α : Type} (nodes : List α) (hash : UInt64) : Option α := nodes[hash.toNat % nodes.length]?

/-- The element that an indicator falls to. -/
def ownerOf? {α : Type} (nodes : List α) (x : Indicator) : Option α := route? nodes x.routingHash

/-! ## Directories -/

/-- Peers in the order in which their addresses were first registered, marked as they came. -/
abbrev Directory := List Peer

def Directory.add (d : Directory) (p : Peer) : Directory := if d.any p.same then d else d ++ [p]

/-- The directories of a cluster and its members, each with the directory it uses and the peer that it
has registered last. -/
structure Cluster where
  directories : List Directory
  members : List (Nat × Option Peer)

namespace Cluster

/-- Members that share one directory. -/
def shared (members : Nat) : Cluster := ⟨[[]], List.replicate members (0, none)⟩

/-- Members that have a directory each. -/
def separate (members : Nat) : Cluster :=
  ⟨List.replicate members [], (List.range members).map (·, none)⟩

/-- Registers a peer as the member itself. -/
def register (c : Cluster) (member : Nat) (p : Peer) : Except ClusterError Unit × Cluster :=
  if !p.address.isUsable then (.error (.unusable p.address), c)
  else
    match c.members[member]? with
    | none => (.ok (), c)
    | some (d, _) =>
      (.ok (), ⟨c.directories.modify d (·.add p), c.members.set member (d, some p)⟩)

/-- The peers of a member's directory in order, its own one marked. -/
def peers (c : Cluster) (member : Nat) : Except ClusterError (List Peer) :=
  match c.members[member]? with
  | some (d, some self) =>
    .ok (((c.directories[d]?.getD []).map (·.seenBy self)).mergeSort Peer.precedes)
  | _ => .error .notRegistered

end Cluster

end MetricCascade
