import DocFlow.Script.Kind
import DocFlow.Text.Basic

namespace DocFlow.Script

/-- A node of the tree: its kind, its role in its parent, the characters it spans from `start` up to
`stop`, and its children in order. -/
inductive Node where
  | mk (kind : Kind) (role : Option Role) (start stop : Nat) (children : List Node)
  deriving Repr

instance : Inhabited Node := ⟨.mk (.named .program) none 0 0 []⟩

namespace Node

def kind : Node → Kind
  | mk k _ _ _ _ => k

def role : Node → Option Role
  | mk _ r _ _ _ => r

def start : Node → Nat
  | mk _ _ s _ _ => s

def stop : Node → Nat
  | mk _ _ _ e _ => e

def children : Node → List Node
  | mk _ _ _ _ cs => cs

def withRole (r : Role) : Node → Node
  | mk k _ s e cs => mk k (some r) s e cs

def isType (n : Node) (t : NodeType) : Bool := n.kind = .named t

def isToken (n : Node) (text : String) : Bool := n.kind = .token text

def isNamed (n : Node) : Bool :=
  match n.kind with
  | .named _ => true
  | .token _ => false

def isComment (n : Node) : Bool := n.isType .comment

/-- The children that are no tokens. Comments are among them. -/
def namedChildren (n : Node) : List Node := n.children.filter isNamed

def child? (n : Node) (r : Role) : Option Node := n.children.find? (·.role = some r)

def text (source : Text) (n : Node) : Text := (source.drop n.start).take (n.stop - n.start)

end Node

/-- A node in its tree: the siblings before it, nearest first, and its ancestors, nearest first. -/
structure Place where
  node : Node
  before : List Node
  above : List Node
  deriving Inhabited, Repr

namespace Place

def root (n : Node) : Place := ⟨n, [], []⟩

def parent? (p : Place) : Option Node := p.above.head?

/-- The places of a list of siblings below `above`, given the siblings before them. -/
def siblings (above : List Node) : List Node → List Node → List Place
  | _, [] => []
  | before, n :: rest => ⟨n, before, above⟩ :: siblings above (n :: before) rest

def children (p : Place) : List Place := siblings (p.node :: p.above) [] p.node.children

def namedChildren (p : Place) : List Place := p.children.filter (·.node.isNamed)

def child? (p : Place) (r : Role) : Option Place := p.children.find? (·.node.role = some r)

end Place

mutual

def placesOf (before above : List Node) : Node → List Place
  | .mk k r s e cs =>
    ⟨.mk k r s e cs, before, above⟩ :: placesOfAll [] (.mk k r s e cs :: above) cs

def placesOfAll (before above : List Node) : List Node → List Place
  | [] => []
  | n :: rest => placesOf before above n ++ placesOfAll (n :: before) above rest

end

def Node.places (n : Node) : List Place := placesOf [] [] n

mutual

def Node.size : Node → Nat
  | .mk _ _ _ _ cs => sizeAll cs + 1

def sizeAll : List Node → Nat
  | [] => 0
  | n :: rest => n.size + sizeAll rest

end

/-- Goes through pending places. Every step takes one node off, so the number of pending
nodes bounds the steps. -/
def preorderFrom : Nat → List Place → List Place
  | 0, _ => []
  | _ + 1, [] => []
  | steps + 1, p :: pending => p :: preorderFrom steps (p.children ++ pending)

def preorder (n : Node) : List Place := preorderFrom n.size [Place.root n]

end DocFlow.Script
