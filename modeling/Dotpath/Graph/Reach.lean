import Dotpath.Schema.Basic

/-!
# What can be reached

A value mentions the addresses that lie in it, and a node those of the values it holds and of the
dictionaries it shows.  An object holds its attributes, and what its class holds for all instances.
`Heap.reach` collects the addresses that can be reached from a value.
-/

namespace Dotpath

mutual

/-- The addresses that lie in a value. -/
def Value.addresses : Value → List Address
  | .tuple items | .named _ _ items | .frozenSet items => addressesOfAll items
  | .row a _ _ | .ref a => [a]
  | .scalar _ | .range .. => []

/-- The addresses that lie in several values. -/
def addressesOfAll : List Value → List Address
  | [] => []
  | v :: vs => v.addresses ++ addressesOfAll vs

end

/-- The values that a node holds. -/
def Node.values : Node → List Value
  | .list items | .deque items | .set items | .userSeq items _ _ _ | .grid _ _ items _ => items
  | .dict _ es => es.map (·.1) ++ es.map (·.2)
  | .object _ attrs => attrs.map (·.2)
  | _ => []

/-- The value that a getter gives without looking at the instance. -/
def Getter.constant? : Getter → Option Value
  | .constant v => some v
  | _ => none

theorem Getter.constant?_eq_some {g : Getter} {v : Value} :
    g.constant? = some v ↔ g = .constant v := by
  cases g <;> simp [Getter.constant?]

/-- The values that a class and its ancestors hold for all instances. -/
def Schema.sharedValues (σ : Schema) (type : String) : List Value :=
  (σ.lineage type).flatMap fun c =>
    c.classAttrs.map (·.2) ++ c.properties.filterMap (·.getter.constant?)

/-- The values that a node holds, with those that an object's class holds for it. -/
def Node.held (σ : Schema) : Node → List Value
  | .object type attrs => attrs.map (·.2) ++ σ.sharedValues type
  | n => n.values

/-- The dictionaries that a node shows. -/
def Node.shownDicts : Node → List Address
  | .view _ d | .proxy d | .userMap d _ _ | .seqMap d => [d]
  | .chain ds => ds
  | _ => []

/-- The addresses that a node mentions. -/
def Node.mentions (σ : Schema) (n : Node) : List Address :=
  n.shownDicts ++ addressesOfAll (n.held σ)

namespace Heap

/-- The addresses that the node at an address mentions. -/
def mentionsAt (σ : Schema) (h : Heap) (a : Address) : List Address :=
  match h.get? a with
  | some n => n.mentions σ
  | none => []

/-- Adds to the addresses `seen` what can be reached in so many rounds from the last ones found. -/
def reachWith (σ : Schema) (h : Heap) : (rounds : Nat) → (seen last : List Address) → List Address
  | 0, seen, _ => seen
  | rounds + 1, seen, last =>
    let found := ((last.flatMap (h.mentionsAt σ)).filter (!seen.contains ·)).eraseDups
    reachWith σ h rounds (seen ++ found) found

/-- The addresses that can be reached from a value. -/
def reach (σ : Schema) (h : Heap) (v : Value) : List Address :=
  h.reachWith σ h.nodes.size v.addresses.eraseDups v.addresses.eraseDups

end Heap

end Dotpath
