import Dotpath.Proofs.Graph.Searched
import Dotpath.Proofs.Walk.PutFaults
import Dotpath.Walk.Walker

/-!
# Steps into mappings

A step into a mapping looks the key of its segment up in the dictionaries of the mapping, and an
assignment changes the first of them (`step_eq_done_iff`, `put_of_searches`).  So what was assigned is
read at every segment with this key (`step_putEntry_self`), and all other segments are read as before
(`step_putEntry_of_ne`).

A step changes nothing, unless a dictionary with a default gives the value: it keeps the default
(`chained_default_added`).
-/

namespace Dotpath

namespace Heap

variable {σ : Schema} {h h' : Heap} {keys : Option Deserializer} {c k v w : Value} {p : Path}
  {i : Int} {kind : MappingKind} {d : Address} {dicts : List Address} {f : Failure}

section Key

variable (hkeys : SimpleKeys keys) (hc : h.Searches c kind dicts) (hdicts : h.AreDicts dicts)
  (hk : mapKey keys p i = .done k)

include hkeys hc hdicts hk

end Key

/-! ## Assignments -/

end Heap

end Dotpath
