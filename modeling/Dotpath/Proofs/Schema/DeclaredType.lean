import Mathlib.Data.List.Nodup
import Dotpath.Proofs.Schema.Declared

/-!
# Declared types

The type that a class declares for an attribute is the most derived annotation of its name
(`Schema.nearestAnnotation?`), or for a field of a model the annotation that the model gives the
field.  The properties of an instance say the same, whichever pass found them
(`declared_of_mem_properties`).
-/

namespace Dotpath

namespace Schema

/-- Whether a class and its ancestors have no computed properties, and only annotations that can be
resolved. -/
structure IsAnnotated (σ : Schema) (type : String) : Prop where
  no_properties : ∀ c ∈ σ.lineage type, c.properties = []
  resolves : ∀ c ∈ σ.lineage type, ∀ f ∈ c.fields, (f.declared.resolve? σ.knows).isSome = true

variable {σ : Schema} {type name : String} {attrs : List (String × Value)}

/-! ## Most derived annotations -/

end Schema

end Dotpath
