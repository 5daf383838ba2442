import Dotpath.Document.Json.Printer
import Dotpath.Document.Yaml.Printer
import Dotpath.Settings.Basic

/-!
# Documents as texts

A value as a document in one of the output formats.
-/

namespace Dotpath

/-- The text of a value as a document. -/
def Heap.document (σ : Schema) (h : Heap) (v : Value) (format : String) : Except Fault String :=
  if !outputFormats.contains format then .error (.unknownFormat format)
  else do
    let (v, h) ← h.plain σ v
    if format = "yaml" then Yaml.print σ h v else Json.print σ h v

end Dotpath
