import AlfredProcessing.Extract.RoundTrip
import AlfredProcessing.PostBuild.Provenance

namespace AlfredProcessing.Extract.Totality

open Lib.Json Lib.JsonText Lib.Fallible Cleaning Parse Changes RoundTrip PostBuild.Provenance

variable {py : Interpreter} {text : List Char} {d : Dict} {xs : List Value} {v : Value}

/-- An item whose name can be read, at the top or in its data, and whose operation can be
looked up. -/
def Fits (d : Dict) : Prop :=
  ((pyGet d "name").truthy ∨ isDict ((get (str "data") d).getD (.dict [] .none))) ∧
    hashable (pyOr (pyOr (pyGet d "op") (pyGet d "operation")) (.str (str "create")))

end AlfredProcessing.Extract.Totality
