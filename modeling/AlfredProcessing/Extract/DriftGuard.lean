import AlfredProcessing.Extract.Totality

namespace AlfredProcessing.Extract.DriftGuard

open Lib.Json Lib.JsonText Lib.Fallible Cleaning Parse Changes RoundTrip Totality PostBuild.Provenance

variable {py : Interpreter} {text : List Char} {xs : List Value}

end AlfredProcessing.Extract.DriftGuard
