import FuzzyInference.Directory
import FuzzyInference.Document.Json.Reader
import FuzzyInference.Document.Yaml
import FuzzyInference.Model.Document
import FuzzyInference.Model.Listing

/-!
# Models and configurations in files

The extension of a file tells how it is read: `.fz` holds a listing, `.yaml`, `.yml` and `.json` a
document.

* `extension`: the end of a path from its last dot on;
* `LoadFault`: why a file holds no model or configuration;
* `Model.load`, `loadConfiguration`.
-/

namespace FuzzyInference

open FuzzyInference.Document

/-- The end of a file's name from its last dot on; dots at the front do not count. -/
def extension (path : Text) : Text :=
  let dot : CodePoint := '.'
  let name := ((Directory.parts path).getLast?.getD "").toList.dropWhile (· == dot)
  if name.contains dot then Text.ofList (dot :: (name.reverse.takeWhile (· != dot)).reverse)
  else ""

/-- Why a file holds no model or configuration. -/
inductive LoadFault where
  | file (fault : FileFault)
  | listing (fault : Listing.Fault)
  | unknownExtension (ext : Text)
  /-- A file that should hold something is no document; the details may be unknown. -/
  | unreadable (what path details : Text)
  /-- A number of a JSON document is too long; this ends the run. -/
  | numeral (fault : Json.Fault)
  /-- A scalar of a YAML document is no value of the kind that it looks like; this ends the run. -/
  | scalar (fault : Yaml.Fault)
  | document (fault : Model.DocumentFault)
  | notMapping (path : Text)
  deriving Repr

/-- The wording of the fault. -/
def LoadFault.message : LoadFault → Text
  | .file f => f.message
  | .listing f => f.message
  | .unknownExtension ext =>
    "Unsupported model file extension '" ++ ext ++ "' (use .fz, .yaml, .yml or .json)"
  | .unreadable what path details => "Cannot read " ++ what ++ " " ++ path ++ ":" ++ details
  | .numeral f => f.message ""
  | .scalar f => f.message
  | .document f => f.message
  | .notMapping path => "Config " ++ path ++ " must be a mapping"

/-- Whether the fault is reported; the others end the run. -/
def LoadFault.isReported : LoadFault → Bool
  | .file f => f.isReported
  | .numeral _ | .scalar _ => false
  | .document f => f.isReported
  | _ => true

/-- The document in a file: YAML by its extension, otherwise JSON. -/
def loadDocument (d : Directory) (what path : Text) : Except LoadFault Value :=
  match d.read path with
  | .error f => .error (.file f)
  | .ok text =>
    let text := Text.unifyLineEnds text
    let lower := Text.lowercase path
    if lower.endsWith ".yml" || lower.endsWith ".yaml" then
      match Yaml.read text with
      | .ok v => .ok v
      | .error .structural => .error (.unreadable what path "")
      | .error f => .error (.scalar f)
    else
      match Json.read text with
      | .ok v => .ok v
      | .error f =>
        if f.isSyntax then .error (.unreadable what path (" " ++ f.message text))
        else .error (.numeral f)

/-- The model in a file. -/
def Model.load (d : Directory) (path : Text) : Except LoadFault (Model Float) :=
  let ext := Text.lowercase (extension path)
  if ext == ".fz" then
    match d.read path with
    | .error f => .error (.file f)
    | .ok text => (Listing.read (Text.unifyLineEnds text)).mapError .listing
  else if ext == ".yml" || ext == ".yaml" || ext == ".json" then
    match loadDocument d "model document" path with
    | .error f => .error f
    | .ok v => (Model.ofDocument v).mapError .document
  else .error (.unknownExtension ext)

/-- The configuration in a file, which is a mapping. -/
def loadConfiguration (d : Directory) (path : Text) :
    Except LoadFault (List (Value × Value)) :=
  match loadDocument d "config" path with
  | .error f => .error f
  | .ok (.map entries) => .ok entries
  | .ok _ => .error (.notMapping path)

end FuzzyInference
