/-!
# Names of metamodel files

A metamodel is loaded from a file whose name ends in `json`. The extension of a path is what
follows the last point of its last component; a component that begins with its only point, and the
component of two points, have none.
-/

namespace EntityQuery

/-- Why a path is not taken for a metamodel file. -/
inductive FileFault where
  | unsupportedExtension (extension : String)
  | noExtension
  deriving DecidableEq, Repr

namespace FileFault

def text : FileFault → String
  | unsupportedExtension extension =>
    s!"Unsupported metamodel format: Unsupported file extension: .{extension}. Expected .json"
  | noExtension => "Unsupported metamodel format: No file extension found. Expected .json"

end FileFault

namespace FileName

/-- The components of a path between its slashes, the empty ones left out, and those of a single
point unless the path begins with it. -/
def components (path : List Char) : List (List Char) :=
  let pieces := path.splitBy fun a b => a != '/' && b != '/'
  let pieces := pieces.filter fun piece => piece != ['/']
  match pieces with
  | [] => []
  | first :: rest => first :: rest.filter fun piece => piece != ['.']

/-- The extension of a component. -/
def extension? (component : List Char) : Option (List Char) :=
  if component = ['.', '.'] then none
  else
    let reversed := component.reverse
    match reversed.dropWhile fun c => c != '.' with
    | [] => none
    | [_] => none
    | _ => some (reversed.takeWhile fun c => c != '.').reverse

/-- Checks that the path has the extension of a metamodel file. -/
def check (path : String) : Except FileFault Unit :=
  match (components path.toList).getLast?.bind extension? with
  | none => .error .noExtension
  | some extension =>
    if extension = "json".toList then .ok ()
    else .error (.unsupportedExtension (String.ofList extension))

end FileName
end EntityQuery
