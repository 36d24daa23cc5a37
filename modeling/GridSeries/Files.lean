import GridSeries.Chunk.Manifest
import GridSeries.Chunk.SettingsText
import GridSeries.Document.Read

/-! Mappings, manifests and settings that are kept in files. What a file holds is given as a text, and as none where
there is no file; getting it is the caller's part. -/
namespace GridSeries

/-- What is kept in files. -/
inductive FileKind where
  | mapping
  | manifest
  | settings
deriving DecidableEq, Repr

/-- What was being done with a file when it failed. -/
inductive FileAction where
  | makeFolder
  | opening
  | parsing
  | writing
deriving DecidableEq, Repr

/-- Why a file could not be read or written. -/
structure FileFault where
  action : FileAction
  kind : FileKind
  path : String
  /-- The fault in what the file holds, if that is the reason. -/
  cause : Option Fault

namespace FileFault

def label : FileKind → String
  | .mapping => "mapping config"
  | .manifest => "chunk manifest"
  | .settings => "chunking config"

def folderLabel : FileKind → String
  | .mapping => "mapping directory"
  | .manifest => "manifest directory"
  | .settings => "chunking directory"

/-- The text that says what failed; the cause is told apart from it. -/
def message (f : FileFault) : String :=
  let what := match f.action with
    | .makeFolder => "creating " ++ folderLabel f.kind
    | .opening => (if f.kind = .settings then "reading " else "opening ") ++ label f.kind
    | .parsing => "parsing " ++ label f.kind
    | .writing => "writing " ++ label f.kind
  what ++ " '" ++ f.path ++ "'"

end FileFault

namespace Files

def textOf (kind : FileKind) (path : String) (content : Option String) : Except FileFault String :=
  match content with
  | none => .error ⟨.opening, kind, path, none⟩
  | some text => .ok text

def mapping (r : Registry) (path : String) (content : Option String) : Except FileFault Mapping := do
  (Document.parse r (← textOf .mapping path content)).mapError fun f => ⟨.parsing, .mapping, path, some f⟩

def manifest (path : String) (content : Option String) : Except FileFault Manifest := do
  match Manifest.parse? (← textOf .manifest path content) with
  | some m => pure m
  | none => throw ⟨.parsing, .manifest, path, none⟩

def settings (path : String) (content : Option String) : Except FileFault RunSettings := do
  (RunSettings.parse (← textOf .settings path content)).mapError fun f => ⟨.parsing, .settings, path, some f⟩

end Files
end GridSeries
