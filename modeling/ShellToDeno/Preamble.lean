import ShellToDeno.Failure
import ShellToDeno.Features
import ShellToDeno.Preamble.Render

/-!
The header of a program: the shebang, the imports and the bindings of the helpers that the program
uses.
-/
namespace ShellToDeno.Preamble

/-- Where the modules of the runtime are found. -/
structure Sources where
  dax : Text
  path : Text
  helpers : Text
  deriving DecidableEq, Repr

def Sources.published : Sources :=
  ⟨"https://esm.sh/@jsr/david__dax@0.43.2/mod.ts", "https://esm.sh/jsr/@std/path@1.1.2",
   "https://esm.sh/gh/jeff-hykin/bash2deno@0.1.0.0/helpers.js"⟩

/-- The published module wherever no other is named. -/
def Sources.orPublished (s : Sources) : Sources :=
  let pick (given published : Text) : Text := if given.isEmpty then published else given
  ⟨pick s.dax Sources.published.dax, pick s.path Sources.published.path,
   pick s.helpers Sources.published.helpers⟩

structure Options where
  /-- Leaves out what the program does not use. -/
  minimal : Bool
  sources : Sources
  /-- Takes the place of the standard layout unless it is empty. -/
  template : Text
  deriving DecidableEq, Repr

def Options.standard : Options := ⟨false, ⟨[], [], []⟩, []⟩

/-- A name that a header may bring into scope. -/
structure Helper where
  name : Text
  /-- The features that need it. -/
  neededBy : List Feature
  always : Bool

def imports : List Helper :=
  [⟨"env", [.env, .localScope, .makeScope], false⟩, ⟨"aliases", [.aliases], false⟩,
   ⟨"$stdout", [.stdout], false⟩, ⟨"$stderr", [.stderr], false⟩, ⟨"initHelpers", [], true⟩,
   ⟨"iterateOver", [.iterateOver], false⟩]

def bindings : List Helper :=
  [⟨"$", [.dax], false⟩, ⟨"appendTo", [.append], false⟩, ⟨"overwrite", [.overwrite], false⟩,
   ⟨"hasCommand", [.hasCommand], false⟩, ⟨"makeScope", [.makeScope], false⟩,
   ⟨"settings", [], false⟩, ⟨"exitCodeOfLastChildProcess", [.exitCode], false⟩]

def Helper.isUsed (features : Features) (h : Helper) : Bool :=
  h.always || h.neededBy.any features.has

def pick (helpers : List Helper) (features : Features) (minimal : Bool) : List Text :=
  (helpers.filter fun h => !minimal || h.isUsed features).map Helper.name

/-- What a template can show of a header. -/
structure Data where
  shebang : Bool
  importFs : Bool
  importPath : Bool
  sources : Sources
  imports : List Text
  bindings : List Text
  arguments : List Text
  deriving DecidableEq, Repr

def Data.of (features : Features) (options : Options) : Data where
  shebang := features.has .shebang
  importFs := !options.minimal || features.has .fs
  importPath := !options.minimal || features.has .path
  sources := options.sources.orPublished
  imports := pick Preamble.imports features options.minimal
  bindings := pick Preamble.bindings features options.minimal
  arguments := List.map Text.ofString <|
    if options.minimal && !features.has .exitCode then ["dax", "iDontNeedDollarQuestionMark: true"]
    else ["dax"]

def Data.value (d : Data) : Template.Value :=
  .record [("Shebang", .flag d.shebang), ("ImportFs", .flag d.importFs),
    ("ImportPath", .flag d.importPath), ("DaxURL", .text d.sources.dax),
    ("PathURL", .text d.sources.path), ("HelpersURL", .text d.sources.helpers),
    ("HelperImports", .list d.imports), ("Bindings", .list d.bindings),
    ("InitArgs", .list d.arguments)]

/-- Each line ends with its own newline, except the last, which the program is joined to. -/
def shebangComponent : Text :=
  "\x7b\x7bdefine \"shebang\"\x7d\x7d\x7b\x7bif .Shebang\x7d\x7d" ++
  "#!/usr/bin/env -S deno run --allow-all\n\x7b\x7bend\x7d\x7d\x7b\x7bend\x7d\x7d"

def importsComponent : Text :=
  "\x7b\x7bdefine \"imports\"\x7d\x7d" ++
  "\x7b\x7bif .ImportFs\x7d\x7dimport fs from \"node:fs\"\n\x7b\x7bend\x7d\x7d" ++
  "import * as dax from \"\x7b\x7b.DaxURL\x7d\x7d\" // see: https://github.com/dsherret/dax\n" ++
  "\x7b\x7bif .ImportPath\x7d\x7d" ++
  "import * as path from \"\x7b\x7b.PathURL\x7d\x7d\"\n\x7b\x7bend\x7d\x7d" ++
  "import \x7b \x7b\x7bjoin .HelperImports \", \"\x7d\x7d \x7d from " ++
  "\"\x7b\x7b.HelpersURL\x7d\x7d\"\n\x7b\x7bend\x7d\x7d"

def helpersComponent : Text :=
  "\x7b\x7bdefine \"helpers\"\x7d\x7d" ++
  "\x7b\x7bif .Bindings\x7d\x7dlet \x7b \x7b\x7bjoin .Bindings \", \"\x7d\x7d \x7d = " ++
  "\x7b\x7bend\x7d\x7d" ++
  "initHelpers(\x7b \x7b\x7bjoin .InitArgs \", \"\x7d\x7d \x7d)\x7b\x7bend\x7d\x7d"

def layout : Text :=
  "\x7b\x7bdefine \"preamble\"\x7d\x7d\x7b\x7btemplate \"shebang\" .\x7d\x7d" ++
  "\x7b\x7btemplate \"imports\" .\x7d\x7d" ++
  "\x7b\x7btemplate \"helpers\" .\x7d\x7d\x7b\x7bend\x7d\x7d"

/-- The components by name. -/
def components : List (Text × Text) :=
  [("helpers", helpersComponent), ("imports", importsComponent), ("shebang", shebangComponent)]

def component? (name : Text) : Option Text := components.lookup name

/-- All components and the layout. -/
def allComponents : Text := Text.join "\n" (components.map Prod.snd ++ [layout])

def failure (message : Text) : Failure := .new .codeGeneration message none

/-- A header in the standard layout. -/
def standard (features : Features) (options : Options) : Except Failure Text :=
  match Template.read? "preamble" [] allComponents with
  | none => .error (failure "failed to parse preamble template")
  | some definitions =>
    match Template.render definitions "preamble" (Data.of features options).value with
    | none => .error (failure "failed to render preamble")
    | some text => .ok text

/-- A header in a layout of one's own, which may call the components. -/
def custom (features : Features) (options : Options) (template : Text) : Except Failure Text :=
  if (Utf8.trim template).isEmpty then .error (failure "template string cannot be empty") else
  let provided := components.foldlM (fun definitions c =>
    Template.read? "custom" definitions c.2) []
  match provided with
  | none => .error (failure "failed to parse preamble template")
  | some definitions =>
    match Template.read? "custom" definitions template with
    | none => .error (failure "failed to parse template")
    | some definitions =>
      match Template.render definitions "custom" (Data.of features options).value with
      | none => .error (failure "failed to execute template")
      | some text => .ok text

/-- The header of a program that uses some features. -/
def render (features : Features) (options : Options) : Except Failure Text :=
  if options.template.isEmpty then standard features options
  else custom features options options.template

end ShellToDeno.Preamble
