import DesignComponents.Component.Name
import DesignComponents.Framework
import DesignComponents.Path

/-!
# Component files

How markup becomes a source file of a framework, where the file goes, and which command has to
lay the ground for it.
-/

namespace DesignComponents

structure Scaffold where
  program : String
  arguments : List String
  deriving DecidableEq, Repr

namespace Scaffold

def line (s : Scaffold) : String := " ".intercalate (s.program :: s.arguments)

end Scaffold

/-- A component ready to be stored; its path starts at the root of the components. -/
structure ComponentFile where
  name : String
  path : String
  contents : String
  scaffold : Option Scaffold
  deriving DecidableEq, Repr

namespace Framework

def filePath (f : Framework) (name extension : String) : String :=
  match f with
  | angular =>
    let directory := kebabCase name
    Path.join directory (directory ++ ".component.html")
  | _ => name ++ "." ++ extension

def scaffold? (f : Framework) (name : String) : Option Scaffold :=
  match f with
  | angular => some ⟨"ng", ["generate", "component", kebabCase name]⟩
  | _ => none

def importLine (name file : String) : String :=
  "import " ++ name ++ " from \"./" ++ file ++ "\";\n"

def reactContents (name markup : String) (imports : List String) : String :=
  let head := String.join (imports.map fun i => importLine i i)
  let gap := if imports.isEmpty then "" else "\n"
  let body :=
    if markup.isEmpty then "  return null;\n" else "  return (\n    " ++ markup ++ "\n  );\n"
  head ++ gap ++ "const " ++ name ++ " = () => \x7b\n" ++ body ++ "\x7d;\n\nexport default " ++
    name ++ ";\n"

def vueContents (markup : String) (imports : List String) (extension : String) : String :=
  let head := String.join (imports.map fun i => importLine i (i ++ "." ++ extension))
  let body := if markup.isEmpty then "" else "  " ++ markup ++ "\n"
  "<script setup>\n" ++ head ++ "</script>\n\n<template>\n" ++ body ++ "</template>\n"

def contents (f : Framework) (name markup : String) (imports : List String) (extension : String) :
    String :=
  match f with
  | react => reactContents name markup imports
  | vue => vueContents markup imports extension
  | html | angular => markup ++ "\n"

def componentFile (f : Framework) (name markup : String) (imports : List String)
    (extension : String) : ComponentFile :=
  { name
    path := f.filePath name extension
    contents := f.contents name markup imports extension
    scaffold := f.scaffold? name }

end Framework

end DesignComponents
