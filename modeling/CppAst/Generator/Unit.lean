import CppAst.Code.Builder
import CppAst.Comparison
import CppAst.Declarations
import CppAst.Path
import CppAst.Printer.Basic

namespace CppAst

structure GeneratorOptions where
  indent : Indent := .standard
  /-- The name of the header, by which the source file includes it. -/
  headerName : String := "ast.h"
  sourceName : String := "ast.cpp"
deriving Repr, DecidableEq

/-- The header declares what the source file defines. -/
inductive CodeUnit where
  | header
  | source
deriving Repr, DecidableEq

namespace CodeUnit

def banner : List Code :=
  [.lines [
    "// This file is generated by `astgen`.",
    "// DO NOT EDIT BY HAND!",
    "//",
    "// Note: any modifications to the AST should be",
    "// done by changing the AST schema file and",
    "// regenerating the sources."],
   .blank]

def inNamespace (name : String) (body : List Code) : List Code :=
  [.line s!"namespace {name} \x7b", .blank, .indented body, .blank, .line "\x7d"]

variable (schema : Schema)

def headerBody : List Code :=
  schema.ast.map Node.forwardDeclaration ++ Node.declarations schema.ast ++
    Comparison.all.flatMap (·.prototypes schema.ast) ++ [schema.printer.code schema.ast]

def sourceBody : List Code := Comparison.all.flatMap (·.definitions schema.ast)

def code (options : GeneratorOptions) : CodeUnit → List Code
  | header =>
    banner ++ [.line "#pragma once", .blank] ++
      schema.sysIncludes.map (fun name ↦ .line s!"#include <{name}>") ++ [.blank] ++
      schema.projectIncludes.map (fun name ↦ .line s!"#include \"{name}\"") ++ [.blank] ++
      inNamespace schema.scope (headerBody schema)
  | source =>
    banner ++ [.line s!"#include \"{options.headerName}\"", .blank] ++
      inNamespace schema.scope (sourceBody schema)

def render (options : GeneratorOptions) (unit : CodeUnit) : String :=
  Code.render options.indent 0 (unit.code schema options)

def name (options : GeneratorOptions) : CodeUnit → String
  | header => options.headerName
  | source => options.sourceName

def path (options : GeneratorOptions) (base : Path) (unit : CodeUnit) : Path :=
  base.join ⟨unit.name options⟩

/-- What stands in a unit before the comparison operators: the includes, the start of the namespace,
and in the header the types. -/
def opening (options : GeneratorOptions) : CodeUnit → String
  | header =>
    Code.render options.indent 0
      (banner ++ [.line "#pragma once", .blank] ++
        schema.sysIncludes.map (fun name ↦ .line s!"#include <{name}>") ++ [.blank] ++
        schema.projectIncludes.map (fun name ↦ .line s!"#include \"{name}\"") ++ [.blank] ++
        [.line s!"namespace {schema.scope} \x7b", .blank]) ++
      Code.render options.indent 1
        (schema.ast.map Node.forwardDeclaration ++ Node.declarations schema.ast)
  | source =>
    Code.render options.indent 0
      (banner ++ [.line s!"#include \"{options.headerName}\"", .blank] ++
        [.line s!"namespace {schema.scope} \x7b", .blank])

def closing (options : GeneratorOptions) : CodeUnit → String
  | header => Code.render options.indent 1 [schema.printer.code schema.ast] ++ "\n\x7d\n"
  | source => "\n\x7d\n"

def all : List CodeUnit := [header, source]

end CodeUnit
end CppAst
