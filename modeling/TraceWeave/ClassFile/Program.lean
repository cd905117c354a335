import TraceWeave.ClassFile.Body
import TraceWeave.Json.Printer
import TraceWeave.Json.Reader
import TraceWeave.Program
/-!
# Class files

A class file is the indented document of one class.  All fields of a record are written, in the
order of their declaration; a reader supplies what an older or shorter file leaves out.
-/

namespace TraceWeave

open Json

namespace Method

/-- The document of a method. -/
def toJson (floats : FloatForm) (m : Method) : Json :=
  record [("name", .string m.name), ("params", .array (m.params.map Local.toJson)),
    ("return_type", m.returnType.toJson), ("body", m.body.toJson floats)]

/-- Reads a method; without parameters it takes none. -/
def ofJson? : Nat → Json → Option Method
  | 0, _ => none
  | levels + 1, j => do
    match ← fields? ["name", "params", "return_type", "body"] j with
    | [some name, params, some returnType, some body] =>
      return { name := ← name.text?,
               params := ← fieldOr [] (list? Local.ofJson? levels) params,
               returnType := ← Ty.ofJson? levels returnType,
               body := ← Body.ofJson? levels body }
    | _ => none

end Method

namespace FieldDecl

/-- The document of a field. -/
def toJson (floats : FloatForm) (f : FieldDecl) : Json :=
  record [("name", .string f.name), ("ty", f.ty.toJson),
    ("initial", (f.initial.map (Value.toJson floats)).getD .null)]

/-- Reads a field; null as initial value says that there is none. -/
def ofJson? : Nat → Json → Option FieldDecl
  | 0, _ => none
  | levels + 1, j => do
    match ← fields? ["name", "ty", "initial"] j with
    | [some name, some ty, initial] =>
      return { name := ← name.text?, ty := ← Ty.ofJson? levels ty,
               initial := ← fieldOr none (nullable? (Value.ofJson? levels)) initial }
    | _ => none

end FieldDecl

namespace Class

/-- The document of a class. -/
def toJson (floats : FloatForm) (c : Class) : Json :=
  record [("name", .string c.name),
    ("source_file", (c.sourceFile.map Json.string).getD .null),
    ("fields", .array (c.fields.map (FieldDecl.toJson floats))),
    ("methods", .array (c.methods.map (Method.toJson floats)))]

/-- Reads a class. -/
def ofJson? : Nat → Json → Option Class
  | 0, _ => none
  | levels + 1, j => do
    match ← fields? ["name", "source_file", "fields", "methods"] j with
    | [some name, sourceFile, fields, methods] =>
      return { name := ← name.text?,
               sourceFile := ← fieldOr none (nullable? text?) sourceFile,
               fields := ← fieldOr [] (list? FieldDecl.ofJson? levels) fields,
               methods := ← fieldOr [] (list? Method.ofJson? levels) methods }
    | _ => none

/-- The text of the file of a class. -/
def fileText (c : Class) : String := (c.toJson .file).pretty

/-- Reads the text of a class file. -/
def ofFileText? (text : String) : Option Class := (Json.parse? text).bind (ofJson? maxNesting)

end Class

namespace Program

/-- The document of a program. -/
def toJson (floats : FloatForm) (p : Program) : Json :=
  record [("classes", .array (p.classes.map (Class.toJson floats)))]

/-- Reads a program. -/
def ofJson? : Nat → Json → Option Program
  | 0, _ => none
  | levels + 1, j => do
    match ← fields? ["classes"] j with
    | [some classes] => return { classes := ← list? Class.ofJson? levels classes }
    | _ => none

end Program

end TraceWeave
