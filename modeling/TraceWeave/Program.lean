import TraceWeave.Body.Basic
/-!
# Programs

Methods, classes with static fields, and programs.
-/

namespace TraceWeave

/-- A method. -/
structure Method where
  /-- The name of the method. -/
  name : String
  /-- The parameters, bound as local variables on entry. -/
  params : List Local := []
  /-- The declared type of the result. -/
  returnType : Ty
  /-- The body. -/
  body : Body

namespace Method

/-- The name of static initializers. -/
def initializerName : String := "<clinit>"

/-- A static initializer, which prepares the static fields of its class. -/
def isInitializer (m : Method) : Bool := m.name == initializerName

/-- The method in full: class, result, name and parameter types. -/
def signature (m : Method) (owner : String) : String :=
  "<" ++ owner ++ ": " ++ m.returnType.text ++ " " ++ m.name ++ "(" ++
    ",".intercalate (m.params.map (·.ty.text)) ++ ")>"

end Method

/-- The declaration of a static field. -/
structure FieldDecl where
  /-- The name of the field. -/
  name : String
  /-- The type of the field. -/
  ty : Ty
  /-- The initial value; without one the field starts at the zero of its type. -/
  initial : Option Value := none

/-- What a field holds before any code has run. -/
def FieldDecl.initialValue (f : FieldDecl) : Value := f.initial.getD (.zero f.ty)

/-- A class. -/
structure Class where
  /-- The name, with its package. -/
  name : String
  /-- The path of the source file, where it is known. -/
  sourceFile : Option String := none
  /-- The static fields. -/
  fields : List FieldDecl := []
  /-- The methods. -/
  methods : List Method := []

namespace Class

/-- The path of the source file; one that is not known follows from the name of the class. -/
def sourcePath (c : Class) : String :=
  c.sourceFile.getD (c.name.map (fun ch => if ch = '.' then '/' else ch) ++ ".java")

/-- The first method with a name. -/
def method? (c : Class) (name : String) : Option Method :=
  c.methods.find? fun m => m.name == name

end Class

/-- A program: classes that are loaded together. -/
structure Program where
  /-- The classes. -/
  classes : List Class := []

/-- The first class with a name. -/
def Program.class? (p : Program) (name : String) : Option Class :=
  p.classes.find? fun c => c.name == name

end TraceWeave
