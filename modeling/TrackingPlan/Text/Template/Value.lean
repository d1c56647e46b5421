import TrackingPlan.Text.Quoted
/-!
# Value — what a field of a template can stand for

A field starts from a text.  An aspect of a value is something it tells of itself: its category, a description, or one
of the operations of its category, which tell their own names and owners in turn.  Every value can be written
out; texts and tuples have entries as well.

Where in memory a value lies is not part of it: the text of an operation bound to a value shows address zero.  Nor are
the descriptions and signatures of operations, and of categories their tables of members, their flags and their sizes:
a field that asks for one of these ends in `noAspect`.
-/
namespace TrackingPlan
namespace Template

/-- Why a template cannot be filled in. -/
inductive Fault where
  /-- The braces, a field or a layout are not well formed. -/
  | malformed
  /-- A field names something other than `source`. -/
  | unknownName (name : String)
  | unnamed
  | pastEnd
  /-- An index that is not a number, or into a value without entries. -/
  | notIndexable
  | noAspect
  | notLaidOut
  /-- A width that no text can have. -/
  | tooWide
deriving DecidableEq

/-! ## Categories and operations -/

inductive Category where
  | text
  | base
  | category
  | tuple
  | nothing
  | method
  | slot
  | boundMethod
  | boundSlot
deriving DecidableEq

namespace Category

def label : Category → String
  | .text => "str"
  | .base => "object"
  | .category => "type"
  | .tuple => "tuple"
  | .nothing => "NoneType"
  | .method => "method_descriptor"
  | .slot => "wrapper_descriptor"
  | .boundMethod => "builtin_function_or_method"
  | .boundSlot => "method-wrapper"

/-- The category that this one is a special case of. -/
def parent? : Category → Option Category
  | .base => none
  | _ => some .base

/-- The category and those above it, whose operations it has as well. -/
def lineage (c : Category) : List Category := c :: c.parent?.toList

def description? : Category → Option String
  | .text => some ("str(object='') -> str\nstr(bytes_or_buffer[, encoding[, errors]]) -> str\n\n"
      ++ "Create a new string object from the given object. If encoding or\n"
      ++ "errors is specified, then the object must expose a data buffer\n"
      ++ "that will be decoded using the given encoding and error handler.\n"
      ++ "Otherwise, returns the result of object.__str__() (if defined)\nor repr(object).\n"
      ++ "encoding defaults to sys.getdefaultencoding().\nerrors defaults to 'strict'.")
  | .base => some ("The base class of the class hierarchy.\n\n"
      ++ "When called, it accepts no arguments and returns a new featureless\n"
      ++ "instance that has no instance attributes and cannot be given any.\n")
  | .category => some "type(object) -> the object's type\ntype(name, bases, dict, **kwds) -> a new type"
  | .tuple => some ("Built-in immutable sequence.\n\n"
      ++ "If no argument is given, the constructor returns an empty tuple.\n"
      ++ "If iterable is specified the tuple is initialized from iterable's items.\n\n"
      ++ "If the argument is a tuple, the return value is the same object.")
  | _ => none

end Category

/-- How an operation belongs to its category. -/
inductive Binding where
  /-- It is called on a value. -/
  | method
  /-- It stands behind a piece of notation, and is called on a value. -/
  | slot
  /-- It is called on the category itself. -/
  | shared
deriving DecidableEq

structure Operation where
  owner : Category
  binding : Binding
  name : String
deriving DecidableEq

namespace Category

def names : Category → Binding → List String
  | .text, .method =>
    ["encode", "replace", "split", "rsplit", "join", "capitalize", "casefold", "title", "center", "count",
      "expandtabs", "find", "partition", "index", "ljust", "lower", "lstrip", "rfind", "rindex", "rjust", "rstrip",
      "rpartition", "splitlines", "strip", "swapcase", "translate", "upper", "startswith", "endswith",
      "removeprefix", "removesuffix", "isascii", "islower", "isupper", "istitle", "isspace", "isdecimal",
      "isdigit", "isnumeric", "isalpha", "isalnum", "isidentifier", "isprintable", "zfill", "format",
      "format_map", "__format__", "__sizeof__", "__getnewargs__"]
  | .text, .slot =>
    ["__repr__", "__hash__", "__str__", "__getattribute__", "__lt__", "__le__", "__eq__", "__ne__", "__gt__",
      "__ge__", "__iter__", "__mod__", "__rmod__", "__len__", "__getitem__", "__add__", "__mul__", "__rmul__",
      "__contains__"]
  | .text, .shared => ["__new__", "maketrans"]
  | .base, .method => ["__reduce_ex__", "__reduce__", "__getstate__", "__format__", "__sizeof__", "__dir__"]
  | .base, .slot =>
    ["__repr__", "__hash__", "__str__", "__getattribute__", "__setattr__", "__delattr__", "__lt__", "__le__",
      "__eq__", "__ne__", "__gt__", "__ge__", "__init__"]
  | .base, .shared => ["__new__", "__subclasshook__", "__init_subclass__"]
  | .category, .method => ["mro", "__subclasses__", "__instancecheck__", "__subclasscheck__", "__dir__", "__sizeof__"]
  | .category, .slot =>
    ["__repr__", "__call__", "__getattribute__", "__setattr__", "__delattr__", "__init__", "__or__", "__ror__"]
  | .category, .shared => ["__new__", "__prepare__"]
  | .tuple, .method => ["__getnewargs__", "index", "count"]
  | .tuple, .slot =>
    ["__repr__", "__hash__", "__getattribute__", "__lt__", "__le__", "__eq__", "__ne__", "__gt__", "__ge__",
      "__iter__", "__len__", "__getitem__", "__add__", "__mul__", "__rmul__", "__contains__"]
  | .tuple, .shared => ["__new__", "__class_getitem__"]
  | .nothing, .method => []
  | .nothing, .slot => ["__repr__", "__bool__"]
  | .nothing, .shared => ["__new__"]
  | .method, .slot | .slot, .slot => ["__repr__", "__call__", "__getattribute__", "__get__"]
  | .boundMethod, .slot | .boundSlot, .slot =>
    ["__repr__", "__hash__", "__call__", "__getattribute__", "__lt__", "__le__", "__eq__", "__ne__", "__gt__",
      "__ge__"]
  | _, .method => ["__reduce__"]
  | _, .shared => []

def own? (c : Category) (name : String) : Option Operation :=
  ([.method, .slot, .shared].find? (fun b => (c.names b).contains name)).map (fun b => ⟨c, b, name⟩)

def operation? (c : Category) (name : String) : Option Operation := c.lineage.findSome? (·.own? name)

end Category

/-! ## Values -/

inductive Value where
  | text (cs : List Char)
  | category (c : Category)
  | tuple (vs : List Value)
  | nothing
  | operation (o : Operation)
  | bound (o : Operation) (target : Value)

namespace Value

def ofText (s : String) : Value := .text s.toList

def ofCategory? : Option Category → Value
  | some c => .category c
  | none => .nothing

def categorize : Value → Category
  | .text _ => .text
  | .category _ => .category
  | .tuple _ => .tuple
  | .nothing => .nothing
  | .operation o => if o.binding = .slot then .slot else .method
  | .bound o _ => if o.binding = .slot then .boundSlot else .boundMethod

/-- The category that an operation bound to this value is named by. -/
def holder : Value → Category
  | .category c => c
  | v => v.categorize

/-! ## Aspects -/

def ofDescription (c : Category) : Value := (c.description?.map ofText).getD .nothing

def qualified (c : Category) (name : String) : Value := ofText (c.label ++ "." ++ name)

/-- What a value tells of itself. -/
def fact? (v : Value) (name : String) : Option Value :=
  match v, name with
  | v, "__class__" => some (.category v.categorize)
  | .text _, "__doc__" => some (ofDescription .text)
  | .tuple _, "__doc__" => some (ofDescription .tuple)
  | .nothing, "__doc__" => some .nothing
  | .category c, "__doc__" => some (ofDescription c)
  | .category c, "__name__" | .category c, "__qualname__" => some (ofText c.label)
  | .category _, "__module__" => some (ofText "builtins")
  | .category c, "__base__" => some (ofCategory? c.parent?)
  | .category c, "__bases__" => some (.tuple (c.parent?.toList.map .category))
  | .category c, "__mro__" => some (.tuple (c.lineage.map .category))
  | .operation o, "__name__" | .bound o _, "__name__" => some (ofText o.name)
  | .operation o, "__qualname__" => some (qualified o.owner o.name)
  | .operation o, "__objclass__" => some (.category o.owner)
  | .bound o target, "__qualname__" => some (qualified (if o.binding = .slot then o.owner else target.holder) o.name)
  | .bound o target, "__self__" => some (if o.name = "maketrans" then .nothing else target)
  | .bound o _, "__objclass__" => if o.binding = .slot then some (.category o.owner) else none
  | .bound o _, "__module__" => if o.binding = .slot then none else some .nothing
  | _, _ => none

/-- A shared operation asked of a category: bound to it, but the making of new values stays with its owner. -/
def share (c : Category) (o : Operation) : Value :=
  .bound o (.category (if o.name = "__new__" then o.owner else c))

/-- An operation of a category asked of the value: bound to it, or to its category where it is called on that. -/
def bind (v : Value) (o : Operation) : Value :=
  if o.binding = .shared then share v.categorize o else .bound o v

/-- The operation of a value.  A category gives its own operations unbound; it is itself a value with operations. -/
def operation? (v : Value) (name : String) : Option Value :=
  match v with
  | .category c =>
    (c.operation? name).map (fun o => if o.binding = .shared then share c o else .operation o)
      <|> (Category.category.operation? name).map v.bind
  | v => (v.categorize.operation? name).map v.bind

/-- **The aspect of a value** by that name. -/
def aspect (v : Value) (name : String) : Except Fault Value :=
  match v.fact? name <|> v.operation? name with
  | some w => .ok w
  | none => .error .noAspect

/-- **The entry of a value**, by number. -/
def entry (v : Value) (index : Option Nat) : Except Fault Value :=
  match v, index with
  | .text cs, some i => match cs[i]? with
    | some c => .ok (.text [c])
    | none => .error .pastEnd
  | .tuple vs, some i => match vs[i]? with
    | some w => .ok w
    | none => .error .pastEnd
  | _, _ => .error .notIndexable

/-! ## Texts of values -/

def angled (s : String) : List Char := '<' :: (s.toList ++ ['>'])

mutual
/-- The literal of a value, past ASCII by codes only if asked for. -/
def literal (asciiOnly : Bool) : Value → List Char
  | .text cs => Quoted.quoteWith asciiOnly cs
  | .category c => angled ("class '" ++ c.label ++ "'")
  | .tuple vs => match literals asciiOnly vs with
    | [v] => '(' :: (v ++ [',', ')'])
    | ls => '(' :: (List.intercalate [',', ' '] ls ++ [')'])
  | .nothing => "None".toList
  | .operation o =>
    angled ((if o.binding = .slot then "slot wrapper '" else "method '") ++ o.name ++ "' of '" ++ o.owner.label
      ++ "' objects")
  | .bound o target =>
    angled ((if o.binding = .slot then "method-wrapper '" ++ o.name ++ "'" else "built-in method " ++ o.name)
      ++ " of " ++ target.categorize.label ++ " object at 0x0")
def literals (asciiOnly : Bool) : List Value → List (List Char)
  | [] => []
  | v :: vs => literal asciiOnly v :: literals asciiOnly vs
end

def plain : Value → List Char
  | .text cs => cs
  | v => v.literal false

end Value
end Template
end TrackingPlan
