import TypeGuard.Callable.Parameter
import TypeGuard.Value.Class

/-! # Attributes of built-in classes

What the values of built-in classes have as attributes: methods, which can be called, and the text
that documents the class. Only classes are listed whose values count as structured and are not read
by key, with `object`, which all others derive from.
-/

namespace TypeGuard

/-- Methods of a built-in class that show the same parameters, or none that can be found out. -/
structure Routines where
  /-- The name of the class of these methods. -/
  className : String
  params : Option (List Parameter)
  names : List String

namespace Routines

def slot (params : Option (List Parameter)) (names : List String) : Routines :=
  ⟨"method-wrapper", params, names⟩

def method (params : Option (List Parameter)) (names : List String) : Routines :=
  ⟨"builtin_function_or_method", params, names⟩

def required (names : List String) : List Parameter :=
  names.map (⟨·, .positionalOnly, false⟩)

def optional (kind : ParameterKind) (names : List String) : List Parameter :=
  names.map (⟨·, kind, true⟩)

def anything : List Parameter :=
  [⟨"args", .rest, false⟩, ⟨"kwargs", .keywords, false⟩]

end Routines

namespace BuiltinClass

open Routines

def routines : BuiltinClass → List Routines
  | object => [
    slot (some (required ["name"])) ["__delattr__", "__getattribute__"],
    method (some []) ["__dir__", "__getstate__", "__reduce__", "__sizeof__"],
    slot (some (required ["value"])) ["__eq__", "__ge__", "__gt__", "__le__", "__lt__", "__ne__"],
    method (some (required ["format_spec"])) ["__format__"],
    slot (some []) ["__hash__", "__repr__", "__str__"],
    slot (some anything) ["__init__"],
    method none ["__init_subclass__", "__subclasshook__"],
    method (some anything) ["__new__"],
    method (some (required ["protocol"])) ["__reduce_ex__"],
    slot (some (required ["name", "value"])) ["__setattr__"]]
  | list => [
    slot (some (required ["value"])) ["__add__", "__eq__", "__ge__", "__gt__", "__iadd__",
      "__imul__", "__le__", "__lt__", "__mul__", "__ne__", "__rmul__"],
    method none ["__class_getitem__", "__getitem__"],
    slot (some (required ["key"])) ["__contains__", "__delitem__"],
    slot (some (required ["name"])) ["__getattribute__"],
    slot (some anything) ["__init__"],
    slot (some []) ["__iter__", "__len__", "__repr__"],
    method (some anything) ["__new__"],
    method (some []) ["__reversed__", "__sizeof__", "clear", "copy", "reverse"],
    slot (some (required ["key", "value"])) ["__setitem__"],
    method (some (required ["object"])) ["append"],
    method (some (required ["value"])) ["count", "remove"],
    method (some (required ["iterable"])) ["extend"],
    method (some (required ["value"] ++ optional .positionalOnly ["start", "stop"])) ["index"],
    method (some (required ["index", "object"])) ["insert"],
    method (some (optional .positionalOnly ["index"])) ["pop"],
    method (some (optional .keywordOnly ["key", "reverse"])) ["sort"]]
  | tuple => [
    slot (some (required ["value"])) ["__add__", "__eq__", "__ge__", "__gt__", "__le__", "__lt__",
      "__mul__", "__ne__", "__rmul__"],
    method none ["__class_getitem__"],
    slot (some (required ["key"])) ["__contains__", "__getitem__"],
    slot (some (required ["name"])) ["__getattribute__"],
    method (some []) ["__getnewargs__"],
    slot (some []) ["__hash__", "__iter__", "__len__", "__repr__"],
    method (some anything) ["__new__"],
    method (some (required ["value"])) ["count"],
    method (some (required ["value"] ++ optional .positionalOnly ["start", "stop"])) ["index"]]
  | set => [
    slot (some (required ["value"])) ["__and__", "__eq__", "__ge__", "__gt__", "__iand__",
      "__ior__", "__isub__", "__ixor__", "__le__", "__lt__", "__ne__", "__or__", "__rand__",
      "__ror__", "__rsub__", "__rxor__", "__sub__", "__xor__"],
    method none ["__class_getitem__", "__contains__", "__reduce__", "__sizeof__", "add", "clear",
      "copy", "difference", "difference_update", "discard", "intersection", "intersection_update",
      "isdisjoint", "pop", "remove", "symmetric_difference", "symmetric_difference_update",
      "union", "update"],
    slot (some (required ["name"])) ["__getattribute__"],
    slot (some anything) ["__init__"],
    slot (some []) ["__iter__", "__len__", "__repr__"],
    method (some anything) ["__new__"],
    method (some (required ["other"])) ["issubset", "issuperset"]]
  | bytes => [
    slot (some (required ["value"])) ["__add__", "__eq__", "__ge__", "__gt__", "__le__", "__lt__",
      "__mod__", "__mul__", "__ne__", "__rmod__", "__rmul__"],
    method (some []) ["__bytes__"],
    slot (some (required ["key"])) ["__contains__", "__getitem__"],
    slot (some (required ["name"])) ["__getattribute__"],
    method none ["__getnewargs__", "capitalize", "count", "endswith", "find", "hex", "index",
      "isalnum", "isalpha", "isascii", "isdigit", "islower", "isspace", "istitle", "isupper",
      "lower", "rfind", "rindex", "startswith", "swapcase", "title", "upper"],
    slot (some []) ["__hash__", "__iter__", "__len__", "__repr__", "__str__"],
    method (some anything) ["__new__"],
    method (some (required ["width"] ++ optional .positionalOnly ["fillchar"])) ["center",
      "ljust", "rjust"],
    method (some (optional .positional ["encoding", "errors"])) ["decode"],
    method (some (optional .positional ["tabsize"])) ["expandtabs"],
    method (some (required ["string"])) ["fromhex"],
    method (some (required ["iterable_of_bytes"])) ["join"],
    method (some (optional .positionalOnly ["bytes"])) ["lstrip", "rstrip", "strip"],
    method (some (required ["frm", "to"])) ["maketrans"],
    method (some (required ["sep"])) ["partition", "rpartition"],
    method (some (required ["prefix"])) ["removeprefix"],
    method (some (required ["suffix"])) ["removesuffix"],
    method (some (required ["old", "new"] ++ optional .positionalOnly ["count"])) ["replace"],
    method (some (optional .positional ["sep", "maxsplit"])) ["rsplit", "split"],
    method (some (optional .positional ["keepends"])) ["splitlines"],
    method (some (required ["table"] ++ optional .positional ["delete"])) ["translate"],
    method (some (required ["width"])) ["zfill"]]
  | _ => []

def routine? (c : BuiltinClass) (name : String) : Option Routines :=
  c.routines.find? (·.names.contains name)

def doc? : BuiltinClass → Option String
  | object => some <|
    "The base class of the class hierarchy.\n\nWhen called, it accepts no arguments and returns " ++
      "a new featureless\ninstance that has no instance attributes and cannot be given any.\n"
  | list => some <|
    "Built-in mutable sequence.\n\nIf no argument is given, the constructor creates a new empty " ++
      "list.\nThe argument must be an iterable if specified."
  | tuple => some <|
    "Built-in immutable sequence.\n\nIf no argument is given, the constructor returns an empty " ++
      "tuple.\nIf iterable is specified the tuple is initialized from iterable's items.\n\nIf " ++
      "the argument is a tuple, the return value is the same object."
  | set => some <|
    "set() -> new empty set object\nset(iterable) -> new set object\n\nBuild an unordered " ++
      "collection of unique elements."
  | bytes => some <|
    "bytes(iterable_of_ints) -> bytes\nbytes(string, encoding[, errors]) -> " ++
      "bytes\nbytes(bytes_or_buffer) -> immutable copy of bytes_or_buffer\nbytes(int) -> bytes " ++
      "object of size given by the parameter initialized with null bytes\nbytes() -> empty " ++
      "bytes object\n\nConstruct an immutable array of bytes from:\n  - an iterable yielding " ++
      "integers in range(256)\n  - a text string encoded using the specified encoding\n  - any object " ++
      "implementing the buffer API.\n  - an integer"
  | _ => none

end BuiltinClass

end TypeGuard
