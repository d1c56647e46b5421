/-!
# Reserved — the reserved words of the target languages

The words of Python are those of its version 3.11, with the three that are reserved in some places only: `_`, `case` and
`match`.  Version 3.12 reserves `type` in the same way.
-/
namespace TrackingPlan
namespace Reserved

def typescript : List String :=
  ["abstract", "any", "as", "async", "await", "boolean", "break", "case", "catch", "class", "const",
    "constructor", "continue", "debugger", "declare", "default", "delete", "do", "else", "enum", "export",
    "extends", "false", "finally", "for", "from", "function", "get", "if", "implements", "import", "in",
    "infer", "instanceof", "interface", "is", "keyof", "let", "module", "namespace", "never", "new", "null",
    "number", "object", "package", "private", "protected", "public", "readonly", "require", "return", "set",
    "static", "string", "super", "switch", "symbol", "this", "throw", "true", "try", "type", "typeof",
    "undefined", "unique", "unknown", "var", "void", "while", "with", "yield"]

def javascript : List String :=
  ["do", "if", "in", "for", "let", "new", "try", "var", "case", "else", "enum", "eval", "null", "this", "true",
    "void", "with", "await", "break", "catch", "class", "const", "false", "super", "throw", "while", "yield",
    "delete", "export", "import", "public", "return", "static", "switch", "typeof", "default", "extends",
    "finally", "package", "private", "continue", "debugger", "function", "arguments", "interface", "protected",
    "implements", "instanceof"]

def kotlin : List String :=
  ["abstract", "actual", "annotation", "as", "break", "by", "catch", "class", "companion", "constructor",
    "continue", "crossinline", "data", "delegate", "do", "dynamic", "else", "enum", "expect", "external",
    "false", "field", "final", "finally", "for", "fun", "get", "if", "import", "in", "infix", "init", "inner",
    "interface", "internal", "is", "lateinit", "noinline", "null", "object", "open", "operator", "out",
    "override", "package", "private", "property", "protected", "public", "reified", "return", "sealed", "set",
    "super", "suspend", "tailrec", "this", "throw", "true", "try", "typealias", "val", "var", "vararg", "when",
    "where", "while"]

def python : List String :=
  ["False", "None", "True", "and", "as", "assert", "async", "await", "break", "class", "continue", "def",
    "del", "elif", "else", "except", "finally", "for", "from", "global", "if", "import", "in", "is", "lambda",
    "nonlocal", "not", "or", "pass", "raise", "return", "try", "while", "with", "yield", "_", "case", "match"]

def csharp : List String :=
  ["abstract", "as", "base", "bool", "break", "byte", "case", "catch", "char", "checked", "class", "const",
    "continue", "decimal", "default", "delegate", "do", "double", "else", "enum", "event", "explicit", "extern",
    "false", "finally", "fixed", "float", "for", "foreach", "goto", "if", "implicit", "in", "int", "interface",
    "internal", "is", "lock", "long", "namespace", "new", "null", "object", "operator", "out", "override",
    "params", "private", "protected", "public", "readonly", "ref", "return", "sbyte", "sealed", "short",
    "sizeof", "stackalloc", "static", "string", "struct", "switch", "this", "throw", "true", "try", "typeof",
    "uint", "ulong", "unchecked", "unsafe", "ushort", "using", "virtual", "void", "volatile", "while"]

end Reserved
end TrackingPlan
