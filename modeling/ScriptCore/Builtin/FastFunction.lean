set_option autoImplicit false

/-!
# Functions with a fast path

The functions of the libraries that a program can call without looking them up, with the numbers
they have in bytecode. The numbers are part of the format and are never given out anew.

## Main definitions

* `ScriptCore.FastFunction` — a function with its number, label and name.
* `ScriptCore.FastFunction.all` — the table.
* `ScriptCore.FastFunction.ofId?`, `ScriptCore.FastFunction.find?` — look-up by number and by name.
-/

namespace ScriptCore

/-- A library function with a fast path. -/
structure FastFunction where
  /-- The number in bytecode. -/
  id : UInt8
  /-- The label in listings. -/
  label : String
  /-- The library; a global function has none. -/
  library : Option String
  /-- The name in its library, or of the global. -/
  member : String
deriving DecidableEq, Repr

namespace FastFunction

/-- The qualified name, as written at a call. -/
def name (f : FastFunction) : String :=
  match f.library with
  | some l => l ++ "." ++ f.member
  | none => f.member

/-- All functions with a fast path, by their numbers. -/
def all : List FastFunction :=
  [⟨1, "Assert", none, "assert"⟩,
   ⟨2, "MathAbs", some "math", "abs"⟩,
   ⟨3, "MathAcos", some "math", "acos"⟩,
   ⟨4, "MathAsin", some "math", "asin"⟩,
   ⟨5, "MathAtan2", some "math", "atan2"⟩,
   ⟨6, "MathAtan", some "math", "atan"⟩,
   ⟨7, "MathCeil", some "math", "ceil"⟩,
   ⟨8, "MathCosh", some "math", "cosh"⟩,
   ⟨9, "MathCos", some "math", "cos"⟩,
   ⟨10, "MathDeg", some "math", "deg"⟩,
   ⟨11, "MathExp", some "math", "exp"⟩,
   ⟨12, "MathFloor", some "math", "floor"⟩,
   ⟨13, "MathFmod", some "math", "fmod"⟩,
   ⟨14, "MathFrexp", some "math", "frexp"⟩,
   ⟨15, "MathLdexp", some "math", "ldexp"⟩,
   ⟨16, "MathLog10", some "math", "log10"⟩,
   ⟨17, "MathLog", some "math", "log"⟩,
   ⟨18, "MathMax", some "math", "max"⟩,
   ⟨19, "MathMin", some "math", "min"⟩,
   ⟨20, "MathModf", some "math", "modf"⟩,
   ⟨21, "MathPow", some "math", "pow"⟩,
   ⟨22, "MathRad", some "math", "rad"⟩,
   ⟨23, "MathSinh", some "math", "sinh"⟩,
   ⟨24, "MathSin", some "math", "sin"⟩,
   ⟨25, "MathSqrt", some "math", "sqrt"⟩,
   ⟨26, "MathTanh", some "math", "tanh"⟩,
   ⟨27, "MathTan", some "math", "tan"⟩,
   ⟨28, "Bit32Arshift", some "bit32", "arshift"⟩,
   ⟨29, "Bit32Band", some "bit32", "band"⟩,
   ⟨30, "Bit32Bnot", some "bit32", "bnot"⟩,
   ⟨31, "Bit32Bor", some "bit32", "bor"⟩,
   ⟨32, "Bit32Bxor", some "bit32", "bxor"⟩,
   ⟨33, "Bit32Btest", some "bit32", "btest"⟩,
   ⟨34, "Bit32Extract", some "bit32", "extract"⟩,
   ⟨35, "Bit32Lrotate", some "bit32", "lrotate"⟩,
   ⟨36, "Bit32Lshift", some "bit32", "lshift"⟩,
   ⟨37, "Bit32Replace", some "bit32", "replace"⟩,
   ⟨38, "Bit32Rrotate", some "bit32", "rrotate"⟩,
   ⟨39, "Bit32Rshift", some "bit32", "rshift"⟩,
   ⟨40, "Type", none, "type"⟩,
   ⟨41, "StringByte", some "string", "byte"⟩,
   ⟨42, "StringChar", some "string", "char"⟩,
   ⟨43, "StringLen", some "string", "len"⟩,
   ⟨44, "Typeof", none, "typeof"⟩,
   ⟨45, "StringSub", some "string", "sub"⟩,
   ⟨46, "MathClamp", some "math", "clamp"⟩,
   ⟨47, "MathSign", some "math", "sign"⟩,
   ⟨48, "MathRound", some "math", "round"⟩,
   ⟨49, "Rawset", none, "rawset"⟩,
   ⟨50, "Rawget", none, "rawget"⟩,
   ⟨51, "Rawequal", none, "rawequal"⟩,
   ⟨52, "TableInsert", some "table", "insert"⟩,
   ⟨53, "TableUnpack", some "table", "unpack"⟩,
   ⟨54, "Vector", none, "vector"⟩,
   ⟨55, "Bit32Countlz", some "bit32", "countlz"⟩,
   ⟨56, "Bit32Countrz", some "bit32", "countrz"⟩,
   ⟨57, "SelectVararg", none, "select"⟩,
   ⟨58, "Wait", none, "wait"⟩,
   ⟨59, "MathApproximately", some "math", "approximately"⟩,
   ⟨60, "MathCbrt", some "math", "cbrt"⟩,
   ⟨61, "MathClassify", some "math", "classify"⟩,
   ⟨62, "MathCopysign", some "math", "copysign"⟩,
   ⟨63, "MathEps", some "math", "eps"⟩,
   ⟨64, "MathErf", some "math", "erf"⟩,
   ⟨65, "MathErfc", some "math", "erfc"⟩,
   ⟨66, "MathExp2", some "math", "exp2"⟩,
   ⟨67, "MathExpm1", some "math", "expm1"⟩,
   ⟨68, "MathFade", some "math", "fade"⟩,
   ⟨69, "MathFdim", some "math", "fdim"⟩,
   ⟨70, "MathFma", some "math", "fma"⟩,
   ⟨71, "MathFuzzyEq", some "math", "fuzzyeq"⟩,
   ⟨72, "MathFuzzyNe", some "math", "fuzzyne"⟩,
   ⟨73, "MathFuzzyGt", some "math", "fuzzygt"⟩,
   ⟨74, "MathFuzzyGe", some "math", "fuzzyge"⟩,
   ⟨75, "MathFuzzyLt", some "math", "fuzzylt"⟩,
   ⟨76, "MathFuzzyLe", some "math", "fuzzyle"⟩,
   ⟨77, "MathGrad", some "math", "grad"⟩,
   ⟨78, "MathHypot", some "math", "hypot"⟩,
   ⟨79, "MathIlogb", some "math", "ilogb"⟩,
   ⟨80, "MathIsinf", some "math", "isinf"⟩,
   ⟨81, "MathIsfinite", some "math", "isfinite"⟩,
   ⟨82, "MathIsnormal", some "math", "isnormal"⟩,
   ⟨83, "MathIsnan", some "math", "isnan"⟩,
   ⟨84, "MathIsunordered", some "math", "isunordered"⟩,
   ⟨85, "MathLerp", some "math", "lerp"⟩,
   ⟨86, "MathLgamma", some "math", "lgamma"⟩,
   ⟨87, "MathLog1p", some "math", "log1p"⟩,
   ⟨88, "MathLogb", some "math", "logb"⟩,
   ⟨89, "MathLog2", some "math", "log2"⟩,
   ⟨90, "MathNexttoward", some "math", "nexttoward"⟩,
   ⟨91, "MathRemainder", some "math", "remainder"⟩,
   ⟨92, "MathRemquo", some "math", "remquo"⟩,
   ⟨93, "MathRep", some "math", "rep"⟩,
   ⟨94, "MathRoot", some "math", "root"⟩,
   ⟨95, "MathScalbn", some "math", "scalbn"⟩,
   ⟨96, "MathSignbit", some "math", "signbit"⟩,
   ⟨97, "MathTgamma", some "math", "tgamma"⟩,
   ⟨98, "MathTointeger", some "math", "tointeger"⟩,
   ⟨99, "MathTrunc", some "math", "trunc"⟩,
   ⟨100, "MathType", some "math", "type"⟩,
   ⟨101, "MathUlt", some "math", "ult"⟩,
   ⟨102, "StringTrim", some "string", "trim"⟩,
   ⟨103, "StringTrimStart", some "string", "trimstart"⟩,
   ⟨104, "StringTrimEnd", some "string", "trimend"⟩,
   ⟨105, "StringIndex", some "string", "index"⟩,
   ⟨106, "TableIsempty", some "table", "isempty"⟩,
   ⟨107, "TableFirst", some "table", "first"⟩,
   ⟨108, "CprRequest", some "cpr", "request"⟩,
   ⟨109, "CprGet", some "cpr", "get"⟩,
   ⟨110, "CprPost", some "cpr", "post"⟩,
   ⟨111, "CprPatch", some "cpr", "patch"⟩,
   ⟨112, "CprPut", some "cpr", "put"⟩,
   ⟨113, "CprDelete", some "cpr", "delete"⟩,
   ⟨114, "CprOptions", some "cpr", "options"⟩,
   ⟨115, "CprHead", some "cpr", "head"⟩,
   ⟨116, "JsonEncode", some "json", "encode"⟩,
   ⟨117, "JsonDecode", some "json", "decode"⟩,
   ⟨118, "Base64Encode", some "base64", "encode"⟩,
   ⟨119, "Base64Decode", some "base64", "decode"⟩]

/-- The constructor of vectors. What it is called is up to the host. -/
def vector : FastFunction := ⟨54, "Vector", none, "vector"⟩

/-- The function of a number. -/
def ofId? (id : UInt8) : Option FastFunction :=
  all.find? (·.id = id)

/-- The function of a name, in a library or global. The constructor of vectors is found under no
fixed name. -/
def find? (library : Option String) (member : String) : Option FastFunction :=
  all.find? fun f => f.library = library ∧ f.member = member ∧ f ≠ vector

end FastFunction

end ScriptCore
