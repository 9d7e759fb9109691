import Highlighting.Lexer.Basic

/-!
# C and C++

The states of both grammars:

* `whitespace`: blanks, comments, preprocessor lines and disabled `#if 0` blocks;
* `statements`: literals, operators, declarations and identifiers;
* `root`: code at top level, where a declarator at the start of a line before `(` names a
  function;
* `string`, `macro` and `if_0`, which are pushed from the others.

Vocabulary extensions go into `root` and `statements`.
-/

namespace Highlighting

namespace CFamily

/-- The tag of C. -/
def cTag : String := "c"

/-- The tag of C++. -/
def cppTag : String := "cpp"

/-- Keywords of C. -/
def cKeywords : List String :=
  ["auto", "break", "case", "const", "continue", "default", "do", "else", "enum", "extern",
   "for", "goto", "if", "register", "restrict", "return", "sizeof", "static", "struct", "switch",
   "typedef", "union", "volatile", "while", "inline", "_Alignas", "_Alignof", "_Atomic",
   "_Generic", "_Noreturn", "_Static_assert", "_Thread_local"]

/-- Type names of C. -/
def cTypes : List String :=
  ["int", "long", "float", "short", "double", "char", "unsigned", "signed", "void", "bool",
   "_Bool", "_Complex", "_Imaginary", "size_t", "ssize_t", "ptrdiff_t", "intptr_t", "uintptr_t",
   "intmax_t", "uintmax_t", "int8_t", "int16_t", "int32_t", "int64_t", "uint8_t", "uint16_t",
   "uint32_t", "uint64_t", "wchar_t", "va_list", "FILE"]

/-- Reserved words of C compilers. -/
def cReserved : List String :=
  ["__asm", "__int8", "__based", "__except", "__int16", "__stdcall", "__cdecl", "__fastcall",
   "__int32", "__declspec", "__finally", "__int64", "__try", "__leave", "__inline", "_inline",
   "__restrict", "_restrict", "__thread", "__attribute__", "__typeof__", "__volatile__",
   "__asm__", "__extension__"]

/-- Constants of C. -/
def cConstants : List String :=
  ["true", "false"]

/-- Predefined names of C. -/
def cBuiltins : List String :=
  ["NULL", "__FILE__", "__LINE__", "__DATE__", "__TIME__", "__func__", "__FUNCTION__",
   "__PRETTY_FUNCTION__", "stdin", "stdout", "stderr", "errno"]

/-- Keywords that C++ adds. -/
def cppKeywords : List String :=
  ["asm", "catch", "class", "const_cast", "delete", "dynamic_cast", "explicit", "export",
   "friend", "mutable", "namespace", "new", "operator", "private", "protected", "public",
   "reinterpret_cast", "static_cast", "template", "this", "throw", "try", "typeid", "typename",
   "using", "virtual", "alignas", "alignof", "constexpr", "consteval", "constinit", "decltype",
   "noexcept", "static_assert", "thread_local", "co_await", "co_return", "co_yield", "concept",
   "requires", "final", "override", "and", "and_eq", "bitand", "bitor", "compl", "not", "not_eq",
   "or", "or_eq", "xor", "xor_eq"]

/-- Type names that C++ adds. -/
def cppTypes : List String :=
  ["char8_t", "char16_t", "char32_t", "nullptr_t"]

/-- Constants that C++ adds. -/
def cppConstants : List String :=
  ["nullptr"]

/-- The operators, the longer ones first. -/
def operators : String :=
  "<<=|>>=|<=>|->\\*|->|\\+\\+|--|<<|>>|<=|>=|==|!=|&&|\\|\\||" ++
  "\\+=|-=|\\*=|/=|%=|&=|\\|=|\\^=|::|\\.\\*|\\.\\.\\.|[-+*/%&|^~!<>=?:]"

/-- Which of the two languages. -/
inductive Dialect where
  | c | cpp
deriving DecidableEq, Inhabited

/-- The classification of identifiers. -/
def keywordTable (dialect : Dialect) : KeywordTable :=
  let table := KeywordTable.ofFallback .name
    |>.addAll .keyword cKeywords
    |>.addAll .keywordType cTypes
    |>.addAll .keywordReserved cReserved
    |>.addAll .keywordConstant cConstants
    |>.addAll .nameBuiltin cBuiltins
  match dialect with
  | .c => table
  | .cpp => table
    |>.addAll .keyword cppKeywords
    |>.addAll .keywordType cppTypes
    |>.addAll .keywordConstant cppConstants

/-- Blanks, comments and the starts of preprocessor lines.  An unterminated block comment runs to
the end of the source. -/
def whitespaceState : List Entry :=
  [.rule ((Rule.token "(?m)^[ \\t]*#[ \\t]*if[ \\t]+0\\b" .commentPreproc).push "if_0"),
   .rule ((Rule.token "(?m)^[ \\t]*#" .commentPreproc).push "macro"),
   .rule (.token "\\r?\\n" .whitespace),
   .rule (.token "[^\\S\\n]+" .whitespace),
   .rule (.token "\\\\\\r?\\n" .text),
   .rule (.token "//(?:\\\\\\r?\\n|[^\\n])*" .commentSingle),
   .rule (.token "/\\*(?s:.)*?\\*/" .commentMultiline),
   .rule (.token "/\\*(?s:.)*" .commentMultiline)]

/-- The lines of a disabled block; conditionals inside it nest. -/
def disabledState : List Entry :=
  [.rule ((Rule.token "(?m)^[ \\t]*#[ \\t]*if[^\\n]*\\n?" .commentPreproc).push "if_0"),
   .rule (Rule.token "(?m)^[ \\t]*#[ \\t]*el(?:se|if)[^\\n]*\\n?" .commentPreproc).pop,
   .rule (Rule.token "(?m)^[ \\t]*#[ \\t]*endif[^\\n]*\\n?" .commentPreproc).pop,
   .rule (.token "[^\\n]*\\n" .comment),
   .rule (.token "[^\\n]+" .comment)]

/-- The rest of a preprocessor line. -/
def macroState : List Entry :=
  [.rule (.groups "([ \\t]*)(include|include_next|import)([ \\t]*)(<[^>\\n]*>|\"[^\"\\n]*\")"
      [.token .whitespace, .token .commentPreproc, .token .whitespace, .token .commentPreprocFile]),
   .rule (.token "[^/\\n\\\\]+" .commentPreproc),
   .rule (.token "\\\\(?:\\r?\\n|.)?" .commentPreproc),
   .rule (.token "//[^\\n]*" .commentSingle),
   .rule (.token "/\\*(?s:.)*?\\*/" .commentMultiline),
   .rule (.token "/" .commentPreproc),
   .rule (Rule.token "\\n" .whitespace).pop]

/-- The pattern of an escape in a string literal. -/
def stringEscape : String :=
  "\\\\(?:[\\\\abfnrtv\"'?]|x[0-9A-Fa-f]+|[0-7]\x7b1,3\x7d|" ++
  "u[0-9A-Fa-f]\x7b4\x7d|U[0-9A-Fa-f]\x7b8\x7d|\\r?\\n)"

/-- The rest of a string literal; an unterminated one ends at the line feed. -/
def stringState : List Entry :=
  [.rule (Rule.token "\"" .string).pop,
   .rule (.token stringEscape .stringEscape),
   .rule (.token "[^\\\\\"\\n]+" .string),
   .rule (.token "\\\\" .string),
   .rule (Rule.token "\\n" .whitespace).pop]

/-- The pattern of a raw string with a delimiter. -/
def delimitedString : String :=
  "(?:u8|u|U|L)?R\"[^(\\s\\\\\"]\x7b1,16\x7d\\((?s:.)*?" ++
  "\\)[^)\\s\\\\\"]\x7b1,16\x7d\""

/-- Raw strings of C++; one with a delimiter closes at the first parenthesis, delimiter and
quote. -/
def rawStrings : List Entry :=
  [.rule (.token "(?:u8|u|U|L)?R\"\\((?s:.)*?\\)\"" .string),
   .rule (.token delimitedString .string)]

/-- The pattern of a character literal, which may hold several characters. -/
def charLiteral : String :=
  "(?:u8|u|U|L)?'(?:\\\\(?:x[0-9A-Fa-f]+|[0-7]\x7b1,3\x7d|[^\\n])|[^\\\\'\\n])+'"

/-- The pattern of a number with a decimal point. -/
def pointedNumber : String :=
  "(?:(?:\\d[\\d']*)?\\.\\d[\\d']*|\\d[\\d']*\\.)(?:[eE][+-]?\\d+)?[fFlL]?"

/-- Literals, operators and punctuation. -/
def literals : List Entry :=
  [.rule ((Rule.token "(?:u8|u|U|L)?\"" .string).push "string"),
   .rule (.token charLiteral .stringChar),
   .rule (.token "0[xX][0-9A-Fa-f']+[uUlLzZ]*" .numberHex),
   .rule (.token "0[bB][01']+[uUlLzZ]*" .numberBin),
   .rule (.token pointedNumber .numberFloat),
   .rule (.token "\\d[\\d']*[eE][+-]?\\d+[fFlL]?" .numberFloat),
   .rule (.token "0[0-7']+[uUlLzZ]*" .numberOct),
   .rule (.token "\\d[\\d']*[uUlLzZ]*" .numberInteger),
   .rule (.token "\\*/" .error),
   .rule (.token operators .operator),
   .rule (.token "[()\\[\\]\x7b\x7d,.;]" .punctuation)]

/-- Declarations that only C++ has. -/
def cppDeclarations : List Entry :=
  [.rule (.groups "(enum)(\\s+)(class|struct)(\\s+)([A-Za-z_]\\w*)"
      [.token .keyword, .token .whitespace, .token .keyword, .token .whitespace,
       .token .nameClass]),
   .rule (.groups "(namespace)(\\s+)([A-Za-z_][\\w:]*)"
      [.token .keyword, .token .whitespace, .token .nameNamespace])]

/-- The pattern of a declaration of a type. -/
def declaration : Dialect → String
  | .c => "(struct|union|enum)(\\s+)([A-Za-z_]\\w*)"
  | .cpp => "(class|struct|union|enum)(\\s+)([A-Za-z_]\\w*)"

/-- The pattern of an identifier. -/
def identifier : String := "[A-Za-z_]\\w*"

/-- Statements and expressions. -/
def statementsState (dialect : Dialect) (table : KeywordTable) : List Entry :=
  let isCpp := dialect == .cpp
  [.splice "whitespace"] ++
  (if isCpp then rawStrings else []) ++
  literals ++
  (if isCpp then cppDeclarations else []) ++
  [.rule (.groups (declaration dialect)
     [.token .keyword, .token .whitespace, .token .nameClass]),
   .rule (.keywords identifier table)]

/-- The pattern of a function's declarator at the start of a line: what stands before the name, the
name, blanks and the parenthesis. -/
def declarator : String :=
  "(?m)^((?:[A-Za-z_][\\w:<>]*[ \\t*&]+)+?)([A-Za-z_][\\w:~]*)([ \\t]*)(\\()"

/-- Code at top level. -/
def rootEntries (table : KeywordTable) : List Entry :=
  [.splice "whitespace",
   .rule (.groups declarator
      [.scan "statements", .keywords (table.withFallback .nameFunction), .token .whitespace,
       .token .punctuation]),
   .splice "statements"]

/-- The grammar of a dialect. -/
def grammar (name : String) (dialect : Dialect) : Definition :=
  let table := keywordTable dialect
  ⟨name,
   [("whitespace", whitespaceState), ("if_0", disabledState), ("macro", macroState),
    ("string", stringState), ("statements", statementsState dialect table),
    (rootState, rootEntries table)]⟩

/-- The grammar of C. -/
def cGrammar : Definition := grammar cTag .c

/-- The grammar of C++. -/
def cppGrammar : Definition := grammar cppTag .cpp

/-- What is known of the lexer of C. -/
def cInfo : LexerInfo where
  tag := cTag
  title := "C"
  description := "The C programming language"
  filenames := ["*.c", "*.h", "*.idc"]
  mimetypes := ["text/x-chdr", "text/x-csrc", "image/x-xbitmap"]

/-- What is known of the lexer of C++. -/
def cppInfo : LexerInfo where
  tag := cppTag
  title := "C++"
  description := "The C++ programming language"
  aliases := ["c++"]
  filenames :=
    ["*.cpp", "*.hpp", "*.c++", "*.h++", "*.cc", "*.hh", "*.cxx", "*.hxx", "*.pde", "*.ino",
     "*.tpp", "*.h", "*.inl", "*.ipp"]
  mimetypes := ["text/x-c++hdr", "text/x-c++src"]

/-- The lexer of C. -/
def cLexer : Logged (Except GrammarError Lexer) := Lexer.ofDefinition cInfo cGrammar

/-- The lexer of C++ without a vocabulary. -/
def cppLexer : Logged (Except GrammarError Lexer) := Lexer.ofDefinition cppInfo cppGrammar

end CFamily

end Highlighting
