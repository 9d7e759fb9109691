import Highlighting.Text.Blank

/-!
# Token categories

A token has one of 29 categories, which form a forest: `Category.parent?` goes one step up, and
`Category.lineage` lists a category and everything above it.  Each category has a qualified name,
whose dots follow the hierarchy, and a short class name for style sheets; both determine it.
-/

namespace Highlighting

/-- What kind of lexeme a token is. -/
inductive Category where
  | text | whitespace | error
  | comment | commentSingle | commentMultiline | commentPreproc | commentPreprocFile
  | keyword | keywordConstant | keywordReserved | keywordType
  | name | nameBuiltin | nameClass | nameFunction | nameNamespace
  | literal | string | stringChar | stringEscape
  | number | numberFloat | numberHex | numberOct | numberBin | numberInteger
  | operator | punctuation
deriving DecidableEq, Inhabited

namespace Category

/-- All categories, in the order in which listings and style sheets show them. -/
def all : List Category :=
  [text, whitespace, error,
   comment, commentSingle, commentMultiline, commentPreproc, commentPreprocFile,
   keyword, keywordConstant, keywordReserved, keywordType,
   name, nameBuiltin, nameClass, nameFunction, nameNamespace,
   literal, string, stringChar, stringEscape,
   number, numberFloat, numberHex, numberOct, numberBin, numberInteger,
   operator, punctuation]

theorem mem_all (c : Category) : c ∈ all := by cases c <;> decide

theorem nodup_all : all.Nodup := by decide

/-- The dotted name. -/
def qualifiedName : Category → String
  | text => "Text"
  | whitespace => "Text.Whitespace"
  | error => "Error"
  | comment => "Comment"
  | commentSingle => "Comment.Single"
  | commentMultiline => "Comment.Multiline"
  | commentPreproc => "Comment.Preproc"
  | commentPreprocFile => "Comment.PreprocFile"
  | keyword => "Keyword"
  | keywordConstant => "Keyword.Constant"
  | keywordReserved => "Keyword.Reserved"
  | keywordType => "Keyword.Type"
  | name => "Name"
  | nameBuiltin => "Name.Builtin"
  | nameClass => "Name.Class"
  | nameFunction => "Name.Function"
  | nameNamespace => "Name.Namespace"
  | literal => "Literal"
  | string => "Literal.String"
  | stringChar => "Literal.String.Char"
  | stringEscape => "Literal.String.Escape"
  | number => "Literal.Number"
  | numberFloat => "Literal.Number.Float"
  | numberHex => "Literal.Number.Hex"
  | numberOct => "Literal.Number.Oct"
  | numberBin => "Literal.Number.Bin"
  | numberInteger => "Literal.Number.Integer"
  | operator => "Operator"
  | punctuation => "Punctuation"

/-- The class name in style sheets; plain text has none. -/
def cssClass : Category → String
  | text => ""
  | whitespace => "w"
  | error => "err"
  | comment => "c"
  | commentSingle => "c1"
  | commentMultiline => "cm"
  | commentPreproc => "cp"
  | commentPreprocFile => "cpf"
  | keyword => "k"
  | keywordConstant => "kc"
  | keywordReserved => "kr"
  | keywordType => "kt"
  | name => "n"
  | nameBuiltin => "nb"
  | nameClass => "nc"
  | nameFunction => "nf"
  | nameNamespace => "nn"
  | literal => "l"
  | string => "s"
  | stringChar => "sc"
  | stringEscape => "se"
  | number => "m"
  | numberFloat => "mf"
  | numberHex => "mh"
  | numberOct => "mo"
  | numberBin => "mb"
  | numberInteger => "mi"
  | operator => "o"
  | punctuation => "p"

/-- The category one step up in the hierarchy. -/
def parent? : Category → Option Category
  | text | error | comment | keyword | name | literal | operator | punctuation => none
  | whitespace => some text
  | commentSingle | commentMultiline | commentPreproc => some comment
  | commentPreprocFile => some commentPreproc
  | keywordConstant | keywordReserved | keywordType => some keyword
  | nameBuiltin | nameClass | nameFunction | nameNamespace => some name
  | string | number => some literal
  | stringChar | stringEscape => some string
  | numberFloat | numberHex | numberOct | numberBin | numberInteger => some number

/-- A category and at most `n` categories above it, from the bottom up. -/
def lineageWithin : Nat → Category → List Category
  | 0, c => [c]
  | n + 1, c =>
    match c.parent? with
    | some p => c :: lineageWithin n p
    | none => [c]

/-- A category and all above it, from the bottom up; no category has more than two above it. -/
def lineage (c : Category) : List Category := lineageWithin 2 c

/-- Whether a category is another one or lies below it. -/
def isWithin (c ancestor : Category) : Bool := c.lineage.contains ancestor

/-- The topmost category above a category. -/
def root (c : Category) : Category := c.lineage.getLastD c

/-- Whether tokens of the category are written without an element of their own. -/
def isPlain (c : Category) : Bool := c == text

/-- The position of a category in the listing order. -/
def rank (c : Category) : Nat := all.idxOf c

/-- The category with a class name. -/
def ofCssClass? (s : String) : Option Category := all.find? fun c => c.cssClass == s

/-- The qualified name that a written name stands for: blanks around it do not count, and strings
and numbers may be written without the `Literal.` in front. -/
def qualify (s : String) : String :=
  let t := trim s
  if t.startsWith "String" || t.startsWith "Number" then "Literal." ++ t else t

/-- The category with a written name. -/
def ofName? (s : String) : Option Category := all.find? fun c => c.qualifiedName == qualify s

/-- What is said of a name that no category has. -/
def unknownName (s : String) : String := s!"Unknown token category '{s}'"

theorem lineage_root (c : Category) : c.root.parent? = none := by cases c <;> decide

theorem self_mem_lineage (c : Category) : c ∈ c.lineage := by cases c <;> decide

theorem qualifiedName_injective {c d : Category} (h : c.qualifiedName = d.qualifiedName) :
    c = d := by
  have key : ∀ c ∈ all, ∀ d ∈ all, c.qualifiedName = d.qualifiedName → c = d := by decide
  exact key c (mem_all c) d (mem_all d) h

theorem cssClass_injective {c d : Category} (h : c.cssClass = d.cssClass) : c = d := by
  have key : ∀ c ∈ all, ∀ d ∈ all, c.cssClass = d.cssClass → c = d := by decide
  exact key c (mem_all c) d (mem_all d) h

end Category

end Highlighting
