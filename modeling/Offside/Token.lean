/-!
Token kinds shared by all languages. A token carries neither text nor place: its span travels beside
it and the text of names and literals is kept in a table of lexemes. Every kind has a tag, its name
in machine-readable output, and a display name, which is its spelling when that is fixed.
-/

namespace Offside

set_option autoImplicit false

inductive Token where
  | endOfInput
  | invalid
  | comment
  | newline
  | indent
  | dedent
  | identifier
  | properIdentifier
  | operatorSymbol
  | constructorSymbol
  | integer
  | float
  | string
  | character
  | openParen
  | closeParen
  | openBracket
  | closeBracket
  | openBrace
  | closeBrace
  | comma
  | colon
  | doubleColon
  | colonEquals
  | semicolon
  | dot
  | doubleDot
  | ellipsis
  | atSign
  | backtick
  | backslash
  | underscore
  | arrow
  | leftArrow
  | doubleArrow
  | equals
  | doubleEquals
  | notEquals
  | less
  | lessEquals
  | greater
  | greaterEquals
  | plus
  | plusEquals
  | minus
  | minusEquals
  | star
  | starEquals
  | doubleStar
  | doubleStarEquals
  | slash
  | slashEquals
  | doubleSlash
  | doubleSlashEquals
  | percent
  | percentEquals
  | ampersand
  | ampersandEquals
  | pipe
  | pipeEquals
  | caret
  | caretEquals
  | tilde
  | shiftLeft
  | shiftLeftEquals
  | shiftRight
  | shiftRightEquals
  | atEquals
  | kwAnd
  | kwAs
  | kwAssert
  | kwBreak
  | kwClass
  | kwContinue
  | kwDef
  | kwDel
  | kwElif
  | kwElse
  | kwExcept
  | kwExec
  | kwFinally
  | kwFor
  | kwFrom
  | kwGlobal
  | kwIf
  | kwImport
  | kwIn
  | kwIs
  | kwLambda
  | kwNonlocal
  | kwNot
  | kwOr
  | kwPass
  | kwPrint
  | kwRaise
  | kwReturn
  | kwTry
  | kwWhile
  | kwWith
  | kwYield
  | kwTrue
  | kwFalse
  | kwNone
  | kwCase
  | kwData
  | kwDefault
  | kwDeriving
  | kwDo
  | kwForeign
  | kwFixity
  | kwFixityLeft
  | kwFixityRight
  | kwInstance
  | kwLet
  | kwModule
  | kwNewtype
  | kwOf
  | kwThen
  | kwType
  | kwWhere
deriving DecidableEq, Inhabited

namespace Token

def names : Token → String × String
  | .endOfInput => ("Eop", "end of input")
  | .invalid => ("Invalid", "invalid token")
  | .comment => ("Comment", "comment")
  | .newline => ("Newline", "newline")
  | .indent => ("Indent", "indent")
  | .dedent => ("Dedent", "dedent")
  | .identifier => ("Ident", "identifier")
  | .properIdentifier => ("ProperIdent", "proper identifier")
  | .operatorSymbol => ("VarSym", "operator")
  | .constructorSymbol => ("ConSym", "constructor operator")
  | .integer => ("IntLit", "integer literal")
  | .float => ("FloatLit", "floating-point literal")
  | .string => ("StrLit", "string literal")
  | .character => ("CharLit", "character literal")
  | .openParen => ("LParen", "(")
  | .closeParen => ("RParen", ")")
  | .openBracket => ("LBracket", "[")
  | .closeBracket => ("RBracket", "]")
  | .openBrace => ("LBrace", "\x7b")
  | .closeBrace => ("RBrace", "\x7d")
  | .comma => ("Comma", ",")
  | .colon => ("Colon", ":")
  | .doubleColon => ("ColonColon", "::")
  | .colonEquals => ("ColonEq", ":=")
  | .semicolon => ("Semicolon", ";")
  | .dot => ("Dot", ".")
  | .doubleDot => ("DotDot", "..")
  | .ellipsis => ("Ellipsis", "...")
  | .atSign => ("At", "@")
  | .backtick => ("Backtick", "\x60")
  | .backslash => ("Backslash", "\\")
  | .underscore => ("Underscore", "_")
  | .arrow => ("Arrow", "->")
  | .leftArrow => ("LArrow", "<-")
  | .doubleArrow => ("DArrow", "=>")
  | .equals => ("Eq", "=")
  | .doubleEquals => ("EqEq", "==")
  | .notEquals => ("ExclamEq", "!=")
  | .less => ("Ls", "<")
  | .lessEquals => ("LsEq", "<=")
  | .greater => ("Gr", ">")
  | .greaterEquals => ("GrEq", ">=")
  | .plus => ("Plus", "+")
  | .plusEquals => ("PlusEq", "+=")
  | .minus => ("Minus", "-")
  | .minusEquals => ("MinusEq", "-=")
  | .star => ("Star", "*")
  | .starEquals => ("StarEq", "*=")
  | .doubleStar => ("StarStar", "**")
  | .doubleStarEquals => ("StarStarEq", "**=")
  | .slash => ("Slash", "/")
  | .slashEquals => ("SlashEq", "/=")
  | .doubleSlash => ("SlashSlash", "//")
  | .doubleSlashEquals => ("SlashSlashEq", "//=")
  | .percent => ("Percent", "%")
  | .percentEquals => ("PercentEq", "%=")
  | .ampersand => ("Amper", "&")
  | .ampersandEquals => ("AmperEq", "&=")
  | .pipe => ("Pipe", "|")
  | .pipeEquals => ("PipeEq", "|=")
  | .caret => ("Caret", "^")
  | .caretEquals => ("CaretEq", "^=")
  | .tilde => ("Tilde", "~")
  | .shiftLeft => ("LsLs", "<<")
  | .shiftLeftEquals => ("LsLsEq", "<<=")
  | .shiftRight => ("GrGr", ">>")
  | .shiftRightEquals => ("GrGrEq", ">>=")
  | .atEquals => ("AtEq", "@=")
  | .kwAnd => ("And", "and")
  | .kwAs => ("As", "as")
  | .kwAssert => ("Assert", "assert")
  | .kwBreak => ("Break", "break")
  | .kwClass => ("Class", "class")
  | .kwContinue => ("Continue", "continue")
  | .kwDef => ("Def", "def")
  | .kwDel => ("Del", "del")
  | .kwElif => ("Elif", "elif")
  | .kwElse => ("Else", "else")
  | .kwExcept => ("Except", "except")
  | .kwExec => ("Exec", "exec")
  | .kwFinally => ("Finally", "finally")
  | .kwFor => ("For", "for")
  | .kwFrom => ("From", "from")
  | .kwGlobal => ("Global", "global")
  | .kwIf => ("If", "if")
  | .kwImport => ("Import", "import")
  | .kwIn => ("In", "in")
  | .kwIs => ("Is", "is")
  | .kwLambda => ("Lambda", "lambda")
  | .kwNonlocal => ("Nonlocal", "nonlocal")
  | .kwNot => ("Not", "not")
  | .kwOr => ("Or", "or")
  | .kwPass => ("Pass", "pass")
  | .kwPrint => ("Print", "print")
  | .kwRaise => ("Raise", "raise")
  | .kwReturn => ("Return", "return")
  | .kwTry => ("Try", "try")
  | .kwWhile => ("While", "while")
  | .kwWith => ("With", "with")
  | .kwYield => ("Yield", "yield")
  | .kwTrue => ("TrueValue", "True")
  | .kwFalse => ("FalseValue", "False")
  | .kwNone => ("NoneValue", "None")
  | .kwCase => ("Case", "case")
  | .kwData => ("Data", "data")
  | .kwDefault => ("Default", "default")
  | .kwDeriving => ("Deriving", "deriving")
  | .kwDo => ("Do", "do")
  | .kwForeign => ("Foreign", "foreign")
  | .kwFixity => ("Infix", "infix")
  | .kwFixityLeft => ("Infixl", "infixl")
  | .kwFixityRight => ("Infixr", "infixr")
  | .kwInstance => ("Instance", "instance")
  | .kwLet => ("Let", "let")
  | .kwModule => ("Module", "module")
  | .kwNewtype => ("Newtype", "newtype")
  | .kwOf => ("Of", "of")
  | .kwThen => ("Then", "then")
  | .kwType => ("Type", "type")
  | .kwWhere => ("Where", "where")

def tag (token : Token) : String := token.names.1

def display (token : Token) : String := token.names.2

def all : List Token :=
  [.endOfInput, .invalid, .comment, .newline, .indent, .dedent, .identifier, .properIdentifier,
   .operatorSymbol, .constructorSymbol, .integer, .float, .string, .character, .openParen,
   .closeParen, .openBracket, .closeBracket, .openBrace, .closeBrace, .comma, .colon,
   .doubleColon, .colonEquals, .semicolon, .dot, .doubleDot, .ellipsis, .atSign, .backtick,
   .backslash, .underscore, .arrow, .leftArrow, .doubleArrow, .equals, .doubleEquals, .notEquals,
   .less, .lessEquals, .greater, .greaterEquals, .plus, .plusEquals, .minus, .minusEquals, .star,
   .starEquals, .doubleStar, .doubleStarEquals, .slash, .slashEquals, .doubleSlash,
   .doubleSlashEquals, .percent, .percentEquals, .ampersand, .ampersandEquals, .pipe,
   .pipeEquals, .caret, .caretEquals, .tilde, .shiftLeft, .shiftLeftEquals, .shiftRight,
   .shiftRightEquals, .atEquals, .kwAnd, .kwAs, .kwAssert, .kwBreak, .kwClass, .kwContinue,
   .kwDef, .kwDel, .kwElif, .kwElse, .kwExcept, .kwExec, .kwFinally, .kwFor, .kwFrom, .kwGlobal,
   .kwIf, .kwImport, .kwIn, .kwIs, .kwLambda, .kwNonlocal, .kwNot, .kwOr, .kwPass, .kwPrint,
   .kwRaise, .kwReturn, .kwTry, .kwWhile, .kwWith, .kwYield, .kwTrue, .kwFalse, .kwNone, .kwCase,
   .kwData, .kwDefault, .kwDeriving, .kwDo, .kwForeign, .kwFixity, .kwFixityLeft, .kwFixityRight,
   .kwInstance, .kwLet, .kwModule, .kwNewtype, .kwOf, .kwThen, .kwType, .kwWhere]

def ofTag? (tag : String) : Option Token := all.find? fun token => token.tag == tag

def isLiteral : Token → Bool
  | .integer | .float | .string | .character => true
  | _ => false

/-- Tokens made from indentation alone. -/
def isLayout : Token → Bool
  | .newline | .indent | .dedent => true
  | _ => false

/-- Operators that name a function. The minus sign and the dot have further uses and kinds of their
own. -/
def isVariableOperator : Token → Bool
  | .operatorSymbol | .minus | .dot => true
  | _ => false

def isConstructorOperator : Token → Bool
  | .constructorSymbol | .colon => true
  | _ => false

def isOperator (token : Token) : Bool :=
  token.isVariableOperator || token.isConstructorOperator

def isOpening : Token → Bool
  | .openParen | .openBracket | .openBrace => true
  | _ => false

def isClosing : Token → Bool
  | .closeParen | .closeBracket | .closeBrace => true
  | _ => false

/-- The token that a table of spellings has for a text. -/
def spelled? (spellings : List (String × Token)) (text : List Char) : Option Token :=
  (spellings.find? fun (spelling, _) => spelling.toList == text).map Prod.snd

theorem mem_of_spelled? {spellings : List (String × Token)} {text : List Char} {token : Token}
    (found : spelled? spellings text = some token) :
    ∃ entry ∈ spellings, entry.1.toList = text ∧ entry.2 = token := by
  obtain ⟨entry, matching, same⟩ := Option.map_eq_some_iff.1 found
  have spelled := List.find?_some matching
  exact ⟨entry, List.mem_of_find?_eq_some matching, eq_of_beq spelled, same⟩

theorem forall_of_spelled? (holds : Token → Prop) {spellings : List (String × Token)}
    (each : ∀ entry ∈ spellings, holds entry.2) {text : List Char} {token : Token}
    (found : spelled? spellings text = some token) : holds token := by
  obtain ⟨entry, member, -, rfl⟩ := mem_of_spelled? found
  exact each entry member

/-- What holds of every token of a table and of the one for other texts. -/
theorem forall_of_getD (holds : Token → Prop) {spellings : List (String × Token)} {other : Token}
    (each : ∀ entry ∈ spellings, holds entry.2) (otherwise : holds other) (text : List Char) :
    holds ((spelled? spellings text).getD other) := by
  cases found : spelled? spellings text with
  | none => exact otherwise
  | some token => exact forall_of_spelled? holds each found

end Token

end Offside
