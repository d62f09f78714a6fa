import WordMachine.Host.OsError
import WordMachine.Text.Visible

/-!
# Assembly errors

What an assembly text can get wrong, with the line it is found on.
-/

namespace WordMachine.Assembly

/-- What an unfinished statement was waiting for. -/
inductive Missing where
  | wordCount
  | dataItem
  | operand
  deriving DecidableEq, Repr

/-- The name of what is missing. -/
def Missing.text : Missing → String
  | wordCount => "word count"
  | dataItem => "data item"
  | operand => "push-immediate operand"

/-- Why a text cannot be assembled. -/
inductive Error where
  | unterminatedString (line : Nat)
  | badCharacter (line : Nat) (char : Char)
  | unknownDirective (line : Nat) (text : String)
  | unknownMnemonic (line : Nat) (text : String)
  | badRegister (line : Nat) (text : String)
  | badNumber (line : Nat) (text : String)
  | numberOutOfRange (line : Nat) (value : Int)
  | missingOperand (line : Nat) (what : Missing)
  | duplicateLabel (line : Nat) (name : String) (first : Nat)
  | undefinedLabel (line : Nat) (name : String)
  | codeOverflow (line : Nat)
  | dataOverflow (line : Nat)
  | file (path : String) (cause : OsError)
  deriving DecidableEq, Repr

namespace Error

/-- A report about a line. -/
def atLine (line : Nat) (text : String) : String := "line " ++ line.repr ++ ": " ++ text

/-- The report of an error. -/
def message : Error → String
  | unterminatedString line => atLine line "unterminated string literal"
  | badCharacter line char =>
    atLine line ("character " ++ Text.quoteChar char ++ " cannot be encoded in one byte")
  | unknownDirective line text => atLine line ("unknown directive '" ++ text ++ "'")
  | unknownMnemonic line text => atLine line ("unknown mnemonic '" ++ text ++ "'")
  | badRegister line text =>
    atLine line ("bad register operand '" ++ text ++ "' (expected XX.0 to XX.31)")
  | badNumber line text => atLine line ("bad number '" ++ text ++ "'")
  | numberOutOfRange line value => atLine line (value.repr ++ " does not fit in 16 bits")
  | missingOperand line what => atLine line ("expected " ++ what.text)
  | duplicateLabel line name first =>
    atLine line ("label '" ++ name ++ "' already defined on line " ++ first.repr)
  | undefinedLabel line name => atLine line ("undefined label '" ++ name ++ "'")
  | codeOverflow line => atLine line "code segment full"
  | dataOverflow line => atLine line "data segment full"
  | file path cause => path ++ ": " ++ cause.message

end Error

end WordMachine.Assembly
