/-
The codes of diagnostics and warnings.

An error's code is `E` with four digits, a warning's `W`; the first two digits
name the area: characters (01), grammar (02), types and scopes (03), imports (04),
control flow (05), and for warnings variables (01), dead code (02), style (03),
shadowing (04).  Some codes are reserved and in no use.
-/

namespace Owl

/-- A code, its name, and a description if there is one. -/
structure CodeEntry where
  code : String
  name : String
  description? : Option String
deriving DecidableEq, Repr

namespace CodeEntry

def errors : List CodeEntry := [
  ⟨"E0101", "UNEXPECTED_CHAR", some "Unexpected character in source"⟩,
  ⟨"E0102", "UNTERMINATED_STRING", some "String literal not closed"⟩,
  ⟨"E0103", "INVALID_NUMBER", some "Invalid numeric literal"⟩,
  ⟨"E0104", "UNTERMINATED_COMMENT", none⟩,
  ⟨"E0201", "UNEXPECTED_TOKEN", some "Unexpected token"⟩,
  ⟨"E0202", "MISSING_TOKEN", some "Expected token not found"⟩,
  ⟨"E0203", "INVALID_SYNTAX", some "Invalid syntax"⟩,
  ⟨"E0204", "MISSING_BRACE", none⟩,
  ⟨"E0205", "MISSING_PAREN", none⟩,
  ⟨"E0206", "MALFORMED_MATCH", none⟩,
  ⟨"E0301", "TYPE_MISMATCH", some "Type mismatch"⟩,
  ⟨"E0302", "UNDEFINED_VARIABLE", some "Variable not defined"⟩,
  ⟨"E0303", "UNDEFINED_FUNCTION", some "Function not defined"⟩,
  ⟨"E0304", "INVALID_OPERATION", none⟩,
  ⟨"E0305", "INCOMPATIBLE_TYPES", none⟩,
  ⟨"E0306", "RETURN_TYPE_MISMATCH", none⟩,
  ⟨"E0307", "BRANCH_TYPE_MISMATCH", none⟩,
  ⟨"E0308", "WRONG_ARG_COUNT", none⟩,
  ⟨"E0309", "CONDITION_NOT_BOOL", none⟩,
  ⟨"E0310", "CANNOT_NEGATE", none⟩,
  ⟨"E0311", "TRY_NOT_RESULT", none⟩,
  ⟨"E0312", "TRY_OUTSIDE_RESULT_FN", none⟩,
  ⟨"E0313", "TRY_ERROR_TYPE_MISMATCH", none⟩,
  ⟨"E0314", "WRONG_TYPE_ARITY", none⟩,
  ⟨"E0315", "UNKNOWN_TYPE", none⟩,
  ⟨"E0316", "EXPLICIT_ANY_ANNOTATION", some "Any type cannot be used in type annotations"⟩,
  ⟨"E0320", "VARIABLE_REDEFINITION", none⟩,
  ⟨"E0321", "USE_BEFORE_DEFINITION", none⟩,
  ⟨"E0322", "ILLEGAL_SHADOWING", none⟩,
  ⟨"E0323", "ASSIGNMENT_TO_IMMUTABLE", some "Cannot assign to immutable variable"⟩,
  ⟨"E0324", "CONST_WITHOUT_VALUE", none⟩,
  ⟨"E0401", "IMPORT_NOT_FOUND", none⟩,
  ⟨"E0402", "INVALID_IMPORT", none⟩,
  ⟨"E0501", "MISSING_RETURN", some "Function must return a value on all paths"⟩,
  ⟨"E0502", "UNREACHABLE_CODE", none⟩,
  ⟨"E0503", "NON_EXHAUSTIVE_MATCH", none⟩,
  ⟨"E0504", "INVALID_PATTERN", none⟩,
  ⟨"E0505", "BREAK_OUTSIDE_LOOP", none⟩,
  ⟨"E0506", "CONTINUE_OUTSIDE_LOOP", none⟩,
  ⟨"E0507", "FOR_IN_NOT_LIST", none⟩]

def warnings : List CodeEntry := [
  ⟨"W0101", "UNUSED_VARIABLE", some "Variable declared but never used"⟩,
  ⟨"W0102", "UNUSED_PARAMETER", some "Parameter declared but never used"⟩,
  ⟨"W0103", "VARIABLE_NEVER_MUTATED", some "Variable declared as mutable but never mutated"⟩,
  ⟨"W0201", "UNREACHABLE_CODE", some "Code after this point will never execute"⟩,
  ⟨"W0202", "UNUSED_FUNCTION", none⟩,
  ⟨"W0203", "REDUNDANT_RETURN", none⟩,
  ⟨"W0204", "LOOP_WITHOUT_EXIT", some "Infinite loop without break or return"⟩,
  ⟨"W0301", "REDUNDANT_MATCH", some "Match expression with single case is redundant"⟩,
  ⟨"W0303", "UNNECESSARY_ELSE", none⟩,
  ⟨"W0304", "RESULT_IGNORED", some "Result value ignored; consider using match or ?"⟩,
  ⟨"W0305", "OPTION_IGNORED", some "Option value ignored; consider using match"⟩,
  ⟨"W0306", "CONSTANT_CONDITION", some "Condition is always true or always false"⟩,
  ⟨"W0401", "VARIABLE_SHADOWS", some "Variable shadows a variable in outer scope"⟩]

/-- The entry of a code: one that starts with `W` is a warning's. -/
def find? (code : String) : Option CodeEntry :=
  (if isWarning code then warnings else errors).find? (·.code == code)
where
  isWarning (code : String) : Bool := code.toList.head? == some 'W'

end CodeEntry

end Owl
