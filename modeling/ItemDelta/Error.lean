import ItemDelta.Value.Inspected

/-!
# Errors

Everything that can be wrong with an input, by cause. The wording is in `Error.message`. Some
callers recover from one group of errors only: `Error.isContent` singles out the errors about
the content of well-shaped input, and `Error.isExpression` those that an update expression can
run into.
-/

namespace ItemDelta

/-- Why an operation fails. -/
inductive Error where
  /-- A path does not start at the root. -/
  | unrootedPath (path : String)
  /-- No segment of a path starts at a position. -/
  | malformedPath (path : String) (position : Nat)
  /-- A text is not JSON. -/
  | malformedJson
  /-- An integer has more digits than can be read, whose number is known, or written. -/
  | tooManyDigits (digits : Option Nat)
  /-- The root of a document was to be written. -/
  | rootWritten
  /-- The root of a document was to be removed. -/
  | rootRemoved
  /-- A diff is not a map of buckets. -/
  | notBuckets
  /-- A diff has other buckets than it should. -/
  | bucketNames (found expected : List Value)
  /-- A bucket is not a list. -/
  | notNodeList (kind : Value.Kind)
  /-- An item of a bucket is not a node. -/
  | notNode (item : Value)
  /-- A node lacks its path or its value. -/
  | incompleteNode (members : Members)
  /-- Two nodes of a bucket have one path. -/
  | repeatedPath (path : String)
  /-- Only maps and lists can be patched. -/
  | notPatchable (kind : Value.Kind)
  /-- An attribute name is longer than the store takes. -/
  | nameTooLong (name limit : String)
  /-- No version follows a current version that is not a number. -/
  | ambiguousVersion (current : Value)
  /-- The modified document has no new version to compare with. -/
  | missingVersion (path : String)
  /-- A condition is not one of the comparison operators. -/
  | unknownCondition (condition : Value)
  /-- There are two ways to read the null file, and this is neither. -/
  | unknownNullMode (mode : Value)
  /-- A program has no configuration. -/
  | unknownProgram (name : Value)
  /-- A configuration file is of an unknown version. -/
  | unknownConfigVersion (version : Value)
  /-- An element of a list of pairs has another length than two. -/
  | notPair (position length : Nat)
  /-- An operation does not apply to a value of this kind. -/
  | wrongKind
  /-- A value of this kind does not offer an operation at all. -/
  | unsupported
  /-- A required member is missing. -/
  | missingMember
  /-- A list has no element at a position. -/
  | missingElement
  /-- A number is too large for the operation. -/
  | outOfRange
  /-- A list would not fit into memory. -/
  | outOfMemory
  /-- An operation on decimals has no result. -/
  | decimal (fault : DecimalFault)
  /-- A file does not exist. -/
  | missingFile
  /-- A directory stands where a file is needed. -/
  | isDirectory
  /-- A file stands where a directory is needed. -/
  | notDirectory
  /-- A file name, or a part of it, is longer than the file system takes. -/
  | fileNameTooLong
  /-- A file name holds the character that ends names. -/
  | brokenFileName
  /-- A number below zero does not stand for an open file. -/
  | negativeDescriptor
  /-- A number does not stand for an open file. -/
  | notOpen
deriving DecidableEq

namespace Error

/-- Errors about the content of input that has the right shape. -/
def isContent : Error → Bool
  | .wrongKind | .unsupported | .missingMember | .missingElement | .outOfRange | .outOfMemory
  | .decimal _ | .missingFile | .isDirectory | .notDirectory | .fileNameTooLong | .notOpen => false
  | _ => true

/-- Errors that an update expression can run into. -/
def isExpression : Error → Bool
  | .nameTooLong .. | .ambiguousVersion _ | .missingVersion _ => true
  | _ => false

/-- The name of a kind with the module that defines it. -/
def qualifiedName : Value.Kind → String
  | .decimal => "decimal.Decimal"
  | kind => kind.name

/-- What to tell the user. -/
def message : Error → String
  | .unrootedPath path => s!"Path must start with '$': {inspectText path}"
  | .malformedPath path position => s!"Invalid path {inspectText path} at position {position}"
  | .malformedJson => "The text is not JSON"
  | .tooManyDigits none =>
    "Exceeds the limit (4300 digits) for integer string conversion; " ++
      "use sys.set_int_max_str_digits() to increase the limit"
  | .tooManyDigits (some digits) =>
    s!"Exceeds the limit (4300 digits) for integer string conversion: value has {digits} " ++
      "digits; use sys.set_int_max_str_digits() to increase the limit"
  | .rootWritten => "Cannot set the document root"
  | .rootRemoved => "Cannot remove the document root"
  | .notBuckets => "Diff must be a dict."
  | .bucketNames found expected =>
    s!"Diff buckets {(Value.list found).inspect} do not match {(Value.list expected).inspect}."
  | .notNodeList kind => s!"Node bucket must be a list, not <class '{qualifiedName kind}'>."
  | .notNode item => s!"Item '{item.toText}' is not a node."
  | .incompleteNode members =>
    s!"Node '{(Value.map members).inspect}' needs both a path and a value."
  | .repeatedPath path => s!"Path '{path}' appears twice in one bucket."
  | .notPatchable kind => s!"Invalid object type to patch: {kind.name}"
  | .nameTooLong name limit =>
    s!"Attribute name: [{name}] exceeds DynamoDB limit of [{limit}]"
  | .ambiguousVersion current =>
    "Invalid arguments. Must specify [new_version] for non-numeric current version: " ++
      s!"[{current.inspect}]"
  | .missingVersion path => s!"No new version value found at [{path}] in the modified document"
  | .unknownCondition condition =>
    s!"Invalid condition {condition.inspect}, expecting one of =, <, <=, >, >=, <>"
  | .unknownNullMode mode =>
    s!"Not valid value for `on_null`: {mode.inspect}. Valid values are \"empty\" or \"none\""
  | .unknownProgram name =>
    s!"Config for entrypoint name {name.inspect} is not defined! " ++
      "Accepted values are ['ddbdiff', 'ddbexpr']."
  | .unknownConfigVersion version =>
    s!"Unknown version of JSON config file: {version.toText}"
  | .notPair position length =>
    s!"dictionary update sequence element #{position} has length {length}; 2 is required"
  | .wrongKind => "The operation does not apply to a value of this kind"
  | .unsupported => "The value does not offer the operation"
  | .missingMember => "A required member is missing"
  | .missingElement => "The list has no such element"
  | .outOfRange => "The number is too large"
  | .outOfMemory => "The list does not fit into memory"
  | .decimal .invalid => "The decimal operation is invalid"
  | .decimal .overflow => "The decimal is out of range"
  | .missingFile => "The file does not exist"
  | .isDirectory => "The file is a directory"
  | .notDirectory => "Part of the path is not a directory"
  | .fileNameTooLong => "The file name is too long"
  | .brokenFileName => "embedded null byte"
  | .negativeDescriptor => "negative file descriptor"
  | .notOpen => "No open file has this number"

end Error

end ItemDelta
