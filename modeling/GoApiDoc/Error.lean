/-
What can go wrong while a document is built.

An error is a cause with the data that it is about; the wording of every message is in `message`.

* `Malformed` — an annotation, a tag or a setting that cannot be read;
* `DocError` — all errors;
* `DocError.inComment` — adding the annotation line to the message of a malformed annotation.
-/

import GoApiDoc.Go.Token
import GoApiDoc.Text.Blank

set_option autoImplicit false

namespace GoApiDoc

/-- What is wrong with an annotation, a tag or a setting. -/
inductive Malformed where
  | untypedField (name : String)
  | notANumber (key value : String)
  | notAnInteger (key value : String)
  | enumNames (expected got : Nat)
  | validationBound (value : String)
  | valueOfType (value type : String)
  | exampleType (type value : String)
  | examplePair (value : String)
  | emptyCustomType
  /-- A custom type that ends after `primitive`. -/
  | customPrimitive
  /-- A custom type that ends after `array`. -/
  | customArray
  | customType (word : String)
  | claimedName (name first second : String)
  | tagDocsFirst (word : String)
  | tagNameFirst (word : String)
  | collectionFormat (value : String)
  | missingValue (word : String)
  | securityKind (kind : String)
  | securityName (kind : String)
  | securityDetail (kind name missing : String)
  | mediaType (entry : String)
  | response (line : String)
  | attributeNumber (value name : String)
  | attributeLength (value name : String)
  | formatOfScalar
  | attributeFormat (value : String)
  | router (line : String)
  | method (text : String)
  | codeSamples (summary : String)
  | param (line : String)
  | arrayParam (type place : String)
  | paramType (type place : String)
  | paramPlace (place : String)
  | responseType (line kind : String)
  | header (line : String)
  | responseKind (kind : String)
  | compositeType (text : String)
  /-- A file beside the sources is needed and no directory is known for it. -/
  | noDirectory (what file : String)
  | noFile (what file dir : String)
  | noText (what name : String)
  | noSearchDirectory
  | inComment (cause : Malformed) (line : String)
deriving DecidableEq

namespace Malformed

/-- The text of the error.  That of unreadable code samples ends with the colon. -/
def message : Malformed → String
  | untypedField name => "invalid type for field: " ++ name
  | notANumber key value => key ++ " value " ++ Text.quoted value ++ " is not a number"
  | notAnInteger key value => key ++ " value " ++ Text.quoted value ++ " is not an integer"
  | enumNames expected got =>
    s!"invalid count of x-enum-varnames. expected {expected}, got {got}"
  | validationBound value => "invalid validation bound " ++ Text.quoted value
  | valueOfType value type => value ++ " is not a valid " ++ type ++ " type"
  | exampleType type value => type ++ " is unsupported type in example value " ++ value
  | examplePair value => "example value " ++ value ++ " should format: key:value"
  | emptyCustomType => "empty swaggertype"
  | customPrimitive => "need primitive type after primitive"
  | customArray => "need array item type after array"
  | customType word => word ++ " is not supported type"
  | claimedName name first second =>
    "definition name " ++ name ++ " is claimed by both " ++ first ++ " and " ++ second
  | tagDocsFirst word => word ++ " needs to come after a @tag.docs.url"
  | tagNameFirst word => word ++ " needs to come after a @tag.name"
  | collectionFormat value => value ++ " is not a valid collection format"
  | missingValue word => "annotation " ++ word ++ " need a value"
  | securityKind kind => "unknown security definition type " ++ kind
  | securityName kind => kind ++ " needs a name"
  | securityDetail kind name missing =>
    kind ++ " " ++ name ++ " is missing required attribute " ++ missing
  | mediaType entry => entry ++ " is not a known mime type"
  | response line => "can not parse response comment \"" ++ line ++ "\""
  | attributeNumber value name => value ++ " is not a valid number for " ++ name
  | attributeLength value name => value ++ " is not a valid length for " ++ name
  | formatOfScalar => "collectionFormat is only allowed for array parameters"
  | attributeFormat value => value ++ " is not a valid collectionFormat"
  | router line => "can not parse router comment \"" ++ line ++ "\""
  | method text => "invalid method: " ++ text
  | codeSamples summary => "invalid code samples for '" ++ summary ++ "':"
  | param line => "missing required param comment parameters \"" ++ line ++ "\""
  | arrayParam type place => type ++ " is not supported array type for " ++ place
  | paramType type place => type ++ " is not supported type for " ++ place
  | paramPlace place => place ++ " is not supported paramType"
  | responseType line kind =>
    "response comment \"" ++ line ++ "\" has no type after " ++ kind
  | header line => "can not parse header comment \"" ++ line ++ "\""
  | responseKind kind => "\x7b" ++ kind ++ "\x7d is not a supported response kind"
  | compositeType text => "invalid type: " ++ text
  | noDirectory what file => "no " ++ what ++ " directory is configured for " ++ file
  | noFile what file dir => "unable to find " ++ what ++ " file " ++ file ++ " in " ++ dir
  | noText what name => "no " ++ what ++ " " ++ name
  | noSearchDirectory => "at least one search directory is required"
  | inComment (codeSamples summary) _ => "invalid code samples for '" ++ summary ++ "':"
  | inComment cause line => cause.message ++ " in comment " ++ Text.quoted (Text.trim line)

end Malformed

/-- Everything that can go wrong while a document is built. -/
inductive DocError where
  | unresolvedType (name : String)
  | recursiveStruct (chain : List String)
  | malformed (cause : Malformed)
  | mismatch (constraint type : String)
  | unsupportedField (type : String)
  | skippedField (type : String)
  | source (path : String) (cause : Go.SourceError)
  | duplicateRoute (method path : String)
  | duplicateOperationId (id : String)
  | dependency (text : String)
  | io (path text : String)
  | endless
deriving DecidableEq

namespace DocError

def message : DocError → String
  | unresolvedType name => "cannot find type definition: " ++ name
  | recursiveStruct chain => "recursively parsing struct: " ++ " -> ".intercalate chain
  | malformed cause => cause.message
  | mismatch constraint type => constraint ++ " is not supported for " ++ type ++ " field"
  | unsupportedField type => "unsupported field type: " ++ type
  | skippedField type => "field skipped: " ++ type
  | source path cause => "failed to parse " ++ path ++ ": " ++ cause.message
  | duplicateRoute method path =>
    "route " ++ method ++ " " ++ path ++ " is declared multiple times"
  | duplicateOperationId id => "duplicated @id annotation '" ++ id ++ "'"
  | dependency text => "dependency listing failed: " ++ text
  | io path text => "IO error on " ++ path ++ ": " ++ text
  | endless => "declarations refer to each other without end"

/-- Adds the annotation line to the error when it is about the annotation. -/
def inComment (line : String) : DocError → DocError
  | malformed cause => malformed (.inComment cause line)
  | e => e

end DocError

end GoApiDoc
