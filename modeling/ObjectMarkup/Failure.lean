import ObjectMarkup.Markup.Event
import ObjectMarkup.Value.Basic

/-!
# Failures

Everything that can end a compilation. The first failure ends it; there is no partial result.
-/

set_option autoImplicit false

namespace ObjectMarkup

/-- What can be wrong with the structure of a document whose markup is in order. -/
inductive StructureFault where
  | unknownObject (id : ObjectId)
  | strayAttribute (name : String)
  | unclosedElement (type : String)
  | noRoot
  | secondRoot (tag : String)
  | nestedDeclaration (name tag : String)
  | propertyTagAttributes (tag : String)
  | propertyTagOutside (tag : String)
  | propertyTagInProperty (tag property : String)
  | propertyTagAfterText (tag : String)
  | foreignPropertyTag (tag type : String)
  | foreignAttribute (name space : String)
  | unknownMetadata (name : String)
  | strayText
  | secondText (type : String)
  | noOpenElement
  | strayEnd
deriving DecidableEq, Repr

/-- The text of a fault in the structure of the events. -/
def StructureFault.message : StructureFault → String
  | .unknownObject id => s!"object {id.text} is not in the graph"
  | .strayAttribute name => s!"attribute `{name}` outside a start tag"
  | .unclosedElement type => s!"element `{type}` is never closed"
  | .noRoot => "document has no root element"
  | .secondRoot tag => s!"second root element `{tag}`"
  | .nestedDeclaration name tag =>
    s!"namespace declaration `{name}` on non-root element `{tag}`"
  | .propertyTagAttributes tag => s!"property tag `{tag}` cannot carry attributes"
  | .propertyTagOutside tag => s!"property tag `{tag}` outside an element"
  | .propertyTagInProperty tag property =>
    s!"property tag `{tag}` inside open property `{property}`"
  | .propertyTagAfterText tag => s!"property tag `{tag}` after text content"
  | .foreignPropertyTag tag type => s!"property tag `{tag}` does not belong to `{type}`"
  | .foreignAttribute name space =>
    s!"attribute `{name}` belongs to namespace `{space}`; " ++
      "only metadata attributes may be prefixed"
  | .unknownMetadata name => s!"unknown metadata attribute `{name}`"
  | .strayText => "text outside the root element"
  | .secondText type => s!"element `{type}` has more than one text run"
  | .noOpenElement => "no open element"
  | .strayEnd => "end tag without an open element"

/-- Why a compilation ended without a document. -/
inductive Failure where
  | markup (fault : Markup.Fault)
  | structural (fault : StructureFault)
  | unknownQualifier (qualifier : String)
  | typeNotFound (name : String) (spaces : List String)
  | extensionNotFound (name : String) (spaces : List String)
  | ambiguousType (name space : String) (count : Nat)
  | propertyNotFound (owner property : String)
  | unsupportedConversion (value : Value) (source target : ValueType)
  | notAMember (value enumeration : String)
  | invalidLiteral (value : String) (target : ValueType) (reason : String)
  | converterFailed (owner : String) (value : Value) (target : ValueType) (reason : String)
  | missingKey (owner property : String)
  | duplicateIdentifier (id : String)
  | unresolvedReferences (missing : List String)
  | ambiguousMetadata (owner metadata : String)
  | invalidExtension (name reason : String)
  | deferredAfterEnd (expression : String)
  | deferredProduct (owner expression : String)
  | notConstructible (name : String)
  | instanceMismatch (owner : String) (object : ObjectId)
  | rootType (found : String)
  | cancelled
deriving DecidableEq

namespace Failure

/-- The groups that failures fall into. -/
inductive Kind where
  | markup
  | structural
  | typeResolution
  | propertyNotFound
  | conversion
  | missingKey
  | duplicateIdentifier
  | unresolvedReference
  | ambiguousMetadata
  | extension
  | instantiation
  | rootType
  | cancelled
deriving DecidableEq, Repr

/-- The group to which a failure belongs. -/
def kind : Failure → Kind
  | .markup _ => .markup
  | .structural _ => .structural
  | .unknownQualifier _ => .typeResolution
  | .typeNotFound _ _ => .typeResolution
  | .extensionNotFound _ _ => .typeResolution
  | .ambiguousType _ _ _ => .typeResolution
  | .propertyNotFound _ _ => .propertyNotFound
  | .unsupportedConversion _ _ _ => .conversion
  | .notAMember _ _ => .conversion
  | .invalidLiteral _ _ _ => .conversion
  | .converterFailed _ _ _ _ => .conversion
  | .missingKey _ _ => .missingKey
  | .duplicateIdentifier _ => .duplicateIdentifier
  | .unresolvedReferences _ => .unresolvedReference
  | .ambiguousMetadata _ _ => .ambiguousMetadata
  | .invalidExtension _ _ => .extension
  | .deferredAfterEnd _ => .extension
  | .deferredProduct _ _ => .extension
  | .notConstructible _ => .instantiation
  | .instanceMismatch _ _ => .instantiation
  | .rootType _ => .rootType
  | .cancelled => .cancelled

/-- The text of a failure. -/
def message : Failure → String
  | .markup fault => fault.text
  | .structural fault => "syntax error: " ++ fault.message
  | .unknownQualifier qualifier => s!"namespace prefix `{qualifier}` is not declared"
  | .typeNotFound name spaces => s!"type `{name}` not found in namespaces " ++ listed spaces
  | .extensionNotFound name spaces =>
    s!"markup extension `{name}` not found in namespaces " ++ listed spaces
  | .ambiguousType name space count =>
    s!"`{name}` matches " ++ toString count ++ s!" types in namespace `{space}`"
  | .propertyNotFound owner property => s!"type `{owner}` has no property `{property}`"
  | .unsupportedConversion value source target =>
    s!"cannot convert {value.shown} ({source.text}) to {target.text}"
  | .notAMember value enumeration =>
    s!"`{value}` is not a member of enumeration `{enumeration}`"
  | .invalidLiteral value target reason => s!"cannot parse `{value}` as {target.text}: {reason}"
  | .converterFailed owner value target reason =>
    s!"converter of `{owner}` failed to convert {value.shown} to {target.text}: {reason}"
  | .missingKey owner property =>
    s!"element assigned to keyed property `{owner}.{property}` declares no key"
  | .duplicateIdentifier id => s!"identifier `{id}` is declared more than once"
  | .unresolvedReferences missing => "unresolved references to " ++ listed missing
  | .ambiguousMetadata owner metadata => s!"type `{owner}` declares more than one {metadata}"
  | .invalidExtension name reason =>
    s!"markup extension `{name}` rejected its arguments: {reason}"
  | .deferredAfterEnd expression =>
    s!"`{expression}` requested deferral after the document was complete"
  | .deferredProduct owner expression =>
    s!"`{expression}` inside `{owner}` is still waiting on an identifier " ++
      "when the element closes"
  | .notConstructible name => s!"type `{name}` has no constructor"
  | .instanceMismatch owner object => s!"object {object.text} is not an instance of `{owner}`"
  | .rootType found => "document root is " ++ found
  | .cancelled => "compilation cancelled"
where
  listed (names : List String) : String := "[" ++ ", ".intercalate names ++ "]"

end Failure

end ObjectMarkup
