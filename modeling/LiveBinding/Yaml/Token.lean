/-
# LiveBinding.Yaml.Token -- the pieces of a YAML text, and its faults

The part of YAML that configurations are written in: mappings and sequences in
block and in flow style, scalars that are plain, in single or double quotes,
literal or folded, comments, and the marks between documents.  Anchors, aliases,
tags and directives are not part of it.
-/
namespace LiveBinding.Yaml

set_option autoImplicit false

/-- A piece of a YAML text.  Starts and ends of block collections are pieces
too, although only indentation shows them. -/
inductive Token where
  | documentStart
  | documentEnd
  | blockSequenceStart
  | blockMappingStart
  | blockEnd
  | flowSequenceStart
  | flowSequenceEnd
  | flowMappingStart
  | flowMappingEnd
  | blockEntry
  | flowEntry
  | key
  | value
  /-- The text of a scalar, and whether it is plain. -/
  | scalar (plain : Bool) (text : String)
  deriving DecidableEq

/-- What is wrong with a YAML text. -/
inductive Fault where
  | controlCharacter
  | unexpectedCharacter (c : Char)
  | unexpectedEnd
  | unexpectedDocumentMark
  | unknownEscape
  | invalidCodePoint
  | tabAsIndentation
  | invalidBlockHeader
  | keyWithoutColon
  | entryNotAllowed
  | valueNotAllowed
  | expectedNode
  | expectedEntry
  | expectedKey
  | expectedCommaOrBracket
  | expectedCommaOrBrace
  | expectedDocumentStart
  | severalDocuments
  deriving DecidableEq

/-- The wording of a fault. -/
def Fault.message : Fault → String
  | .controlCharacter => "control characters are not allowed"
  | .unexpectedCharacter c => "found unexpected character '" ++ c.toString ++ "'"
  | .unexpectedEnd => "found unexpected end of text"
  | .unexpectedDocumentMark => "found unexpected document mark"
  | .unknownEscape => "found unknown escape"
  | .invalidCodePoint => "found an escape that is no character"
  | .tabAsIndentation => "found a tab where indentation is expected"
  | .invalidBlockHeader => "found an invalid block scalar header"
  | .keyWithoutColon => "could not find expected ':'"
  | .entryNotAllowed => "sequence entries are not allowed here"
  | .valueNotAllowed => "mapping values are not allowed here"
  | .expectedNode => "did not find expected node"
  | .expectedEntry => "did not find expected '-'"
  | .expectedKey => "did not find expected key"
  | .expectedCommaOrBracket => "did not find expected ',' or ']'"
  | .expectedCommaOrBrace => "did not find expected ',' or '\x7d'"
  | .expectedDocumentStart => "did not find expected document start"
  | .severalDocuments => "there is more than one document"

end LiveBinding.Yaml
