import LinkedSchema.Json.Token

/-!
# Drafts

A draft is the tree of values that a text holds as far as it can be followed. Faults are kept in
their places, so that a reader that goes through the draft from left to right meets first what
comes first in the text, and decides by itself which values it uses and which it skips.
-/

namespace LinkedSchema

/-- The values of a text, with faults where the text is not JSON. -/
inductive Draft
  | atom (lexeme : Lexeme Atom)
  | text (lexeme : Lexeme String)
  /-- Items in order. Every comma is followed by an item, be it a missing one; `cut` is the fault
  met where a comma or the end of the array should stand. -/
  | array (items : List Draft) (cut : Option Fault)
  /-- Members in order, with the same rule. -/
  | object (members : List (Lexeme String × Draft)) (cut : Option Fault)
  /-- No value starts here. -/
  | missing (fault : Fault)

/-- A container that is still open, what it holds so far with the latest first. -/
inductive Frame
  | array (items : List Draft)
  | object (members : List (Lexeme String × Draft)) (key : Lexeme String)

/-- The container with one more value, closed or cut off. -/
def Frame.close : Frame → Draft → Option Fault → Draft
  | .array items, draft, cut => .array (draft :: items).reverse cut
  | .object members key, draft, cut => .object ((key, draft) :: members).reverse cut

namespace Draft

/-- The fault of a text in which the given tokens follow where something else should. -/
def faultAt : List Token → Fault
  | [] => .endOfText
  | _ :: _ => .malformed

/-- Closes the open containers around a draft with which the text ends. -/
def abandon (frames : List Frame) (draft : Draft) : Draft :=
  frames.foldl (fun draft frame => frame.close draft (some .malformed)) draft

mutual

/-- Reads a value within the open containers, the innermost first. The result is the outermost
value and the tokens that follow it. -/
def value (frames : List Frame) : List Token → Draft × List Token
  | .openArray :: .closeArray :: rest => after frames (.array [] none) rest
  | .openArray :: rest => value (.array [] :: frames) rest
  | .openObject :: .closeObject :: rest => after frames (.object [] none) rest
  | .openObject :: rest => key frames [] rest
  | .atom lexeme :: rest => after frames (.atom lexeme) rest
  | .text lexeme :: rest => after frames (.text lexeme) rest
  | tokens => (abandon frames (.missing (faultAt tokens)), [])

/-- Reads a key, its colon and its value within an object with the given members, the latest
first. -/
def key (frames : List Frame) (members : List (Lexeme String × Draft)) :
    List Token → Draft × List Token
  | .text lexeme :: .colon :: rest => value (.object members lexeme :: frames) rest
  | .text lexeme :: rest =>
    (abandon (.object members lexeme :: frames) (.missing (faultAt rest)), [])
  | tokens =>
    let fault := faultAt tokens
    (abandon (.object members (.broken fault fault) :: frames) (.missing fault), [])

/-- Goes on after a value within the open containers. -/
def after (frames : List Frame) (draft : Draft) (tokens : List Token) : Draft × List Token :=
  match frames, tokens with
  | [], tokens => (draft, tokens)
  | .array items :: frames, .comma :: rest => value (.array (draft :: items) :: frames) rest
  | .object members lexeme :: frames, .comma :: rest =>
    key frames ((lexeme, draft) :: members) rest
  | .array items :: frames, .closeArray :: rest =>
    after frames (.array (draft :: items).reverse none) rest
  | .object members lexeme :: frames, .closeObject :: rest =>
    after frames (.object ((lexeme, draft) :: members).reverse none) rest
  | frame :: frames, tokens => (abandon frames (frame.close draft (some (faultAt tokens))), [])

end

/-- The draft of a text and the tokens that follow its first value. -/
def ofText (s : String) : Draft × List Token :=
  value [] (Token.scan s.toList)

end Draft

end LinkedSchema
