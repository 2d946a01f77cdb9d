import SolanaSdk.JsonAccess

/-!
JSON texts as trees that keep their spaces. What keys, strings and numbers look
like is left to a lexicon: the structure of a text and the places of its values
do not depend on it.
-/

namespace SolanaSdk.JsonGrammar

open ByteData JsonText JsonAccess

structure Space where
  chars : Text
  blank : ∀ c ∈ chars, isBlank c = true

/-- Keys, string contents and numbers with their spellings, without the quotes. -/
structure Lexicon where
  Key : Type
  Content : Type
  Number : Type
  keyText : Key → Text
  contentText : Content → Text
  numberText : Number → Text

/-- A member's key with its colon and the spaces around both. -/
structure Name (words : Lexicon) where
  before : Space
  key : words.Key
  between : Space
  after : Space

mutual

inductive Doc (words : Lexicon) where
  | null
  | bool (flag : Bool)
  | number (token : words.Number)
  | string (content : words.Content)
  | emptyArray (space : Space)
  | array (items : Items words)
  | emptyObject (space : Space)
  | object (members : Members words)

inductive Items (words : Lexicon) where
  | last (before : Space) (value : Doc words) (after : Space)
  | more (before : Space) (value : Doc words) (after : Space) (rest : Items words)

inductive Members (words : Lexicon) where
  | last (name : Name words) (value : Doc words) (after : Space)
  | more (name : Name words) (value : Doc words) (after : Space) (rest : Members words)

end

variable {words : Lexicon}

def quoted (body : Text) : Text := quote :: (body ++ [quote])

def enclosed (opening closing : UInt8) (inner : Text) : Text := opening :: (inner ++ [closing])

def Name.text (name : Name words) : Text :=
  name.before.chars ++ (quoted (words.keyText name.key) ++
    (name.between.chars ++ (colon :: name.after.chars)))

mutual

def Doc.text : Doc words → Text
  | .null => nullWord
  | .bool flag => if flag then trueWord else falseWord
  | .number token => words.numberText token
  | .string content => quoted (words.contentText content)
  | .emptyArray space => enclosed openBracket closeBracket space.chars
  | .array items => enclosed openBracket closeBracket items.text
  | .emptyObject space => enclosed openBrace closeBrace space.chars
  | .object members => enclosed openBrace closeBrace members.text

def Items.text : Items words → Text
  | .last before value after => before.chars ++ (value.text ++ after.chars)
  | .more before value after rest =>
      before.chars ++ (value.text ++ (after.chars ++ (comma :: rest.text)))

def Members.text : Members words → Text
  | .last name value after => name.text ++ (value.text ++ after.chars)
  | .more name value after rest =>
      name.text ++ (value.text ++ (after.chars ++ (comma :: rest.text)))

end

def Items.values : Items words → List (Doc words)
  | .last _ value _ => [value]
  | .more _ value _ rest => value :: rest.values

/-- The members in the order of the text, under the spelling of their keys. -/
def Members.entries : Members words → List (Text × Doc words)
  | .last name value _ => [(words.keyText name.key, value)]
  | .more name value _ rest => (words.keyText name.key, value) :: rest.entries

/-- Induction along the items of one array; the nodes in it are arbitrary. -/
theorem Items.along {motive : Items words → Prop}
    (last : ∀ before value after, motive (.last before value after))
    (more : ∀ before value after rest, motive rest → motive (.more before value after rest)) :
    ∀ items, motive items
  | .last before value after => last before value after
  | .more before value after rest => more before value after rest (Items.along last more rest)

theorem Members.along {motive : Members words → Prop}
    (last : ∀ name value after, motive (.last name value after))
    (more : ∀ name value after rest, motive rest → motive (.more name value after rest)) :
    ∀ members, motive members
  | .last name value after => last name value after
  | .more name value after rest => more name value after rest (Members.along last more rest)

namespace Doc

def kind : Doc words → Kind
  | .null => .null
  | .bool _ => .bool
  | .number _ => .number
  | .string _ => .string
  | .emptyArray _ | .array _ => .array
  | .emptyObject _ | .object _ => .object

def flag : Doc words → Bool
  | .bool flag => flag
  | _ => false

def values : Doc words → List (Doc words)
  | .array items => items.values
  | _ => []

def entries : Doc words → List (Text × Doc words)
  | .object members => members.entries
  | _ => []

/-- The node under a key or an index; the first one where a key is repeated. -/
def child (doc : Doc words) : Access → Option (Doc words)
  | .key key => (doc.entries.find? (·.1 == key.chars)).map (·.2)
  | .index index => doc.values[index]?

def follow (doc : Doc words) (path : List Access) : Option (Doc words) := path.foldlM child doc

/-- The value that stands for a node whose text starts at `pos`. -/
def valueAt (doc : Doc words) (pos : Nat) : JsonValue :=
  ⟨doc.kind, true, pos, pos + doc.text.length, doc.flag⟩

end Doc

end SolanaSdk.JsonGrammar
