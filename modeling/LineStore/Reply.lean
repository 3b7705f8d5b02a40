import LineStore.Text.Utf8

/-!
# Replies

Every request line gets one reply line.  A found value is sent bare; the other
replies are fixed texts, one of them followed by the refused value.

`Reply.wire` is what goes over the connection, `Reply.text` what a person is
shown.
-/

namespace LineStore

/-- The answer to one request line. -/
inductive Reply
  /-- The key was bound or removed. -/
  | ok
  /-- The value bound to the key. -/
  | value (value : Bytes)
  /-- The key is not bound. -/
  | notFound
  /-- The value may not be stored. -/
  | reservedKeyword (value : Bytes)
  /-- The line was no request. -/
  | invalidInput
  deriving DecidableEq, Repr

namespace Reply

def okText : String := "OK"

def notFoundText : String := "NOT FOUND"

def invalidInputText : String := "INVALID INPUT"

/-- What a reply that refuses a reserved value starts with. -/
def reservedKeywordText : String := "RESERVED KEYWORD"

/-- The reply line without its newline. -/
def body : Reply → Bytes
  | ok => Utf8.ofString okText
  | value v => v
  | notFound => Utf8.ofString notFoundText
  | reservedKeyword v => Utf8.ofString reservedKeywordText ++ Utf8.ofString " " ++ v
  | invalidInput => Utf8.ofString invalidInputText

/-- The reply line as sent. -/
def wire (reply : Reply) : Bytes :=
  reply.body ++ [Bytes.newline]

def text (reply : Reply) : String :=
  Utf8.decodeLossy reply.body

def isError : Reply → Bool
  | ok => false
  | value _ => false
  | notFound => true
  | reservedKeyword _ => true
  | invalidInput => true

end Reply

end LineStore
