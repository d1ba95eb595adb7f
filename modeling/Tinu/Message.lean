import Tinu.Basic
import Tinu.Lib.Printf

/-!
# Messages, tags and names (`message.c`, `names.c`)

A message is a priority, a text and a list of tags.  `formatD` is `%d`, `formatP` is `%p`.
-/

set_option autoImplicit false

namespace Tinu

/-! ## Priorities (`syslog.h`) -/

def LOG_EMERG : Int := 0
def LOG_ALERT : Int := 1
def LOG_CRIT : Int := 2
def LOG_ERR : Int := 3
def LOG_WARNING : Int := 4
def LOG_NOTICE : Int := 5
def LOG_INFO : Int := 6
def LOG_DEBUG : Int := 7

/-! ## Name tables (`names.c`) -/

/-- A `NameTable` entry. -/
structure NameEntry where
  key : Int
  name : CString
  length : Int
  deriving DecidableEq, Repr

/-- `tinu_lookup_key`, without the length; what it returns for a key that is not there is not a
string. -/
def tinuLookupKey (table : List NameEntry) (key : Int) : Option CString :=
  (table.find? fun e => e.key == key).map NameEntry.name

/-- `MessagePriority_names`. -/
def messagePriorityNames : List NameEntry :=
  [⟨LOG_EMERG, "emergency", 9⟩, ⟨LOG_ALERT, "alert", 5⟩, ⟨LOG_CRIT, "critical", 8⟩,
    ⟨LOG_ERR, "error", 5⟩, ⟨LOG_WARNING, "warning", 7⟩, ⟨LOG_NOTICE, "notice", 6⟩,
    ⟨LOG_INFO, "info", 4⟩, ⟨LOG_DEBUG, "debug", 5⟩]

/-- `msg_format_priority`; `none` when its assertion fails. -/
def msgFormatPriority (priority : Int) : Option CString :=
  if LOG_EMERG ≤ priority ∧ priority ≤ LOG_DEBUG then tinuLookupKey messagePriorityNames priority
  else none

/-! ## Tags -/

/-- `struct _MessageTag`. -/
structure MessageTag where
  tag : CString
  value : CString
  deriving DecidableEq, Repr

/-- `%d`. -/
def formatD (n : Int) : CString := Printf.decimal n

/-- `%p`. -/
def formatP (p : Ptr) : CString :=
  if p = NULL then "(nil)" else '0' :: 'x' :: Nat.toDigits 16 p

/-- `msg_tag_str`. -/
def msgTagStr (tag : CString) (string : CString) : MessageTag := ⟨tag, '"' :: string ++ ['"']⟩

/-- `msg_tag_int`. -/
def msgTagInt (tag : CString) (value : Int) : MessageTag := ⟨tag, formatD value⟩

/-- `msg_tag_ptr`. -/
def msgTagPtr (tag : CString) (ptr : Ptr) : MessageTag := ⟨tag, formatP ptr⟩

/-- `msg_tag_bool`. -/
def msgTagBool (tag : CString) (value : Bool) : MessageTag :=
  ⟨tag, if value then "true" else "false"⟩

/-! ## Messages -/

/-- `struct _Message`. -/
structure Message where
  priority : Int
  message : CString
  tags : List MessageTag
  deriving DecidableEq, Repr

/-- `msg_create`, `msg_vcreate`. -/
def msgCreate (priority : Int) (msg : CString) (tags : List MessageTag) : Message :=
  ⟨priority, msg, tags⟩

/-- `msg_append`, `msg_vappend`. -/
def msgAppend (self : Message) (tags : List MessageTag) : Message :=
  { self with tags := self.tags ++ tags }

end Tinu
