/-!
# Levels of log lines

A level is a text. Five texts, in either case, name a level with a rank and a colour; all other texts rank
with `info`.
-/

namespace ChipEight.Log

inductive Level where
  | debug | info | warning | error | critical
deriving DecidableEq, Repr

namespace Level

def all : List Level := [debug, info, warning, error, critical]

def name : Level → String
  | .debug => "DEBUG"
  | .info => "INFO"
  | .warning => "WARNING"
  | .error => "ERROR"
  | .critical => "CRITICAL"

def rank : Level → Nat
  | .debug => 0
  | .info => 1
  | .warning => 2
  | .error => 3
  | .critical => 4

/-- The terminal sequence that switches to the colour of a level. -/
def color : Level → String
  | .debug => "\x1b[36m"
  | .info => "\x1b[32m"
  | .warning => "\x1b[33m"
  | .error => "\x1b[31m"
  | .critical => "\x1b[35m"

/-- The small letters without a dot belong to the same capital as those with one. -/
def upper (c : Char) : Char := if c = 'ı' then 'I' else c.toUpper

def ofName? (text : String) : Option Level :=
  let capitals := text.map upper
  all.find? (·.name == capitals)

end Level

def resetColor : String := "\x1b[0m"

def rankOf (level : String) : Nat := ((Level.ofName? level).map Level.rank).getD 1

def colorOf (level : String) : String := ((Level.ofName? level).map Level.color).getD ""

end ChipEight.Log
