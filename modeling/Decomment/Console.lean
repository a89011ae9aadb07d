import Decomment.Text.Extending
import Decomment.Text.Invisible
import Decomment.Tree

/-!
# What a command says

A command prints lines, complains, and logs.  Printed text is made of spans with a style; a style
shows only where colours are wanted.  Of the log, warnings are always shown and the rest only if
asked for.

**Results.**
* `showLine_false`: without colours a line is its text.
-/

namespace Decomment

/-- How a span of printed text looks. -/
inductive Style
  | plain
  | red
  | green
  | yellow
  | blue
  | cyan
  | gray
  | dimmed
  | struck
deriving DecidableEq, Repr

/-- A piece of printed text in one style. -/
structure Span where
  style : Style
  text : Text
deriving DecidableEq, Repr

abbrev Line := List Span

/-- How much a log message matters. -/
inductive Level
  | debug
  | info
  | warning
deriving DecidableEq, Repr

/-- One thing that a command says. -/
inductive Event
  | print (line : Line)
  | complain (text : String)
  | log (level : Level) (message : String)
deriving DecidableEq, Repr

/-- What a command leaves behind: the tree, what it said, and why it failed, if it did. -/
structure Report where
  tree : Tree
  events : List Event
  failure : Option Failure

namespace Span

def plain (s : String) : Span :=
  ⟨.plain, s.toList⟩

end Span

namespace Event

def say (s : String) : Event :=
  .print [Span.plain s]

end Event

namespace Console

section Styles

/-- The codes that switch a style on. -/
def codes : Style → Text
  | .plain => []
  | .red => "31".toList
  | .green => "32".toList
  | .yellow => "33".toList
  | .blue => "34".toList
  | .cyan => "36".toList
  | .gray => "90".toList
  | .dimmed => "2".toList
  | .struck => "9;31".toList

/-- The sequence that switches codes on. -/
def switch (codes : Text) : Text :=
  '\x1b' :: '[' :: codes ++ ['m']

/-- The text with `start` put in after every sequence that switches all styles off. -/
def reopen (start : Text) : Text → Text
  | '\x1b' :: '[' :: '0' :: 'm' :: t => switch ['0'] ++ start ++ reopen start t
  | c :: t => c :: reopen start t
  | [] => []

/-- A span with or without colours. -/
def showSpan (color : Bool) (s : Span) : Text :=
  if color && s.style ≠ .plain then
    let start := switch (codes s.style)
    start ++ reopen start s.text ++ switch ['0']
  else s.text

/-- A line with or without colours. -/
def showLine (color : Bool) (l : Line) : Text :=
  l.flatMap (showSpan color)

theorem showSpan_false : showSpan false = Span.text := by
  funext s
  simp [showSpan]

theorem showLine_false (l : Line) : showLine false l = l.flatMap Span.text := by
  rw [showLine, showSpan_false]

end Styles

section Messages

/-- Two hexadecimal digits. -/
def hexByte (n : Nat) : Text :=
  [Text.hexDigit (n / 16 % 16), Text.hexDigit (n % 16)]

/-- A character of a log message.  What a terminal might obey is escaped. -/
def showLogged (c : Char) : Text :=
  let n := c.toNat
  if n = 0x1b || n = 0x07 || n = 0x08 || n = 0x0c || n = 0x7f then '\\' :: 'x' :: hexByte n
  else if 0x80 ≤ n && n ≤ 0x9f then '\\' :: 'u' :: '\x7b' :: hexByte n ++ ['\x7d']
  else [c]

/-- A character of a quoted field.  What does not show, or not by itself, is escaped. -/
def quoteChar (c : Char) : Text :=
  if c = '\x22' || c = '\\' then ['\\', c]
  else if c = '\n' then ['\\', 'n']
  else if c = '\r' then ['\\', 'r']
  else if c = '\t' then ['\\', 't']
  else if c.toNat = 0 then ['\\', '0']
  else if Text.isShapeless c || Text.isExtending c then
    '\\' :: 'u' :: '\x7b' :: Nat.toDigits 16 c.toNat ++ ['\x7d']
  else [c]

/-- The text in quotes, with escapes for what does not show. -/
def quote (s : String) : String :=
  String.ofList ('\x22' :: s.toList.flatMap quoteChar ++ ['\x22'])

/-- The name of a level, in five places. -/
def levelName : Level → Text
  | .debug => "DEBUG".toList
  | .info => " INFO".toList
  | .warning => " WARN".toList

def isShown (verbose : Bool) (level : Level) : Bool :=
  verbose || level = .warning

end Messages

section Streams

/-- What an event puts on standard output. -/
def outputOf (color : Bool) : Event → Text
  | .print l => showLine color l ++ ['\n']
  | _ => []

/-- What an event puts on standard error. -/
def errorOf (verbose : Bool) : Event → Text
  | .complain s => s.toList ++ ['\n']
  | .log level s =>
      if isShown verbose level then
        levelName level ++ ' ' :: s.toList.flatMap showLogged ++ ['\n']
      else []
  | .print _ => []

/-- The events in the order of what they put on standard error. -/
def sortByError (es : List Event) : List Event :=
  let key (e : Event) := String.ofList (errorOf true e)
  es.mergeSort fun e f => !(key f < key e)

/-- The standard output of some events. -/
def output (color : Bool) (es : List Event) : Text :=
  es.flatMap (outputOf color)

/-- The standard error of some events. -/
def errors (verbose : Bool) (es : List Event) : Text :=
  es.flatMap (errorOf verbose)

end Streams

end Console
end Decomment
