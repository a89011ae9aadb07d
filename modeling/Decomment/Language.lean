import Decomment.Text.Blank
import Decomment.Failure
import Decomment.Keyed

/-!
# Languages and their comment markers

A file extension decides how comments are written.  A rule names a line marker, an alternate line
marker and a pair of block markers, each of which a language may lack: an absent line marker is
the empty text.

**Results.**
* `mem_rules_of_detect`: every extension that is accepted has one of the seven rules of the table.
-/

namespace Decomment

/-- The markers between which a block comment stands. -/
structure Delimiters (α : Type) where
  start : List α
  stop : List α
deriving DecidableEq, Repr

/-- The comment markers of a language.  An empty line marker stands for none. -/
structure Rule (α : Type) where
  line : List α
  altLine : List α
  block : Option (Delimiters α)
deriving DecidableEq, Repr

namespace Language

section Table

/-- Block comments as in C. -/
def slashStar : Delimiters Char :=
  ⟨['/', '*'], ['*', '/']⟩

/-- Comments of markup. -/
def angleDash : Delimiters Char :=
  ⟨['<', '!', '-', '-'], ['-', '-', '>']⟩

/-- Two dashes to the end of the line. -/
def dashes : Rule Char :=
  ⟨['-', '-'], [], none⟩

/-- A hash sign to the end of the line. -/
def hash : Rule Char :=
  ⟨['#'], [], none⟩

/-- A hash sign, or else a semicolon, to the end of the line. -/
def hashOrSemicolon : Rule Char :=
  ⟨['#'], [';'], none⟩

/-- Two slashes to the end of the line, and blocks as in C. -/
def slashes : Rule Char :=
  ⟨['/', '/'], [], some slashStar⟩

/-- Only blocks as in C. -/
def blocks : Rule Char :=
  ⟨[], [], some slashStar⟩

/-- Only the comments of markup. -/
def markup : Rule Char :=
  ⟨[], [], some angleDash⟩

/-- Two dashes to the end of the line, and blocks as in C. -/
def dashesAndBlocks : Rule Char :=
  ⟨['-', '-'], [], some slashStar⟩

/-- The extensions that are known, with the rule and the display name of each. -/
def table : List (String × Rule Char × String) :=
  [("lua", dashes, "Lua"),
   ("py", hash, "Python"), ("sh", hash, "Shell"), ("bash", hash, "Bash"), ("zsh", hash, "Zsh"),
   ("fish", hash, "Fish"), ("ps1", hash, "PowerShell"), ("r", hash, "R"),
   ("js", slashes, "JavaScript"), ("ts", slashes, "TypeScript"), ("jsx", slashes, "JSX"),
   ("tsx", slashes, "TSX"), ("go", slashes, "Go"), ("c", slashes, "C"), ("cpp", slashes, "C++"),
   ("cc", slashes, "C++"), ("cxx", slashes, "C++"), ("h", slashes, "C Header"),
   ("hpp", slashes, "C++ Header"), ("java", slashes, "Java"), ("cs", slashes, "C#"),
   ("rs", slashes, "Rust"), ("swift", slashes, "Swift"), ("kt", slashes, "Kotlin"),
   ("kts", slashes, "Kotlin Script"), ("dart", slashes, "Dart"), ("scala", slashes, "Scala"),
   ("php", slashes, "PHP"),
   ("css", blocks, "CSS"), ("scss", slashes, "SCSS"), ("sass", slashes, "Sass"),
   ("less", slashes, "Less"),
   ("html", markup, "HTML"), ("htm", markup, "HTML"), ("xml", markup, "XML"),
   ("svg", markup, "SVG"),
   ("rb", hash, "Ruby"), ("pl", hash, "Perl"), ("yml", hash, "YAML"), ("yaml", hash, "YAML"),
   ("toml", hash, "TOML"), ("ini", hashOrSemicolon, "INI"), ("conf", hash, "Config"),
   ("cfg", hash, "Config"), ("dockerfile", hash, "Dockerfile"), ("makefile", hash, "Makefile"),
   ("sql", dashesAndBlocks, "SQL")]

end Table

section Lookup

/-- The extension without leading dots and in lower case, ASCII letters only. -/
def normalize (ext : String) : String :=
  String.ofList ((ext.toList.dropWhile (· == '.')).map Char.toLower)

/-- The rule for a file extension, whose case and leading dots do not matter. -/
def detect (ext : String) : Except Failure (Rule Char) :=
  let ext := normalize ext
  if ext.isEmpty then .error .noExtension
  else
    match table.lookup ext with
    | some (rule, _) => .ok rule
    | none => .error (.unsupportedExtension ext)

/-- The display name of the language with an extension: an unknown one is its own name. -/
def name (ext : String) : String :=
  let ext := normalize ext
  match table.lookup ext with
  | some (_, name) => name
  | none => ext

/-- One line on the markers of a rule. -/
def describe (rule : Rule Char) : String :=
  let line (m : Text) : List String :=
    if m.isEmpty then [] else ["line (" ++ String.ofList m ++ ")"]
  let block : List String :=
    match rule.block with
    | some b => ["block (" ++ String.ofList b.start ++ " " ++ String.ofList b.stop ++ ")"]
    | none => []
  ", ".intercalate (line rule.line ++ line rule.altLine ++ block)

end Lookup

section Laws

/-- The rules that occur in the table. -/
def rules : List (Rule Char) :=
  [dashes, hash, slashes, blocks, markup, hashOrSemicolon, dashesAndBlocks]

theorem mem_rules_of_mem_table : ∀ e ∈ table, e.2.1 ∈ rules := by
  simp [table, rules]

theorem mem_rules_of_detect {ext : String} {rule : Rule Char} (h : detect ext = .ok rule) :
    rule ∈ rules := by
  simp only [detect] at h
  split at h
  · cases h
  · split at h
    · rename_i _ r n e
      cases h
      exact mem_rules_of_mem_table _ (Keyed.mem_of_lookup e)
    · cases h

end Laws

end Language
end Decomment
