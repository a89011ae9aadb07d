import Decomment.Configuration
import Decomment.DryRun

/-!
# Commands on the configuration

**Results.**
* `create_of_holds`: an example is never written over what is there.
-/

namespace Decomment
namespace Configuration

section Example

/-- The lines of an example configuration. -/
def exampleLines : List String :=
  ["# Shush Configuration",
   "# Patterns to preserve in comments (supports wildcards with *)",
   "preserve = [",
   "    \"TODO:\",",
   "    \"FIXME:\",",
   "    \"HACK:\",",
   "    \"XXX:\",",
   "    \"@ts-ignore\",",
   "    \"@ts-expect-error\",",
   "    \"eslint-\",",
   "    \"prettier-ignore\",",
   "    \"pylint:\",",
   "    \"mypy:\",",
   "    \"type: ignore\",",
   "    \"*IMPORTANT*\",   # preserves any comment containing IMPORTANT",
   "    \"*DEBUG*\",       # preserves any comment containing DEBUG",
   "]",
   "",
   "# Lines of surrounding context shown by --dry-run",
   "context_lines = 0"]

/-- The text of an example configuration. -/
def exampleText : Text :=
  Text.unlines (exampleLines.map String.toList)

/-- Writes an example configuration into the current directory, where there is none. -/
def create (tree : Tree) (place : Place) : Report :=
  let path := Path.join place.cwd.path fileName
  if tree.holds place.cwd path then ⟨tree, [], some (.configExists path)⟩
  else
    match tree.writeText place.cwd path exampleText with
    | .error e => ⟨tree, [], some (.unwritable path e)⟩
    | .ok tree =>
        ⟨tree,
          [.say ("✓ Created " ++ path),
           .say "  Edit this file to customize which comments to preserve",
           .say "  Patterns support wildcards with * (e.g., '*IMPORTANT*')"], none⟩

theorem create_of_holds {tree : Tree} {place : Place}
    (h : tree.holds place.cwd (Path.join place.cwd.path fileName) = true) :
    (create tree place).tree = tree := by
  simp [create, h]

end Example

section Listing

/-- The patterns with their numbers, from `n` on. -/
def numbered (n : Nat) : List String → List Event
  | [] => []
  | p :: ps =>
      .say ("  " ++ String.ofList (DryRun.pad 2 n) ++ ". " ++ p) :: numbered (n + 1) ps

/-- Shows the configuration that holds here, and where it comes from. -/
def list (tree : Tree) (place : Place) : Report :=
  match loadNearest tree place with
  | .error e => ⟨tree, [], some e⟩
  | .ok (c, path) =>
      ⟨tree,
        [.say "Shush Configuration:",
         .say ("Config file: " ++ path.getD "Using defaults (no config file found)"),
         .say ("\nPreserve patterns (" ++ DryRun.showNat c.preserve.length ++ "):")]
        ++ numbered 1 c.preserve
        ++ [.say ("\nContext lines: " ++ DryRun.showNat c.contextLines),
            .say "\nConfig file search order:",
            .say ("  1. " ++ fileName ++ " (current directory)"),
            .say ("  2. " ++ fileName ++ " (git repository root)"),
            .say ("  3. ~/.config/" ++ fileName ++ " (global)")], none⟩

end Listing

end Configuration
end Decomment
