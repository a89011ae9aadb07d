import Decomment.Editor.Registry
import Decomment.Json.Reader
import Decomment.Json.Writer

/-!
# Settings as JSON

A member with a meaning may stand once in its object and must have its type; if it is missing, it
is empty.  Every other member is carried along: the last of a name counts.  Written, the members
with a meaning come first, and an absent timeout and an empty map of events are left out.

**Results.**
* `ofText_of_blank`: a blank text stands for empty settings.
-/

namespace Decomment
namespace Editor

open Json (Value Members)

section Reading

/-- The values of the members with a name. -/
def valuesOf (name : String) (ms : Members) : List Value :=
  (ms.filter (·.1 = name)).map (·.2)

/-- Reads the member with a name, or takes the value for its absence. -/
def member {α : Type} (name : String) (absent : α) (read : Value → Option α) (ms : Members) :
    Option α :=
  match valuesOf name ms with
  | [] => some absent
  | [v] => read v
  | _ => none

/-- The members with other names. -/
def unknown (known : List String) (ms : Members) : Keyed.Map String Value :=
  .ofList (Value.normalizeMembers (ms.filter fun m => !known.contains m.1))

/-- A string. -/
def readString : Value → Option String
  | .string s => some s
  | _ => none

/-- A timeout: seconds, or null for none. -/
def readTimeout : Value → Option (Option Nat)
  | .null => some none
  | .number (.natural n) => some (some n)
  | _ => none

/-- An array of values of one type. -/
def readArray {α : Type} (read : Value → Option α) : Value → Option (List α)
  | .array vs => vs.mapM read
  | _ => none

def readEntry : Value → Option Entry
  | .object ms => do
      let kind ← member "type" "" readString ms
      let command ← member "command" "" readString ms
      let timeout ← member "timeout" none readTimeout ms
      return ⟨kind, command, timeout, unknown ["type", "command", "timeout"] ms⟩
  | _ => none

def readGroup : Value → Option Group
  | .object ms => do
      let matcher ← member "matcher" "" readString ms
      let entries ← member "hooks" [] (readArray readEntry) ms
      return ⟨matcher, entries, unknown ["matcher", "hooks"] ms⟩
  | _ => none

/-- The groups of each event, of which the last of a name counts. -/
def readEvents : Value → Option (Keyed.Map String (List Group))
  | .object ms => do
      let events ← ms.mapM fun (event, v) => do
        let groups ← readArray readGroup v
        return (event, groups)
      return .ofList events
  | _ => none

/-- The settings that a value stands for. -/
def readRegistry : Value → Option Registry
  | .object ms => do
      let events ← member "hooks" .empty readEvents ms
      return ⟨events, unknown ["hooks"] ms⟩
  | _ => none

/-- The settings that a text stands for. -/
def Registry.ofText (t : Text) : Option Registry :=
  if (Text.trim t).isEmpty then some .empty else (Value.read t).bind readRegistry

end Reading

section Writing

def writeEntry (e : Entry) : Value :=
  let timeout : Members :=
    match e.timeout with
    | some n => [("timeout", .number (.natural n))]
    | none => []
  .object ([("type", .string e.kind), ("command", .string e.command)] ++ timeout ++ e.extra.entries)

def writeGroup (g : Group) : Value :=
  .object ([("matcher", .string g.matcher), ("hooks", .array (g.entries.map writeEntry))]
    ++ g.extra.entries)

def writeRegistry (s : Registry) : Value :=
  let events : Members := s.events.entries.map fun (event, groups) =>
    (event, .array (groups.map writeGroup))
  .object ((if events.isEmpty then [] else [("hooks", .object events)]) ++ s.other.entries)

/-- The text of settings, which ends with a line feed. -/
def Registry.toText (s : Registry) : Text :=
  (writeRegistry s).write ++ ['\n']

end Writing

theorem ofText_of_blank {t : Text} (h : ∀ c ∈ t, Text.isBlank c = true) :
    Registry.ofText t = some .empty := by
  rw [Registry.ofText, Text.trim_eq_nil_iff.2 h]
  rfl

end Editor
end Decomment
