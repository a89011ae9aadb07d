import Decomment.Text.Search
import Decomment.Json.Value

/-!
# Hook settings

The settings of an editor name, for each event, groups of hooks; a group applies to the tools that
its matcher names.  The settings belong to the editor: whatever is not a hook of ours is carried
along, in the same order and with every member that has no meaning here.

Ours is one hook after each edit.  It is recognised by its command.

**Results.**
* `isInstalled_add`: after adding, the hook is there.
* `add_eq_none_iff`: nothing is added exactly if the hook is there already.
* `isShortened_eq_hasOwn`: a group gets shorter exactly if it has our hook.
* `remove_eq`: a removal, said with the question whether the hook is there.
* `remove_eq_none_iff`: nothing is removed exactly if the hook is not there.
-/

namespace Decomment
namespace Editor

/-- A hook: what kind of thing is run, the command, and how many seconds it may take. -/
structure Entry where
  kind : String
  command : String
  timeout : Option Nat
  /-- The members without a meaning here. -/
  extra : Keyed.Map String Json.Value

/-- The hooks for the tools that a matcher names. -/
structure Group where
  matcher : String
  entries : List Entry
  /-- The members without a meaning here. -/
  extra : Keyed.Map String Json.Value

/-- The groups of each event, and the members without a meaning here. -/
structure Registry where
  events : Keyed.Map String (List Group)
  other : Keyed.Map String Json.Value

def ownCommand : String :=
  "shush --changes-only"

def ownEvent : String :=
  "PostToolUse"

/-- The tools after which our hook runs. -/
def ownMatcher : String :=
  "Write|Edit|MultiEdit"

def ownEntry : Entry :=
  ⟨"command", ownCommand, some 30, .empty⟩

/-- The hook runs our command, perhaps among others. -/
def Entry.isOwn (e : Entry) : Bool :=
  Text.hasSegment e.command.toList ownCommand.toList

namespace Group

/-- One of the hooks is ours. -/
def hasOwn (g : Group) : Bool :=
  g.entries.any Entry.isOwn

/-- The group without hooks of ours. -/
def dropOwn (g : Group) : Group :=
  { g with entries := g.entries.filter (!·.isOwn) }

/-- The group gets shorter when hooks of ours are dropped. -/
def isShortened (g : Group) : Bool :=
  g.dropOwn.entries.length ≠ g.entries.length

/-- The groups with our hook at the end of the first group for its tools, or in a new last one. -/
def addOwn : List Group → List Group
  | [] => [⟨ownMatcher, [ownEntry], .empty⟩]
  | g :: gs =>
      if g.matcher = ownMatcher then { g with entries := g.entries ++ [ownEntry] } :: gs
      else g :: addOwn gs

end Group

namespace Registry

section Defs

/-- No hooks. -/
def empty : Registry :=
  ⟨.empty, .empty⟩

/-- The groups of our event. -/
def ownGroups (s : Registry) : List Group :=
  (s.events.find? ownEvent).getD []

/-- Our hook is in the settings. -/
def isInstalled (s : Registry) : Bool :=
  s.ownGroups.any Group.hasOwn

/-- The settings with our hook, unless they have it already. -/
def add (s : Registry) : Option Registry :=
  if s.isInstalled then none
  else some { s with events := s.events.insert ownEvent (Group.addOwn s.ownGroups) }

/-- The settings without our hook, and without the groups and the event that are empty then, if
some group had it. -/
def remove (s : Registry) : Option Registry :=
  match s.events.find? ownEvent with
  | none => none
  | some groups =>
      if groups.any Group.isShortened then
        let rest := (groups.map Group.dropOwn).filter (!·.entries.isEmpty)
        some { s with
          events :=
            if rest.isEmpty then s.events.erase ownEvent
            else s.events.insert ownEvent rest }
      else none

/-- The event, the matcher and the command of every hook. -/
def listing (s : Registry) : List (String × String × String) :=
  s.events.entries.flatMap fun (event, groups) =>
    groups.flatMap fun g => g.entries.map fun e => (event, g.matcher, e.command)

end Defs

section Laws

theorem isOwn_ownEntry : ownEntry.isOwn = true := by
  decide +kernel

theorem any_hasOwn_addOwn : ∀ gs : List Group, (Group.addOwn gs).any Group.hasOwn = true
  | [] => by simp [Group.addOwn, Group.hasOwn, isOwn_ownEntry]
  | g :: gs => by
      rw [Group.addOwn]
      split
      · simp [Group.hasOwn, isOwn_ownEntry]
      · rw [List.any_cons, any_hasOwn_addOwn gs, Bool.or_true]

theorem isInstalled_add {s t : Registry} (h : s.add = some t) : t.isInstalled = true := by
  rw [add] at h
  split at h
  · cases h
  · obtain rfl := Option.some.inj h
    rw [isInstalled, ownGroups, Keyed.Map.find?_insert_self]
    exact any_hasOwn_addOwn _

theorem add_eq_none_iff {s : Registry} : s.add = none ↔ s.isInstalled = true := by
  unfold add
  split <;> simp_all

theorem isShortened_eq_hasOwn (g : Group) : g.isShortened = g.hasOwn := by
  have whole : (g.entries.filter (!·.isOwn)).length = g.entries.length ↔
      g.entries.any Entry.isOwn = false := by
    rw [List.length_filter_eq_length_iff, List.any_eq_false]
    simp only [Bool.not_eq_true', Bool.not_eq_true]
  rw [Group.isShortened, Group.hasOwn, Bool.eq_iff_iff, decide_eq_true_eq, ne_eq, Group.dropOwn,
    whole, Bool.not_eq_false]

/-- What is removed depends on the groups of our event only. -/
theorem remove_eq (s : Registry) : s.remove =
    if s.isInstalled then
      let rest := (s.ownGroups.map Group.dropOwn).filter (!·.entries.isEmpty)
      some { s with
        events :=
          if rest.isEmpty then s.events.erase ownEvent
          else s.events.insert ownEvent rest }
    else none := by
  have shortened : Group.isShortened = Group.hasOwn := funext isShortened_eq_hasOwn
  rw [remove, isInstalled, ownGroups]
  cases s.events.find? ownEvent with
  | none => rfl
  | some groups => simp only [Option.getD_some, shortened]

theorem remove_eq_none_iff {s : Registry} : s.remove = none ↔ s.isInstalled = false := by
  rw [remove_eq]
  split <;> simp_all

end Laws

end Registry
end Editor
end Decomment
