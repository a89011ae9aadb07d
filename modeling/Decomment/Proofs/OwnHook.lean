import Decomment.Editor.Registry

/-!
# Our hook goes in and comes out

Adding our hook touches one group of its event: the hook comes last in the first group for its
tools, or a new last group has it alone.  Removing it takes it out of every group of the event, and
then every group without hooks goes, whether it had ours or never had any.  So a removal undoes an
addition but for the groups that were empty before, and it takes from others nothing but their empty
groups.

**Results.**
* `joins_addOwn`: what an addition does to the groups.
* `regroups_add`, `regroups_remove`: both changes leave everything but the groups of our event.
* `leaves_iff`: what a removal does to the groups is what it should do if none was empty.
* `remove_undoes_add`: a removal undoes an addition.
* `leaves_remove_iff`: when a removal keeps all that is not ours.
-/

namespace Decomment
namespace Editor

namespace Group

section Defs

/-- The groups `hs` are the groups `gs` with our hook: at the end of the first group for its tools,
or in a new last group if there is none. -/
inductive Joins (gs hs : List Group) : Prop
  | first {before after : List Group} {g : Group} (split : gs = before ++ g :: after)
      (others : ∀ b ∈ before, b.matcher ≠ ownMatcher) (own : g.matcher = ownMatcher)
      (joined : hs = before ++ { g with entries := g.entries ++ [ownEntry] } :: after) : Joins gs hs
  | last (others : ∀ g ∈ gs, g.matcher ≠ ownMatcher)
      (joined : hs = gs ++ [⟨ownMatcher, [ownEntry], .empty⟩]) : Joins gs hs

/-- The groups `hs` are what should be left of the groups `gs` without our hook, in their order: a
group that does not have it stays as it is, and one that has it keeps its other hooks, in order, and
goes only if there are no others. -/
inductive Leaves : (gs hs : List Group) → Prop
  | nil : Leaves [] []
  | whole {g : Group} {gs hs : List Group} :
      g.hasOwn = false → Leaves gs hs → Leaves (g :: gs) (g :: hs)
  | rest {g : Group} {gs hs : List Group} : g.hasOwn = true → Leaves gs hs →
      Leaves (g :: gs) ({ g with entries := g.entries.filter (!·.isOwn) } :: hs)
  | gone {g : Group} {gs hs : List Group} : g.hasOwn = true → (∀ e ∈ g.entries, e.isOwn = true) →
      Leaves gs hs → Leaves (g :: gs) hs

end Defs

section Steps

variable {g : Group} {gs hs : List Group}

theorem joins_addOwn : ∀ gs : List Group, Joins gs (addOwn gs)
  | [] => .last nofun rfl
  | g :: gs => by
      rw [addOwn]
      split
      · rename_i own
        exact .first (show g :: gs = [] ++ g :: gs from rfl) nofun own rfl
      · rename_i other
        rcases joins_addOwn gs with ⟨split, others, own, joined⟩ | ⟨others, joined⟩
        · refine .first (congrArg (g :: ·) split) (List.forall_mem_cons.2 ⟨other, others⟩) own ?_
          exact congrArg (g :: ·) joined
        · exact .last (List.forall_mem_cons.2 ⟨other, others⟩) (by rw [joined]; rfl)

theorem addOwn_ne_nil (gs : List Group) : addOwn gs ≠ [] := by
  rcases joins_addOwn gs with ⟨-, -, -, joined⟩ | ⟨-, joined⟩ <;> simp [joined]

theorem hasOwn_eq_false_iff : g.hasOwn = false ↔ ∀ e ∈ g.entries, e.isOwn = false := by
  simp [hasOwn]

theorem hasOwn_of_empty (h : g.entries = []) : g.hasOwn = false := by
  simp [hasOwn, h]

theorem dropOwn_of_not_hasOwn (h : g.hasOwn = false) : g.dropOwn = g := by
  have all : g.entries.filter (!·.isOwn) = g.entries := by
    refine List.filter_eq_self.2 fun e he => ?_
    rw [hasOwn_eq_false_iff.1 h e he, Bool.not_false]
  rw [dropOwn, all]

/-- Our hook that has come last in a group is all that is dropped. -/
theorem dropOwn_joined (h : g.hasOwn = false) :
    dropOwn { g with entries := g.entries ++ [ownEntry] } = g := by
  have same := congrArg entries (dropOwn_of_not_hasOwn h)
  simp only [dropOwn] at same
  simp only [dropOwn, List.filter_append, same, List.filter_cons,
    Registry.isOwn_ownEntry, Bool.not_true, Bool.false_eq_true, if_false, List.filter_nil,
    List.append_nil]

theorem map_dropOwn_of_not_hasOwn (h : gs.any hasOwn = false) : gs.map dropOwn = gs := by
  refine (List.map_congr_left fun g hg => ?_).trans (List.map_id gs)
  exact dropOwn_of_not_hasOwn (by simpa using List.any_eq_false.1 h g hg)

/-- What is left after our hook was added and dropped are the groups with hooks. -/
theorem dropOwn_addOwn (h : gs.any hasOwn = false) :
    ((addOwn gs).map dropOwn).filter (!·.entries.isEmpty) = gs.filter (!·.entries.isEmpty) := by
  rcases joins_addOwn gs with ⟨split, -, -, joined⟩ | ⟨-, joined⟩
  · rw [joined]
    rw [split, List.any_append, List.any_cons, Bool.or_eq_false_iff, Bool.or_eq_false_iff] at h
    obtain ⟨before, own, after⟩ := h
    rw [List.map_append, List.map_cons, dropOwn_joined own, map_dropOwn_of_not_hasOwn before,
      map_dropOwn_of_not_hasOwn after, split]
  · have empty : (dropOwn ⟨ownMatcher, [ownEntry], .empty⟩).entries = [] :=
      congrArg entries (dropOwn_joined (g := ⟨ownMatcher, [], .empty⟩) rfl)
    rw [joined, List.map_append, map_dropOwn_of_not_hasOwn h, List.filter_append]
    simp [empty]

end Steps

section Leaving

variable {g : Group} {gs hs : List Group}

theorem leaves_of_not_hasOwn (h : gs.any hasOwn = false) : Leaves gs gs := by
  induction gs with
  | nil => exact .nil
  | cons g gs ih =>
      rw [List.any_cons, Bool.or_eq_false_iff] at h
      exact .whole h.1 (ih h.2)

/-- A group without our hook should stay. -/
theorem Leaves.mem (h : Leaves gs hs) (hg : g ∈ gs) (other : g.hasOwn = false) : g ∈ hs := by
  induction h with
  | nil => cases hg
  | whole _ _ ih =>
      rcases List.mem_cons.1 hg with rfl | hg
      · exact List.mem_cons_self
      · exact List.mem_cons_of_mem _ (ih hg)
  | rest own _ ih =>
      rcases List.mem_cons.1 hg with rfl | hg
      · exact absurd (own.symm.trans other) (by decide)
      · exact List.mem_cons_of_mem _ (ih hg)
  | gone own _ _ ih =>
      rcases List.mem_cons.1 hg with rfl | hg
      · exact absurd (own.symm.trans other) (by decide)
      · exact ih hg

/-- Of groups with hooks, what should be left is left. -/
theorem leaves_of_nonempty (h : ∀ g ∈ gs, g.entries ≠ []) :
    Leaves gs ((gs.map dropOwn).filter (!·.entries.isEmpty)) := by
  induction gs with
  | nil => exact .nil
  | cons g gs ih =>
      obtain ⟨hooks, others⟩ := List.forall_mem_cons.1 h
      rw [List.map_cons, List.filter_cons]
      cases own : g.hasOwn with
      | false =>
          rw [dropOwn_of_not_hasOwn own, if_pos (by simpa using hooks)]
          exact .whole own (ih others)
      | true =>
          split
          · exact .rest own (ih others)
          · rename_i empty
            refine .gone own ?_ (ih others)
            simpa [dropOwn, List.filter_eq_nil_iff] using empty

/-- Groups without hooks go, so what should be left is left exactly if there are none. -/
theorem leaves_iff : Leaves gs ((gs.map dropOwn).filter (!·.entries.isEmpty)) ↔
    ∀ g ∈ gs, g.entries ≠ [] := by
  refine ⟨fun h g hg empty => ?_, leaves_of_nonempty⟩
  have stays := h.mem hg (hasOwn_of_empty empty)
  simpa [empty] using (List.mem_filter.1 stays).2

/-- Groups without hooks do not count for what is left. -/
theorem filter_dropOwn_filter (gs : List Group) :
    ((gs.filter (!·.entries.isEmpty)).map dropOwn).filter (!·.entries.isEmpty) =
      (gs.map dropOwn).filter (!·.entries.isEmpty) := by
  induction gs with
  | nil => rfl
  | cons g gs ih =>
      by_cases empty : g.entries = []
      · simp [dropOwn, empty, ← ih]
      · rw [List.filter_cons_of_pos (by simpa using empty), List.map_cons, List.map_cons,
          List.filter_cons, List.filter_cons, ih]

end Leaving

end Group

namespace Registry

section Regrouping

/-- The settings `t` are the settings `s` with the groups `gs` for our event.  Without groups there
is no such event. -/
structure Regroups (s t : Registry) (gs : List Group) : Prop where
  other : t.other = s.other
  elsewhere : ∀ event, event ≠ ownEvent → t.events.find? event = s.events.find? event
  own : t.events.find? ownEvent = if gs = [] then none else some gs

variable {s t u : Registry} {gs hs : List Group}

theorem Regroups.ownGroups (h : Regroups s t gs) : t.ownGroups = gs := by
  rw [Registry.ownGroups, h.own]
  split
  · rename_i empty
    exact empty.symm
  · rfl

theorem Regroups.trans (h : Regroups s t gs) (h' : Regroups t u hs) : Regroups s u hs where
  other := h'.other.trans h.other
  elsewhere event he := (h'.elsewhere event he).trans (h.elsewhere event he)
  own := h'.own

/-- Settings that have these groups already do not change. -/
theorem Regroups.eq (h : Regroups s t gs)
    (own : s.events.find? ownEvent = if gs = [] then none else some gs) : t = s := by
  have events : t.events = s.events := by
    refine Keyed.Map.ext_find? fun event => ?_
    by_cases he : event = ownEvent
    · rw [he, h.own, own]
    · exact h.elsewhere event he
  cases s
  cases t
  simp only [Registry.mk.injEq]
  exact ⟨events, h.other⟩

theorem regroups_insert (s : Registry) (hne : gs ≠ []) :
    Regroups s { s with events := s.events.insert ownEvent gs } gs where
  other := rfl
  elsewhere _ he := s.events.find?_insert_of_ne gs he
  own := by rw [if_neg hne, Keyed.Map.find?_insert_self]

theorem regroups_erase (s : Registry) :
    Regroups s { s with events := s.events.erase ownEvent } [] where
  other := rfl
  elsewhere _ he := s.events.find?_erase_of_ne he
  own := s.events.find?_erase_self ownEvent

theorem regroups_add (h : s.add = some t) : Regroups s t (Group.addOwn s.ownGroups) := by
  rw [add] at h
  split at h
  · cases h
  · obtain rfl := Option.some.inj h
    exact regroups_insert s (Group.addOwn_ne_nil _)

theorem regroups_remove (h : s.remove = some t) :
    Regroups s t ((s.ownGroups.map Group.dropOwn).filter (!·.entries.isEmpty)) := by
  rw [remove_eq] at h
  split at h
  · obtain rfl := Option.some.inj h
    split
    · rename_i empty
      rw [List.isEmpty_iff.1 empty]
      exact regroups_erase s
    · rename_i some
      exact regroups_insert s fun e => some (List.isEmpty_iff.2 e)
  · cases h

theorem exists_of_isInstalled (h : s.isInstalled = true) : ∃ t, s.remove = some t := by
  refine Option.ne_none_iff_exists'.1 fun e => ?_
  rw [remove_eq_none_iff, h] at e
  cases e

end Regrouping

end Registry

open Registry

/-- **A removal undoes an addition.**  If our hook is not in the settings, a removal does nothing,
and an addition puts it into one group of its event and changes nothing else; a removal after that
leaves the settings as they were, but without the groups of the event that have no hooks, and
without the event if no group is left.  If our hook is in the settings, an addition does nothing. -/
theorem remove_undoes_add (s : Registry) :
    (s.isInstalled = true → s.add = none) ∧
    (s.isInstalled = false → s.remove = none ∧
      ∃ t, s.add = some t ∧ t.isInstalled = true ∧
        (∃ gs, Group.Joins s.ownGroups gs ∧ Regroups s t gs) ∧
        ∃ u, t.remove = some u ∧
          Regroups s u (s.ownGroups.filter (!·.entries.isEmpty)) ∧
          ((∀ gs, s.events.find? ownEvent = some gs → gs ≠ [] ∧ ∀ g ∈ gs, g.entries ≠ []) →
            u = s)) := by
  refine ⟨add_eq_none_iff.2, fun absent => ⟨remove_eq_none_iff.2 absent, ?_⟩⟩
  obtain ⟨t, ht⟩ : ∃ t, s.add = some t := by
    refine Option.ne_none_iff_exists'.1 fun e => ?_
    rw [add_eq_none_iff, absent] at e
    cases e
  have installed := isInstalled_add ht
  have added := regroups_add ht
  obtain ⟨u, hu⟩ := exists_of_isInstalled installed
  have removed := regroups_remove hu
  rw [added.ownGroups, Group.dropOwn_addOwn absent] at removed
  have undone := added.trans removed
  refine ⟨t, ht, installed, ⟨_, Group.joins_addOwn _, added⟩, u, hu, undone, fun full => ?_⟩
  refine undone.eq ?_
  cases event : s.events.find? ownEvent with
  | none => rw [ownGroups, event]; rfl
  | some gs =>
      obtain ⟨hne, hooks⟩ := full gs event
      have all : gs.filter (!·.entries.isEmpty) = gs :=
        List.filter_eq_self.2 fun g hg => by simpa using hooks g hg
      rw [ownGroups, event, Option.getD_some, all, if_neg hne]

/-- Our hook joins the second of three groups, of which the first has no hooks. -/
theorem remove_undoes_add_empty :
    let lint : Entry := ⟨"command", "lint", none, .empty⟩
    let full : Group := ⟨ownMatcher, [lint], .empty⟩
    let s : Registry :=
      ⟨.ofList [(ownEvent, [⟨"Bash", [], .empty⟩, full, full])], .empty⟩
    s.isInstalled = false ∧
      ∃ t u, s.add = some t ∧ t.remove = some u ∧ u.ownGroups = [full, full] := by
  intro lint full s
  have absent : s.isInstalled = false := by decide +kernel
  obtain ⟨-, undo⟩ := remove_undoes_add s
  obtain ⟨-, t, ht, -, -, u, hu, undone, -⟩ := undo absent
  exact ⟨absent, t, u, ht, hu, undone.ownGroups⟩

/-- **What a removal takes from others.**  A removal leaves everything but the groups of our event.
Of these it leaves what it should exactly if it does nothing, or if no group was without hooks; the
groups with hooks fare as they should in any case. -/
theorem leaves_remove_iff (s : Registry) :
    let t := s.remove.getD s
    t.other = s.other ∧
    (∀ event, event ≠ ownEvent → t.events.find? event = s.events.find? event) ∧
    (Group.Leaves s.ownGroups t.ownGroups ↔
      (s.isInstalled = true → ∀ g ∈ s.ownGroups, g.entries ≠ [])) ∧
    (s.isInstalled = true →
      Group.Leaves (s.ownGroups.filter (!·.entries.isEmpty)) t.ownGroups) ∧
    (s.isInstalled = false → t = s) := by
  cases installed : s.isInstalled with
  | false =>
      rw [remove_eq_none_iff.2 installed]
      have stays : Group.Leaves s.ownGroups s.ownGroups := Group.leaves_of_not_hasOwn installed
      exact ⟨rfl, fun _ _ => rfl, by simp [stays], nofun, fun _ => rfl⟩
  | true =>
      obtain ⟨t, ht⟩ := exists_of_isInstalled installed
      have removed := regroups_remove ht
      rw [ht, Option.getD_some]
      refine ⟨removed.other, removed.elsewhere, ?_, fun _ => ?_, nofun⟩
      · rw [removed.ownGroups, Group.leaves_iff]
        exact ⟨fun h _ => h, fun h => h rfl⟩
      · rw [removed.ownGroups, ← Group.filter_dropOwn_filter]
        exact Group.leaves_of_nonempty fun g hg => by simpa using (List.mem_filter.1 hg).2

/-- Our hook stands between two others, after a group that does not have it. -/
theorem leaves_remove_between :
    let lint : Entry := ⟨"command", "lint", none, .empty⟩
    let s : Registry := ⟨.ofList [(ownEvent,
      [⟨"Bash", [lint], .empty⟩, ⟨"Edit", [lint, ownEntry, lint], .empty⟩])], .empty⟩
    s.isInstalled = true ∧ (∀ g ∈ s.ownGroups, g.entries ≠ []) ∧
      Group.Leaves s.ownGroups (s.remove.getD s).ownGroups := by
  intro lint s
  have installed : s.isInstalled = true := by decide +kernel
  have hooks : ∀ g ∈ s.ownGroups, g.entries ≠ [] := by
    have all : s.ownGroups.all (!·.entries.isEmpty) = true := by decide +kernel
    exact fun g hg => by simpa using List.all_eq_true.1 all g hg
  obtain ⟨-, -, leaves, -⟩ := leaves_remove_iff s
  exact ⟨installed, hooks, leaves.2 fun _ => hooks⟩

/-- A group of another tool, with a member of its own but without hooks, is gone after our hook was
removed from the next one. -/
theorem remove_takes_empty_group :
    let lint : Entry := ⟨"command", "prettier --write", none, .empty⟩
    let theirs : Group := ⟨"Bash", [], .ofList [("note", .string "mine")]⟩
    let s : Registry := ⟨.ofList [(ownEvent,
      [theirs, ⟨ownMatcher, [lint, ownEntry], .empty⟩])], .empty⟩
    ¬ Group.Leaves s.ownGroups (s.remove.getD s).ownGroups := by
  intro lint theirs s leaves
  have matchers : (s.remove.getD s).ownGroups.map (·.matcher) = [ownMatcher] := by decide +kernel
  have stays : theirs ∈ (s.remove.getD s).ownGroups := leaves.mem List.mem_cons_self rfl
  have listed : theirs.matcher ∈ (s.remove.getD s).ownGroups.map (·.matcher) :=
    List.mem_map_of_mem stays
  rw [matchers] at listed
  exact absurd listed (by decide)

end Editor
end Decomment
