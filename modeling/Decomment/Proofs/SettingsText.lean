import Decomment.Editor.Format
import Decomment.Proofs.JsonNesting

/-!
# Settings and their text

Members without a meaning are carried along: their names are not those with a meaning, and their
values are normalised and leave room for what is around them.  Settings that were read are such, and
stay so when our hook is added or removed.  What was written for them is read as the same settings.

**Results.**
* `isSound_ofText`: settings that are read are sound.
* `isSound_apply`, `isExact_apply`: they stay sound and exact when our hook is added or removed.
* `readRegistry_writeRegistry`: sound settings are read back from their value.
* `ofText_toText`: sound settings without doubles are read back from their text.
-/

namespace Decomment
namespace Editor

open Json (Value Members maxNesting)

section Lists

variable {α β : Type} {f : α → Option β}

theorem exists_of_mem_mapM {as : List α} {bs : List β} (h : as.mapM f = some bs) :
    ∀ b ∈ bs, ∃ a ∈ as, f a = some b := by
  induction as generalizing bs with
  | nil =>
      obtain rfl := Option.some.inj h
      exact fun b hb => by cases hb
  | cons a as ih =>
      rw [List.mapM_cons] at h
      obtain ⟨b, hb, h⟩ := Option.bind_eq_some_iff.1 h
      obtain ⟨bs', hbs, h⟩ := Option.bind_eq_some_iff.1 h
      obtain rfl := Option.some.inj h
      intro c hc
      rcases List.mem_cons.1 hc with rfl | hc
      · exact ⟨a, List.mem_cons_self, hb⟩
      · obtain ⟨d, hd, hf⟩ := ih hbs c hc
        exact ⟨d, List.mem_cons_of_mem a hd, hf⟩

/-- What is written one by one is read one by one. -/
theorem mapM_map_of_forall {g : β → α} {bs : List β} (h : ∀ b ∈ bs, f (g b) = some b) :
    (bs.map g).mapM f = some bs := by
  induction bs with
  | nil => rfl
  | cons b bs ih =>
      rw [List.map_cons, List.mapM_cons, h b List.mem_cons_self,
        ih fun c hc => h c (List.mem_cons_of_mem b hc)]
      rfl

end Lists

section Carried

/-- The members have none of the known names, are normalised, and nest at most `n` deep. -/
def IsCarried (known : List String) (n : Nat) (m : Keyed.Map String Value) : Prop :=
  ∀ e ∈ m.entries, e.1 ∉ known ∧ e.2.normalize = e.2 ∧ e.2.depth ≤ n

variable {α : Type} {known : List String} {name : String} {n : Nat} {ms : Members}
variable {m : Keyed.Map String Value}

theorem isCarried_empty (known : List String) (n : Nat) : IsCarried known n .empty :=
  fun e he => by cases he

theorem exists_of_mem_normalizeMembers {e : String × Value}
    (h : e ∈ Value.normalizeMembers ms) : ∃ v, (e.1, v) ∈ ms ∧ e.2 = v.normalize := by
  induction ms with
  | nil => cases h
  | cons d ms ih =>
      obtain ⟨k, v⟩ := d
      rcases List.mem_cons.1 h with rfl | h
      · exact ⟨v, List.mem_cons_self, rfl⟩
      · obtain ⟨w, hw, e⟩ := ih h
        exact ⟨w, List.mem_cons_of_mem _ hw, e⟩

/-- What is left over of the members of an object is carried along. -/
theorem isCarried_unknown (known : List String) (h : ∀ e ∈ ms, e.2.depth ≤ n) :
    IsCarried known n (unknown known ms) := by
  intro e he
  obtain ⟨v, hv, normal⟩ := exists_of_mem_normalizeMembers (Keyed.mem_of_mem_ofList he)
  obtain ⟨hmem, hknown⟩ := List.mem_filter.1 hv
  refine ⟨by simpa using hknown, ?_, ?_⟩
  · rw [normal, Value.normalize_normalize]
  · rw [normal]
    exact Nat.le_trans (Value.depth_normalize_le v) (h _ hmem)

/-- A member with a meaning is not among those that are carried along. -/
theorem member_append_entries (h : IsCarried known n m) (hname : name ∈ known) (absent : α)
    (read : Value → Option α) (ms : Members) :
    member name absent read (ms ++ m.entries) = member name absent read ms := by
  have none : m.entries.filter (·.1 = name) = [] := by
    refine List.filter_eq_nil_iff.2 fun e he same => ?_
    exact (h e he).1 (of_decide_eq_true same ▸ hname)
  rw [member, member, valuesOf, valuesOf, List.filter_append, none, List.append_nil]

/-- What is left over is what is carried along. -/
theorem unknown_append_entries (h : IsCarried known n m) (hms : ∀ e ∈ ms, e.1 ∈ known) :
    unknown known (ms ++ m.entries) = m := by
  have none : ms.filter (fun e => !known.contains e.1) = [] :=
    List.filter_eq_nil_iff.2 fun e he => by simp [hms e he]
  have all : m.entries.filter (fun e => !known.contains e.1) = m.entries :=
    List.filter_eq_self.2 fun e he => by simp [(h e he).1]
  have normal : Value.normalizeMembers m.entries = m.entries :=
    Value.normalizeMembers_of_forall fun e he => (h e he).2.1
  rw [unknown, List.filter_append, none, all, List.nil_append, normal]
  exact Keyed.Map.ofList_entries m

theorem eq_absent_or_of_member {absent a : α} {read : Value → Option α}
    (h : member name absent read ms = some a) :
    a = absent ∨ ∃ v, (name, v) ∈ ms ∧ read v = some a := by
  unfold member at h
  split at h
  · exact .inl (Option.some.inj h).symm
  · rename_i v hv
    have found : v ∈ valuesOf name ms := by rw [hv]; exact List.mem_singleton_self v
    obtain ⟨e, he, rfl⟩ := List.mem_map.1 found
    obtain ⟨hmem, hname⟩ := List.mem_filter.1 he
    obtain rfl := of_decide_eq_true hname
    exact .inr ⟨e.2, hmem, h⟩
  · cases h

end Carried

/-- The members without a meaning are carried along, and nest at most `n` deep. -/
def Entry.IsSound (n : Nat) (e : Entry) : Prop :=
  IsCarried ["type", "command", "timeout"] n e.extra

/-- The same for a group and its hooks. -/
def Group.IsSound (n : Nat) (g : Group) : Prop :=
  (∀ e ∈ g.entries, e.IsSound n) ∧ IsCarried ["matcher", "hooks"] (n + 2) g.extra

namespace Registry

/-- All groups of all events have the property. -/
def AllGroups (P : Group → Prop) (s : Registry) : Prop :=
  ∀ event gs, (event, gs) ∈ s.events.entries → ∀ g ∈ gs, P g

/-- The members without a meaning are carried along, those of hooks at most `n` deep. -/
def IsSound (n : Nat) (s : Registry) : Prop :=
  s.AllGroups (Group.IsSound n) ∧ IsCarried ["hooks"] (n + 5) s.other

end Registry

section Reading

variable {n : Nat} {v : Value}

theorem depth_le_of_object {ms : Members} (h : (Value.object ms).depth ≤ n + 1) :
    ∀ e ∈ ms, e.2.depth ≤ n :=
  Value.depth_object_le_iff.1 h

/-- What is read from an array is read from its elements. -/
theorem exists_of_mem_readArray {α : Type} {read : Value → Option α} {as : List α}
    (h : readArray read v = some as) (hv : v.depth ≤ n + 1) :
    ∀ a ∈ as, ∃ w, w.depth ≤ n ∧ read w = some a := by
  unfold readArray at h
  split at h
  · intro a ha
    obtain ⟨w, hw, hread⟩ := exists_of_mem_mapM h a ha
    exact ⟨w, Value.depth_array_le_iff.1 hv w hw, hread⟩
  · cases h

theorem isSound_readEntry {e : Entry} (h : readEntry v = some e) (hv : v.depth ≤ n + 1) :
    e.IsSound n := by
  unfold readEntry at h
  split at h
  · obtain ⟨kind, -, h⟩ := Option.bind_eq_some_iff.1 h
    obtain ⟨command, -, h⟩ := Option.bind_eq_some_iff.1 h
    obtain ⟨timeout, -, h⟩ := Option.bind_eq_some_iff.1 h
    obtain rfl := Option.some.inj h
    exact isCarried_unknown _ (depth_le_of_object hv)
  · cases h

theorem isSound_readGroup {g : Group} (h : readGroup v = some g) (hv : v.depth ≤ n + 3) :
    g.IsSound n := by
  unfold readGroup at h
  split at h
  · have parts := depth_le_of_object hv
    obtain ⟨matcher, -, h⟩ := Option.bind_eq_some_iff.1 h
    obtain ⟨entries, hentries, h⟩ := Option.bind_eq_some_iff.1 h
    obtain rfl := Option.some.inj h
    refine ⟨fun e he => ?_, isCarried_unknown _ parts⟩
    rcases eq_absent_or_of_member hentries with rfl | ⟨w, hw, hread⟩
    · cases he
    · obtain ⟨u, hu, hentry⟩ := exists_of_mem_readArray hread (parts _ hw) e he
      exact isSound_readEntry hentry hu
  · cases h

theorem isSound_readEvents {events : Keyed.Map String (List Group)}
    (h : readEvents v = some events) (hv : v.depth ≤ n + 5) :
    ∀ event gs, (event, gs) ∈ events.entries → ∀ g ∈ gs, g.IsSound n := by
  unfold readEvents at h
  split at h
  · have parts := depth_le_of_object hv
    obtain ⟨es, hes, h⟩ := Option.bind_eq_some_iff.1 h
    obtain rfl := Option.some.inj h
    intro event gs hmem g hg
    obtain ⟨⟨name, w⟩, hw, hread⟩ := exists_of_mem_mapM hes _ (Keyed.mem_of_mem_ofList hmem)
    obtain ⟨gs', hgs, hread⟩ := Option.bind_eq_some_iff.1 hread
    obtain ⟨-, rfl⟩ := Prod.mk.inj (Option.some.inj hread)
    obtain ⟨u, hu, hgroup⟩ := exists_of_mem_readArray hgs (parts _ hw) g hg
    exact isSound_readGroup hgroup hu
  · cases h

theorem isSound_readRegistry {s : Registry} (h : readRegistry v = some s)
    (hv : v.depth ≤ n + 6) : s.IsSound n := by
  unfold readRegistry at h
  split at h
  · have parts := depth_le_of_object hv
    obtain ⟨events, hevents, h⟩ := Option.bind_eq_some_iff.1 h
    obtain rfl := Option.some.inj h
    refine ⟨?_, isCarried_unknown _ parts⟩
    rcases eq_absent_or_of_member hevents with rfl | ⟨w, hw, hread⟩
    · exact fun event gs hmem => by cases hmem
    · exact isSound_readEvents hread (parts _ hw)
  · cases h

/-- How deep the members of hooks may nest: six levels of the settings are around them. -/
def innermost : Nat :=
  121

theorem isSound_empty (n : Nat) : Registry.empty.IsSound n :=
  ⟨(fun event gs h => by cases h), isCarried_empty _ _⟩

/-- Settings that are read are sound. -/
theorem isSound_ofText {t : Text} {s : Registry} (h : Registry.ofText t = some s) :
    s.IsSound innermost := by
  unfold Registry.ofText at h
  split at h
  · obtain rfl := Option.some.inj h
    exact isSound_empty _
  · obtain ⟨v, hv, hs⟩ := Option.bind_eq_some_iff.1 h
    exact isSound_readRegistry hs (Json.depth_le_of_read hv)

end Reading

section Writing

/-- The members of a hook that have a meaning. -/
def Entry.members (e : Entry) : Members :=
  [("type", .string e.kind), ("command", .string e.command)] ++
    match e.timeout with
    | some n => [("timeout", .number (.natural n))]
    | none => []

/-- The members of a group that have a meaning. -/
def Group.members (g : Group) : Members :=
  [("matcher", .string g.matcher), ("hooks", .array (g.entries.map writeEntry))]

/-- The events as members. -/
def Registry.eventMembers (s : Registry) : Members :=
  s.events.entries.map fun e => (e.1, .array (e.2.map writeGroup))

/-- The members of settings that have a meaning. -/
def Registry.members (s : Registry) : Members :=
  if s.eventMembers.isEmpty then [] else [("hooks", .object s.eventMembers)]

theorem writeEntry_eq (e : Entry) : writeEntry e = .object (e.members ++ e.extra.entries) :=
  rfl

theorem writeGroup_eq (g : Group) : writeGroup g = .object (g.members ++ g.extra.entries) :=
  rfl

theorem writeRegistry_eq (s : Registry) :
    writeRegistry s = .object (s.members ++ s.other.entries) :=
  rfl

variable {n : Nat}

section Depths

theorem depth_writeEntry_le {e : Entry} (h : e.IsSound n) : (writeEntry e).depth ≤ n + 1 := by
  rw [writeEntry_eq]
  refine Value.depth_object_le_iff.2 fun d hd => ?_
  rcases List.mem_append.1 hd with hd | hd
  · have flat : d.2.depth = 0 := by
      unfold Entry.members at hd
      cases ht : e.timeout <;> simp [ht] at hd <;> rcases hd with rfl | rfl | rfl <;> rfl
    omega
  · exact (h d hd).2.2

theorem depth_writeGroup_le {g : Group} (h : g.IsSound n) : (writeGroup g).depth ≤ n + 3 := by
  rw [writeGroup_eq]
  refine Value.depth_object_le_iff.2 fun d hd => ?_
  rcases List.mem_append.1 hd with hd | hd
  · rcases List.mem_cons.1 hd with rfl | hd
    · exact Nat.zero_le _
    · rw [List.mem_singleton.1 hd]
      refine Value.depth_array_le_iff.2 fun v hv => ?_
      obtain ⟨e, he, rfl⟩ := List.mem_map.1 hv
      exact depth_writeEntry_le (h.1 e he)
  · exact (h.2 d hd).2.2

theorem mem_members {s : Registry} {d : String × Value} (h : d ∈ s.members) :
    d = ("hooks", .object s.eventMembers) := by
  unfold Registry.members at h
  split at h
  · cases h
  · exact List.mem_singleton.1 h

theorem depth_writeRegistry_le {s : Registry} (h : s.IsSound n) :
    (writeRegistry s).depth ≤ n + 6 := by
  rw [writeRegistry_eq]
  refine Value.depth_object_le_iff.2 fun d hd => ?_
  rcases List.mem_append.1 hd with hd | hd
  · rw [mem_members hd]
    refine Value.depth_object_le_iff.2 fun w hw => ?_
    obtain ⟨⟨event, gs⟩, hgs, rfl⟩ := List.mem_map.1 hw
    refine Value.depth_array_le_iff.2 fun v hv => ?_
    obtain ⟨g, hg, rfl⟩ := List.mem_map.1 hv
    exact depth_writeGroup_le (h.1 event gs hgs g hg)
  · exact (h.2 d hd).2.2

end Depths

section Inverses

theorem readEntry_writeEntry {e : Entry} (h : e.IsSound n) :
    readEntry (writeEntry e) = some e := by
  obtain ⟨kind, command, timeout, extra⟩ := e
  have carried : IsCarried ["type", "command", "timeout"] n extra := h
  have left : unknown ["type", "command", "timeout"]
      ((Entry.mk kind command timeout extra).members ++ extra.entries) = extra := by
    refine unknown_append_entries carried fun d hd => ?_
    unfold Entry.members at hd
    cases timeout <;> simp at hd <;> rcases hd with rfl | rfl | rfl <;> simp
  simp only [writeEntry_eq, readEntry, left, member_append_entries carried, List.mem_cons,
    true_or, or_true]
  cases timeout <;> rfl

theorem readGroup_writeGroup {g : Group} (h : g.IsSound n) :
    readGroup (writeGroup g) = some g := by
  obtain ⟨matcher, entries, extra⟩ := g
  obtain ⟨hentries, carried⟩ : (∀ e ∈ entries, e.IsSound n) ∧
    IsCarried ["matcher", "hooks"] (n + 2) extra := h
  have left : unknown ["matcher", "hooks"]
      ((Group.mk matcher entries extra).members ++ extra.entries) = extra := by
    refine unknown_append_entries carried fun d hd => ?_
    unfold Group.members at hd
    simp at hd
    rcases hd with rfl | rfl <;> simp
  have hooks : readArray readEntry (.array (entries.map writeEntry)) = some entries :=
    mapM_map_of_forall fun e he => readEntry_writeEntry (hentries e he)
  have named : member "matcher" "" readString (Group.mk matcher entries extra).members =
    some matcher := rfl
  have held : member "hooks" [] (readArray readEntry) (Group.mk matcher entries extra).members =
    some entries := hooks
  simp only [writeGroup_eq, readGroup, left, member_append_entries carried, List.mem_cons,
    true_or, or_true, named, held]
  rfl

theorem readEvents_eventMembers {s : Registry} (h : s.AllGroups (Group.IsSound n)) :
    readEvents (.object s.eventMembers) = some s.events := by
  simp only [readEvents, Registry.eventMembers]
  rw [mapM_map_of_forall fun e he => ?_]
  · exact congrArg some (Keyed.Map.ofList_entries s.events)
  · have groups : readArray readGroup (.array (e.2.map writeGroup)) = some e.2 :=
      mapM_map_of_forall fun g hg => readGroup_writeGroup (h e.1 e.2 he g hg)
    simp only [groups]
    rfl

theorem member_hooks {s : Registry} (h : s.AllGroups (Group.IsSound n)) :
    member "hooks" .empty readEvents s.members = some s.events := by
  cases he : s.eventMembers.isEmpty with
  | true =>
      have none : s.events = .empty := by
        obtain ⟨⟨es, hes⟩, other⟩ := s
        obtain rfl : es = [] := List.map_eq_nil_iff.1 (List.isEmpty_iff.1 he)
        rfl
      rw [Registry.members, if_pos he, none]
      rfl
  | false =>
      rw [Registry.members, he]
      exact readEvents_eventMembers h

/-- Sound settings are read back from their value. -/
theorem readRegistry_writeRegistry {s : Registry} (h : s.IsSound n) :
    readRegistry (writeRegistry s) = some s := by
  obtain ⟨groups, carried⟩ := h
  have left : unknown ["hooks"] (s.members ++ s.other.entries) = s.other := by
    refine unknown_append_entries carried fun d hd => ?_
    rw [mem_members hd]
    exact List.mem_singleton_self _
  simp only [writeRegistry_eq, readRegistry, left, member_append_entries carried,
    List.mem_singleton, member_hooks groups]
  rfl

end Inverses

end Writing

section Texts

/-- All numbers in the settings are whole numbers of 64 bits. -/
def Registry.IsExact (s : Registry) : Prop :=
  (writeRegistry s).IsExact

instance : DecidablePred Registry.IsExact :=
  fun s => inferInstanceAs (Decidable (writeRegistry s).IsExact)

/-- The text of settings starts with the bracket of an object. -/
theorem trim_toText_isEmpty (s : Registry) : (Text.trim s.toText).isEmpty = false := by
  have bracket : '\x7b' ∈ s.toText := by
    rw [Registry.toText, writeRegistry_eq, Value.write]
    cases s.members ++ s.other.entries <;> exact List.mem_cons_self
  rw [List.isEmpty_eq_false_iff]
  intro blank
  have all := Text.trim_eq_nil_iff.1 blank _ bracket
  exact absurd all (by decide)

/-- Sound settings without doubles are read back from their text. -/
theorem ofText_toText {s : Registry} (hs : s.IsSound innermost) (hexact : s.IsExact) :
    Registry.ofText s.toText = some s := by
  rw [Registry.ofText, trim_toText_isEmpty, if_neg Bool.false_ne_true, Registry.toText,
    Json.read_write hexact (depth_writeRegistry_le hs), Option.bind_some,
    readRegistry_writeRegistry hs]

end Texts

section Edits

/-- A change to settings: our hook is added or removed. -/
inductive Edit
  | add
  | remove

/-- The settings after a change, if there is something to change. -/
def Edit.attempt (s : Registry) : Edit → Option Registry
  | .add => s.add
  | .remove => s.remove

/-- The settings after a change. -/
def Edit.apply (s : Registry) (e : Edit) : Registry :=
  (e.attempt s).getD s

namespace Registry

variable {P : Group → Prop} {s : Registry}

/-- What holds of the groups of an event holds if it holds of all groups. -/
theorem AllGroups.ownGroups (h : s.AllGroups P) : ∀ g ∈ s.ownGroups, P g := by
  intro g hg
  unfold Registry.ownGroups at hg
  cases hf : s.events.find? ownEvent with
  | none =>
      rw [hf] at hg
      cases hg
  | some gs =>
      rw [hf] at hg
      exact h ownEvent gs (Keyed.Map.mem_entries_of_find? hf) g hg

theorem AllGroups.insert (h : s.AllGroups P) {gs : List Group} (hgs : ∀ g ∈ gs, P g)
    (event : String) : AllGroups P { s with events := s.events.insert event gs } := by
  intro event' gs' hmem
  rcases Keyed.mem_insert hmem with e | hmem
  · obtain ⟨-, rfl⟩ := Prod.mk.inj e
    exact hgs
  · exact h event' gs' hmem

theorem AllGroups.erase (h : s.AllGroups P) (event : String) :
    AllGroups P { s with events := s.events.erase event } :=
  fun event' gs' hmem => h event' gs' (List.mem_filter.1 hmem).1

theorem forall_addOwn (hadd : ∀ g, P g → P { g with entries := g.entries ++ [ownEntry] })
    (hown : P ⟨ownMatcher, [ownEntry], .empty⟩) {gs : List Group} (h : ∀ g ∈ gs, P g) :
    ∀ g ∈ Group.addOwn gs, P g := by
  induction gs with
  | nil =>
      intro g hg
      rw [List.mem_singleton.1 hg]
      exact hown
  | cons g gs ih =>
      have first := h g List.mem_cons_self
      have rest := fun k hk => h k (List.mem_cons_of_mem g hk)
      intro k hk
      rw [Group.addOwn] at hk
      split at hk
      · rcases List.mem_cons.1 hk with rfl | hk
        · exact hadd g first
        · exact rest k hk
      · rcases List.mem_cons.1 hk with rfl | hk
        · exact first
        · exact ih rest k hk

/-- A property that does not depend on our hook being in a group is kept by both changes. -/
theorem AllGroups.apply (hadd : ∀ g, P g → P { g with entries := g.entries ++ [ownEntry] })
    (hown : P ⟨ownMatcher, [ownEntry], .empty⟩) (hdrop : ∀ g, P g → P g.dropOwn)
    (h : s.AllGroups P) (e : Edit) : (e.apply s).AllGroups P := by
  cases e with
  | add =>
      simp only [Edit.apply, Edit.attempt, Registry.add]
      split
      · exact h
      · exact h.insert (forall_addOwn hadd hown h.ownGroups) ownEvent
  | remove =>
      simp only [Edit.apply, Edit.attempt, Registry.remove_eq]
      split
      · have kept : ∀ g ∈ (s.ownGroups.map Group.dropOwn).filter (!·.entries.isEmpty), P g := by
          intro g hg
          obtain ⟨k, hk, rfl⟩ := List.mem_map.1 (List.mem_filter.1 hg).1
          exact hdrop k (h.ownGroups k hk)
        simp only [Option.getD_some]
        split
        · exact h.erase ownEvent
        · exact h.insert kept ownEvent
      · exact h

theorem other_apply (s : Registry) (e : Edit) : (e.apply s).other = s.other := by
  cases e with
  | add =>
      simp only [Edit.apply, Edit.attempt, Registry.add]
      split <;> rfl
  | remove =>
      simp only [Edit.apply, Edit.attempt, Registry.remove_eq]
      split <;> rfl

end Registry

variable {s : Registry}

theorem isSound_ownEntry (n : Nat) : ownEntry.IsSound n :=
  isCarried_empty _ _

/-- Sound settings stay sound. -/
theorem isSound_apply {n : Nat} (h : s.IsSound n) (e : Edit) : (e.apply s).IsSound n := by
  obtain ⟨groups, carried⟩ := h
  refine ⟨?_, by rwa [Registry.other_apply]⟩
  refine Registry.AllGroups.apply ?_ ?_ ?_ groups e
  · rintro g ⟨hentries, hextra⟩
    refine ⟨fun k hk => ?_, hextra⟩
    rcases List.mem_append.1 hk with hk | hk
    · exact hentries k hk
    · rw [List.mem_singleton.1 hk]
      exact isSound_ownEntry n
  · refine ⟨fun k hk => ?_, isCarried_empty _ _⟩
    rw [List.mem_singleton.1 hk]
    exact isSound_ownEntry n
  · rintro g ⟨hentries, hextra⟩
    exact ⟨fun k hk => hentries k (List.mem_filter.1 hk).1, hextra⟩

end Edits

end Editor
end Decomment
