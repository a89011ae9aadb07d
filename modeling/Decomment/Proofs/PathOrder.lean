import Decomment.Proofs.Locations
import Mathlib.Data.List.Sort

/-!
# The order of paths

Paths are compared part by part, so of two paths with different parts exactly one comes before the
other, and sorting puts such paths in strict order.  A path below a root has the parts of the root
and then its names, so that paths with different names below one root have different parts.

**Results.**
* `before_trans`, `before_trichotomy`: the order of paths is strict and total up to their parts.
* `pairwise_sort`: paths with different parts are sorted into strict order.
* `eq_of_mem_iff`: paths in strict order are determined by which they are.
* `parts_join_intercalate`: the parts of a path below a root.
-/

namespace Decomment
namespace Path

section Order

/-- Parts are ordered by their kind, and names among themselves. -/
theorem Part.before_iff {a b : Part} : a.before b = true ↔
    a.rank < b.rank ∨ ∃ s t, a = .name s ∧ b = .name t ∧ s < t := by
  cases a with
  | name s =>
      cases b with
      | name t =>
          constructor
          · exact fun h => .inr ⟨s, t, rfl, rfl, of_decide_eq_true h⟩
          · rintro (h | ⟨s', t', hs, ht, h⟩)
            · exact absurd h (Nat.lt_irrefl _)
            · obtain rfl := Part.name.inj hs
              obtain rfl := Part.name.inj ht
              exact decide_eq_true h
      | _ => simp [before]
  | _ => simp [before]

theorem Part.before_trans {a b c : Part} (hab : a.before b = true) (hbc : b.before c = true) :
    a.before c = true := by
  rw [before_iff] at hab hbc ⊢
  rcases hab with hab | ⟨s, t, rfl, rfl, hst⟩ <;> rcases hbc with hbc | ⟨t', u, ht, rfl, htu⟩
  · exact .inl (Nat.lt_trans hab hbc)
  · subst ht
    exact .inl hab
  · exact .inl hbc
  · obtain rfl := Part.name.inj ht
    exact .inr ⟨s, u, rfl, rfl, String.lt_trans hst htu⟩

theorem Part.before_trichotomy (a b : Part) :
    a.before b = true ∨ a = b ∨ b.before a = true := by
  rw [before_iff, before_iff]
  rcases Nat.lt_trichotomy a.rank b.rank with h | h | h
  · exact .inl (.inl h)
  · cases a with
    | name s =>
        cases b with
        | name t =>
            rcases Std.lt_trichotomy s t with hlt | rfl | hlt
            · exact .inl (.inr ⟨s, t, rfl, rfl, hlt⟩)
            · exact .inr (.inl rfl)
            · exact .inr (.inr (.inr ⟨t, s, rfl, rfl, hlt⟩))
        | _ => cases h
    | _ => cases b <;> first | exact .inr (.inl rfl) | cases h
  · exact .inr (.inr (.inl h))

theorem partsBefore_cons_iff {a b : Part} {as bs : List Part} :
    partsBefore (a :: as) (b :: bs) = true ↔
      a.before b = true ∨ a = b ∧ partsBefore as bs = true := by
  simp [partsBefore]

theorem partsBefore_trans : ∀ {as bs cs : List Part}, partsBefore as bs = true →
    partsBefore bs cs = true → partsBefore as cs = true
  | _, [], _, hab, _ => by simp [partsBefore] at hab
  | _, _ :: _, [], _, hbc => by simp [partsBefore] at hbc
  | [], _ :: _, _ :: _, _, _ => rfl
  | a :: as, b :: bs, c :: cs, hab, hbc => by
      rw [partsBefore_cons_iff] at hab hbc ⊢
      rcases hab with hab | ⟨rfl, hab⟩
      · rcases hbc with hbc | ⟨rfl, -⟩
        · exact .inl (Part.before_trans hab hbc)
        · exact .inl hab
      · rcases hbc with hbc | ⟨rfl, hbc⟩
        · exact .inl hbc
        · exact .inr ⟨rfl, partsBefore_trans hab hbc⟩

theorem partsBefore_trichotomy : ∀ as bs : List Part,
    partsBefore as bs = true ∨ as = bs ∨ partsBefore bs as = true
  | [], [] => .inr (.inl rfl)
  | [], _ :: _ => .inl rfl
  | _ :: _, [] => .inr (.inr rfl)
  | a :: as, b :: bs => by
      rw [partsBefore_cons_iff, partsBefore_cons_iff]
      rcases Part.before_trichotomy a b with h | rfl | h
      · exact .inl (.inl h)
      · rcases partsBefore_trichotomy as bs with h | rfl | h
        · exact .inl (.inr ⟨rfl, h⟩)
        · exact .inr (.inl rfl)
        · exact .inr (.inr (.inr ⟨rfl, h⟩))
      · exact .inr (.inr (.inl h))

variable {p q r : String}

theorem before_trans (hpq : before p q = true) (hqr : before q r = true) : before p r = true :=
  partsBefore_trans hpq hqr

/-- Of two paths with different parts, one comes before the other. -/
theorem before_trichotomy (p q : String) :
    before p q = true ∨ parts p = parts q ∨ before q p = true :=
  partsBefore_trichotomy _ _

theorem not_before_of_before (h : before p q = true) : before q p = false := by
  cases hqp : before q p with
  | false => rfl
  | true => rw [← before_irrefl p, before_trans h hqp]

instance : Std.Irrefl fun p q => before p q = true :=
  ⟨fun p h => by rw [before_irrefl] at h; cases h⟩

instance : Std.Antisymm fun p q => before p q = true :=
  ⟨fun _ _ hpq hqp => by rw [not_before_of_before hpq] at hqp; cases hqp⟩

/-- Paths in strict order are determined by which they are. -/
theorem eq_of_mem_iff {ps qs : List String} (hps : ps.Pairwise fun p q => before p q = true)
    (hqs : qs.Pairwise fun p q => before p q = true) (h : ∀ p, p ∈ ps ↔ p ∈ qs) : ps = qs :=
  hps.eq_of_mem_iff hqs h

/-- Sorting puts paths with different parts in strict order. -/
theorem pairwise_sort {ps : List String} (h : ps.Pairwise fun p q => parts p ≠ parts q) :
    (sort ps).Pairwise fun p q => before p q = true := by
  have ordered : (sort ps).Pairwise fun p q => (!before q p) = true := by
    refine List.pairwise_mergeSort (fun p q r hpq hqr => ?_) (fun p q => ?_) ps
    · rw [Bool.not_eq_true'] at hpq hqr ⊢
      rcases before_trichotomy p q with h | h | h
      · cases hrp : before r p with
        | false => rfl
        | true => rw [← hqr, before_trans hrp h]
      · rwa [before, h]
      · rw [hpq] at h
        cases h
    · cases hqp : before q p with
      | false => rfl
      | true => simp [not_before_of_before hqp]
  have distinct : (sort ps).Pairwise fun p q => parts p ≠ parts q :=
    h.perm (List.mergeSort_perm _ _).symm fun hne => hne.symm
  refine (ordered.and distinct).imp fun {p q} ⟨hqp, hne⟩ => ?_
  rcases before_trichotomy p q with h | h | h
  · exact h
  · exact absurd h hne
  · rw [h] at hqp
    cases hqp

end Order

section Below

variable {root : String} {ns : List String}

theorem eq_empty_of_pieces {p : String} (h : pieces p = [""]) : p = "" := by
  have split : p.toList.splitOn '/' = [[]] := by
    rw [pieces] at h
    obtain ⟨t, rest, e, ht, hrest⟩ := List.map_eq_cons_iff.1 h
    rw [e, List.map_eq_nil_iff.1 hrest, String.ofList_eq_empty_iff.1 ht]
  have joined : ['/'].intercalate (p.toList.splitOn '/') = p.toList := List.intercalate_splitOn '/'
  rw [split, List.intercalate_singleton] at joined
  exact String.toList_eq_nil_iff.1 joined.symm

/-- The parts of a path below a root are those of the root and then the names. -/
theorem parts_join_intercalate (hroot : root ≠ "") (hns : ∀ s ∈ ns, IsName s) (hne : ns ≠ []) :
    parts (join root ("/".intercalate ns)) = parts root ++ ns.map .name := by
  have plain := (isPlain_intercalate hns hne).1
  obtain ⟨-, habs, ps, hpieces, hps⟩ := pieces_join hroot (isAbsolute_of_isPlain plain)
  rw [pieces_intercalate (fun s hs => (hns s hs).2) hne] at hpieces
  have nonempty : ps ≠ [] := by
    rintro rfl
    rcases hps with e | e
    · exact pieces_ne_nil root e
    · exact hroot (eq_empty_of_pieces e)
  have head : (ps ++ ns).head? = (pieces root).head? := by
    rcases hps with e | e <;> rw [e]
    · exact List.head?_append_of_ne_nil _ nonempty
    · rw [List.head?_append_of_ne_nil _ nonempty, List.head?_append_of_ne_nil _ nonempty]
  have counted : ps.filterMap partOfPiece = (pieces root).filterMap partOfPiece := by
    rcases hps with e | e <;> rw [e]
    rw [List.filterMap_append]
    exact (List.append_nil _).symm
  rw [parts, habs, hpieces, head, List.filterMap_append, counted, filterMap_partOfPiece hns, parts,
    List.append_assoc]

theorem names_join_intercalate (hroot : root ≠ "") (hns : ∀ s ∈ ns, IsName s) (hne : ns ≠ []) :
    names (join root ("/".intercalate ns)) = names root ++ ns := by
  rw [names, parts_join_intercalate hroot hns hne, List.filterMap_append, names, List.filterMap_map]
  exact congrArg _ List.filterMap_some

end Below

end Path
end Decomment
