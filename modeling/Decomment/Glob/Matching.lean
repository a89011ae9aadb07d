import Decomment.Glob.Comparison

/-!
# Matching globs

A pattern is matched against the bytes of a path from end to end.  A token takes bytes from the
front; what it may leave over is a list of endings of the path.  The star and the question mark
of an ignore file do not take a separator.  A character outside ASCII in a class stands for its
bytes.

**Results.**
* `mem_afterSeparators`: what components leave over starts after a separator.
* `matchesTokens_nil`: the empty pattern matches the empty path only.
* `matchesTokens_of_matchesPath`: what matches a path matches its bytes.
-/

namespace Decomment
namespace Glob

/-- The separator of components. -/
def separator : UInt8 :=
  0x2F

section Bytes

def bytesOf (c : Char) : List UInt8 :=
  (String.singleton c).toUTF8.toList

/-- The ranges of bytes that a member of a class stands for. -/
def byteRanges : Char × Char → List (UInt8 × UInt8)
  | (low, high) =>
      if low = high then (bytesOf low).map fun b => (b, b)
      else
        match (bytesOf low).getLast?, bytesOf high with
        | some b, c :: rest =>
            (bytesOf low).dropLast.map (fun b => (b, b)) ++ (b, c) :: rest.map fun b => (b, b)
        | _, _ => []

/-- The byte belongs to a class. -/
def isMember (ranges : List (Char × Char)) (b : UInt8) : Bool :=
  ranges.any fun r => (byteRanges r).any fun (low, high) => low ≤ b && b ≤ high

/-- What is left of a path after any number of bytes of a kind. -/
def afterMany (p : UInt8 → Bool) : List UInt8 → List (List UInt8)
  | [] => [[]]
  | b :: bs => (b :: bs) :: if p b then afterMany p bs else []

/-- What is left of a path after any of its separators. -/
def afterSeparators : List UInt8 → List (List UInt8)
  | [] => []
  | b :: bs => if b = separator then bs :: afterSeparators bs else afterSeparators bs

/-- What is left after one byte of a kind. -/
def afterOne (p : UInt8 → Bool) : List UInt8 → List (List UInt8)
  | [] => []
  | b :: bs => if p b then [bs] else []

/-- What is left after some bytes. -/
def afterBytes (m bs : List UInt8) : List (List UInt8) :=
  if m.isPrefixOf bs then [bs.drop m.length] else []

theorem mem_afterSeparators {u : List UInt8} : ∀ {t : List UInt8},
    u ∈ afterSeparators t → ∃ before, t = before ++ separator :: u
  | [], h => by simp [afterSeparators] at h
  | b :: bs, h => by
      rw [afterSeparators] at h
      split at h
      · rename_i hb
        rcases List.mem_cons.1 h with rfl | h
        · exact ⟨[], by rw [hb]; rfl⟩
        · obtain ⟨before, e⟩ := mem_afterSeparators h
          exact ⟨b :: before, by rw [e]; rfl⟩
      · obtain ⟨before, e⟩ := mem_afterSeparators h
        exact ⟨b :: before, by rw [e]; rfl⟩

end Bytes

section Tokens

mutual

/-- The token takes no byte, whatever the path. -/
def isVoid : Token → Bool
  | .either branches => areVoid branches
  | _ => false

def areVoid : List (List Token) → Bool
  | [] => true
  | b :: bs => isVoidBranch b && areVoid bs

/-- Every token of the branch is void. -/
def isVoidBranch : List Token → Bool
  | [] => true
  | t :: ts => isVoid t && isVoidBranch ts

end

mutual

/-- What a token may leave over.  With `within`, stars stay within a component. -/
def after (within : Bool) (t : List UInt8) : Token → List (List UInt8)
  | .literal c => afterBytes (bytesOf c) t
  | .any => afterOne (fun b => !within || b ≠ separator) t
  | .many => afterMany (fun b => !within || b ≠ separator) t
  | .leading => t :: afterSeparators t
  | .trailing => (afterOne (· = separator) t).flatMap (afterMany fun _ => true)
  | .between => (afterOne (· = separator) t).flatMap fun u => u :: afterSeparators u
  | .oneOf isNegated ranges => afterOne (fun b => isMember ranges b != isNegated) t
  | .either branches => if areVoid branches then [t] else afterBranches within t branches

/-- What the branches of a group may leave over.  A branch that takes nothing does not count. -/
def afterBranches (within : Bool) (t : List UInt8) : List (List Token) → List (List UInt8)
  | [] => []
  | b :: bs =>
      (if isVoidBranch b then [] else afterTokens within [t] b) ++ afterBranches within t bs

/-- What tokens in a row may leave over of any of some endings. -/
def afterTokens (within : Bool) (ts : List (List UInt8)) : List Token → List (List UInt8)
  | [] => ts
  | tok :: toks =>
      afterTokens within (afterEach within ts tok).eraseDups toks

/-- What a token may leave over of any of some endings. -/
def afterEach (within : Bool) (ts : List (List UInt8)) (tok : Token) : List (List UInt8) :=
  ts.flatMap fun t => after within t tok

end

/-- The tokens match the whole path.  Two stars alone match everything. -/
def matchesTokens (within : Bool) (toks : List Token) (t : List UInt8) : Bool :=
  match toks with
  | [.leading] => true
  | toks => (afterTokens within [t] toks).contains []

theorem matchesTokens_nil (within : Bool) (t : List UInt8) :
    matchesTokens within [] t = t.isEmpty := by
  rw [matchesTokens, afterTokens]
  · cases t <;> rfl
  · exact nofun

end Tokens

section Paths

/-- The path ends in two dots, which are no name. -/
def isNameless (t : List UInt8) : Bool :=
  let up := "..".toUTF8.toList
  t = up || (separator :: up).isSuffixOf t

/-- The tokens match the path.  If they look at its name, it has one. -/
def matchesPath (within : Bool) (toks : List Token) (path : String) : Bool :=
  let t := path.toUTF8.toList
  let looksAtName :=
    match comparison within toks with
    | .name | .extension => true
    | .text | .whole => false
  !(looksAtName && isNameless t) && matchesTokens within toks t

theorem matchesTokens_of_matchesPath {within : Bool} {toks : List Token} {path : String}
    (h : matchesPath within toks path = true) :
    matchesTokens within toks path.toUTF8.toList = true :=
  (Bool.and_eq_true_iff.1 h).2

end Paths

end Glob
end Decomment
