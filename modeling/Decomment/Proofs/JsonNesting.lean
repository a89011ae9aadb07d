import Decomment.Proofs.JsonText

/-!
# Nesting

The reader keeps the arrays and objects around a value on its stack, and opens no more than
`maxNesting` of them.  So it puts together every value that nests no deeper, and no other value
comes out of it.  Sorting the members of an object does not add to the depth.

**Results.**
* `runFrom_tokens`: the tokens of a value that is not too deep are read as the value.
* `read_write`: a value without doubles that is not too deep is read back from its text.
* `depth_le_of_read`: what is read is not too deep.
* `normalize_normalize`, `depth_normalize_le`: normalising again changes nothing, and normalising
  does not make a value deeper.
-/

namespace Decomment
namespace Json

namespace Value

mutual

/-- The greatest number of arrays and objects around a part of the value, with the value itself. -/
def depth : Value → Nat
  | .array vs => depthOfAll vs + 1
  | .object ms => depthOfMembers ms + 1
  | _ => 0

def depthOfAll : List Value → Nat
  | [] => 0
  | v :: vs => max (depth v) (depthOfAll vs)

def depthOfMembers : Members → Nat
  | [] => 0
  | (_, v) :: ms => max (depth v) (depthOfMembers ms)

end

section Depths

variable {n : Nat} {vs : List Value} {ms : Members}

theorem depthOfAll_le_iff : depthOfAll vs ≤ n ↔ ∀ v ∈ vs, v.depth ≤ n := by
  induction vs with
  | nil => simp [depthOfAll]
  | cons v vs ih => rw [depthOfAll, Nat.max_le, ih, List.forall_mem_cons]

theorem depthOfMembers_le_iff : depthOfMembers ms ≤ n ↔ ∀ m ∈ ms, m.2.depth ≤ n := by
  induction ms with
  | nil => simp [depthOfMembers]
  | cons m ms ih => rw [depthOfMembers, Nat.max_le, ih, List.forall_mem_cons]

theorem depth_array_le_iff : (array vs).depth ≤ n + 1 ↔ ∀ v ∈ vs, v.depth ≤ n := by
  rw [depth, Nat.add_le_add_iff_right, depthOfAll_le_iff]

theorem depth_object_le_iff : (object ms).depth ≤ n + 1 ↔ ∀ m ∈ ms, m.2.depth ≤ n := by
  rw [depth, Nat.add_le_add_iff_right, depthOfMembers_le_iff]

end Depths

section Normalising

theorem normalizeMembers_of_forall {ms : Members} (h : ∀ m ∈ ms, m.2.normalize = m.2) :
    normalizeMembers ms = ms := by
  induction ms with
  | nil => rfl
  | cons m ms ih =>
      obtain ⟨k, v⟩ := m
      have first : v.normalize = v := h (k, v) List.mem_cons_self
      rw [normalizeMembers, first, ih fun d hd => h d (List.mem_cons_of_mem _ hd)]

theorem normalizeAll_of_forall {vs : List Value} (h : ∀ v ∈ vs, v.normalize = v) :
    normalizeAll vs = vs := by
  induction vs with
  | nil => rfl
  | cons v vs ih =>
      rw [normalizeAll, h v List.mem_cons_self, ih fun d hd => h d (List.mem_cons_of_mem _ hd)]

mutual

/-- Normalising again changes nothing. -/
theorem normalize_normalize : ∀ v : Value, v.normalize.normalize = v.normalize
  | .null => rfl
  | .bool _ => rfl
  | .number _ => rfl
  | .string _ => rfl
  | .array vs => by
      rw [normalize, normalize, normalizeAll_of_forall (normalize_of_mem_normalizeAll vs)]
  | .object ms => by
      have normal : ∀ m ∈ Keyed.ofList (normalizeMembers ms), m.2.normalize = m.2 :=
        fun m hm => normalize_of_mem_normalizeMembers ms m (Keyed.mem_of_mem_ofList hm)
      rw [normalize, normalize, normalizeMembers_of_forall normal,
        Keyed.ofList_of_sorted (Keyed.sorted_ofList _)]

theorem normalize_of_mem_normalizeAll :
    ∀ vs : List Value, ∀ v ∈ normalizeAll vs, v.normalize = v
  | [], v, h => by cases h
  | w :: vs, v, h => by
      rcases List.mem_cons.1 h with rfl | h
      · exact normalize_normalize w
      · exact normalize_of_mem_normalizeAll vs v h

theorem normalize_of_mem_normalizeMembers :
    ∀ ms : Members, ∀ m ∈ normalizeMembers ms, m.2.normalize = m.2
  | [], m, h => by cases h
  | (k, w) :: ms, m, h => by
      rcases List.mem_cons.1 h with rfl | h
      · exact normalize_normalize w
      · exact normalize_of_mem_normalizeMembers ms m h

end

mutual

/-- Normalising does not make a value deeper. -/
theorem depth_normalize_le : ∀ v : Value, v.normalize.depth ≤ v.depth
  | .null => Nat.le_refl _
  | .bool _ => Nat.le_refl _
  | .number _ => Nat.le_refl _
  | .string _ => Nat.le_refl _
  | .array vs => by
      rw [normalize, depth, depth]
      exact Nat.add_le_add_right (depthOfAll_le_iff.2 (depth_le_of_mem_normalizeAll vs)) 1
  | .object ms => by
      rw [normalize, depth, depth]
      exact Nat.add_le_add_right (depthOfMembers_le_iff.2 fun m hm =>
        depth_le_of_mem_normalizeMembers ms m (Keyed.mem_of_mem_ofList hm)) 1

theorem depth_le_of_mem_normalizeAll :
    ∀ vs : List Value, ∀ v ∈ normalizeAll vs, v.depth ≤ depthOfAll vs
  | [], v, h => by cases h
  | w :: vs, v, h => by
      rcases List.mem_cons.1 h with rfl | h
      · exact Nat.le_trans (depth_normalize_le w) (Nat.le_max_left _ _)
      · exact Nat.le_trans (depth_le_of_mem_normalizeAll vs v h) (Nat.le_max_right _ _)

theorem depth_le_of_mem_normalizeMembers :
    ∀ ms : Members, ∀ m ∈ normalizeMembers ms, m.2.depth ≤ depthOfMembers ms
  | [], m, h => by cases h
  | (k, w) :: ms, m, h => by
      rcases List.mem_cons.1 h with rfl | h
      · exact Nat.le_trans (depth_normalize_le w) (Nat.le_max_left _ _)
      · exact Nat.le_trans (depth_le_of_mem_normalizeMembers ms m h) (Nat.le_max_right _ _)

end

end Normalising

end Value

namespace Reader

open Value

section Forward

theorem runFrom_beginArray {frames : List Frame} (h : frames.length < maxNesting)
    (ts : List Token) :
    runFrom ⟨frames, .value⟩ (.beginArray :: ts) =
      runFrom ⟨.array [] :: frames, .firstElement⟩ ts := by
  have opened : step ⟨frames, .value⟩ .beginArray = some ⟨.array [] :: frames, .firstElement⟩ :=
    if_pos h
  rw [runFrom, opened, Option.bind_some]

/-- The name of the first member, if there is room for an object. -/
theorem runFrom_beginObject {frames : List Frame} (h : frames.length < maxNesting)
    (ts : List Token) :
    runFrom ⟨frames, .value⟩ (.beginObject :: ts) = runFrom ⟨frames, .key [] true⟩ ts := by
  have opened : step ⟨frames, .value⟩ .beginObject = some ⟨frames, .key [] true⟩ := if_pos h
  rw [runFrom, opened, Option.bind_some]

/-- The first element of an array is read as every value is. -/
theorem runFrom_firstElement (frames : List Frame) (v : Value) (ts : List Token) :
    runFrom ⟨.array [] :: frames, .firstElement⟩ (v.tokens ++ ts) =
      runFrom ⟨.array [] :: frames, .value⟩ (v.tokens ++ ts) := by
  cases v with
  | array vs => cases vs <;> rfl
  | object ms => cases ms <;> rfl
  | _ => rfl

mutual

/-- The tokens of a value that is not too deep are read as the value. -/
theorem runFrom_tokens (frames : List Frame) (ts : List Token) :
    ∀ v : Value, frames.length + v.depth ≤ maxNesting →
      runFrom ⟨frames, .value⟩ (v.tokens ++ ts) = runFrom ⟨frames, .after v⟩ ts
  | .null, _ => rfl
  | .bool _, _ => rfl
  | .number _, _ => rfl
  | .string _, _ => rfl
  | .array [], h => runFrom_beginArray h _
  | .array (v :: vs), h => by
      rw [depth, depthOfAll] at h
      have first : (Frame.array [] :: frames).length + v.depth ≤ maxNesting := by
        rw [List.length_cons]
        omega
      simp only [tokens, List.append_assoc, List.cons_append, List.nil_append]
      rw [runFrom_beginArray (by omega), runFrom_firstElement, runFrom_tokens _ _ v first,
        runFrom_elementTokens frames ts vs v [] (by omega)]
      rfl
  | .object [], h => runFrom_beginObject h _
  | .object ((k, v) :: ms), h => by
      rw [depth, depthOfMembers] at h
      have first : (Frame.object [] k :: frames).length + v.depth ≤ maxNesting := by
        rw [List.length_cons]
        omega
      have named : ∀ us, runFrom ⟨frames, .key [] true⟩ (.string k :: .colon :: us) =
          runFrom ⟨.object [] k :: frames, .value⟩ us := fun _ => rfl
      simp only [tokens, List.append_assoc, List.cons_append, List.nil_append]
      rw [runFrom_beginObject (by omega), named, runFrom_tokens _ _ v first,
        runFrom_memberTokens frames ts ms k v [] (by omega)]
      rfl

theorem runFrom_elementTokens (frames : List Frame) (ts : List Token) :
    ∀ (vs : List Value) (u : Value) (done : List Value),
      frames.length + 1 + depthOfAll vs ≤ maxNesting →
        runFrom ⟨.array done :: frames, .after u⟩ (elementTokens vs ++ ts) =
          runFrom ⟨frames, .after (.array ((u :: done).reverse ++ vs))⟩ ts
  | [], u, done, _ => by
      rw [List.append_nil]
      rfl
  | v :: vs, u, done, h => by
      rw [depthOfAll] at h
      have first : (Frame.array (u :: done) :: frames).length + v.depth ≤ maxNesting := by
        rw [List.length_cons]
        omega
      have next : ∀ us, runFrom ⟨.array done :: frames, .after u⟩ (.comma :: us) =
          runFrom ⟨.array (u :: done) :: frames, .value⟩ us := fun _ => rfl
      simp only [elementTokens, List.append_assoc, List.cons_append, List.nil_append]
      rw [next, runFrom_tokens _ _ v first,
        runFrom_elementTokens frames ts vs v (u :: done) (by omega),
        List.reverse_cons, List.append_assoc, List.singleton_append]

theorem runFrom_memberTokens (frames : List Frame) (ts : List Token) :
    ∀ (ms : Members) (k : String) (u : Value) (done : Members),
      frames.length + 1 + depthOfMembers ms ≤ maxNesting →
        runFrom ⟨.object done k :: frames, .after u⟩ (memberTokens ms ++ ts) =
          runFrom ⟨frames, .after (.object (((k, u) :: done).reverse ++ ms))⟩ ts
  | [], k, u, done, _ => by
      rw [List.append_nil]
      rfl
  | (k', v) :: ms, k, u, done, h => by
      rw [depthOfMembers] at h
      have first : (Frame.object ((k, u) :: done) k' :: frames).length + v.depth ≤ maxNesting := by
        rw [List.length_cons]
        omega
      have next : ∀ us, runFrom ⟨.object done k :: frames, .after u⟩
          (.comma :: .string k' :: .colon :: us) =
            runFrom ⟨.object ((k, u) :: done) k' :: frames, .value⟩ us := fun _ => rfl
      simp only [memberTokens, List.append_assoc, List.cons_append, List.nil_append]
      rw [next, runFrom_tokens _ _ v first,
        runFrom_memberTokens frames ts ms k' v ((k, u) :: done) (by omega),
        List.reverse_cons, List.append_assoc, List.singleton_append]

end

end Forward

section Backward

/-- The values that were read of an open array or object. -/
def Frame.values : Frame → List Value
  | .array done => done
  | .object done _ => done.map (·.2)

/-- The arrays and objects that are open are few enough for what was read of them. -/
def FramesFit : List Frame → Prop
  | [] => True
  | f :: fs =>
      fs.length < maxNesting ∧ (∀ v ∈ f.values, v.depth + fs.length < maxNesting) ∧ FramesFit fs

/-- What was read last fits in as well. -/
def State.Fits (s : State) : Prop :=
  FramesFit s.frames ∧
    match s.phase with
    | .value => True
    | .firstElement => True
    | .key done _ => FramesFit (.object done "" :: s.frames)
    | .colon done _ => FramesFit (.object done "" :: s.frames)
    | .after v => v.depth + s.frames.length ≤ maxNesting

/-- The token is no value with parts. -/
def IsFlat (t : Token) : Prop :=
  ∀ v, t = .scalar v → v.depth = 0

variable {s s' : State} {t : Token}

theorem length_le_of_framesFit {fs : List Frame} (h : FramesFit fs) : fs.length ≤ maxNesting := by
  cases fs with
  | nil => exact Nat.zero_le _
  | cons f fs => exact h.1

/-- One more value of an array or object fits in. -/
theorem framesFit_cons {f : Frame} {fs : List Frame} {v : Value} {vs : List Value}
    (hv : v.depth + (fs.length + 1) ≤ maxNesting) (h : ∀ w ∈ vs, w.depth + fs.length < maxNesting)
    (hfs : FramesFit fs) (hf : f.values = v :: vs) : FramesFit (f :: fs) := by
  refine ⟨by omega, fun w hw => ?_, hfs⟩
  rw [hf] at hw
  rcases List.mem_cons.1 hw with rfl | hw
  · omega
  · exact h w hw

theorem depth_array_reverse_le {vs : List Value} {n : Nat}
    (h : ∀ v ∈ vs, v.depth + n < maxNesting) (hn : n < maxNesting) :
    (Value.array vs.reverse).depth + n ≤ maxNesting := by
  have parts : (Value.array vs.reverse).depth ≤ maxNesting - n - 1 + 1 := by
    refine depth_array_le_iff.2 fun v hv => ?_
    have room := h v (List.mem_reverse.1 hv)
    omega
  omega

theorem depth_object_reverse_le {ms : Members} {n : Nat}
    (h : ∀ v ∈ ms.map (·.2), v.depth + n < maxNesting) (hn : n < maxNesting) :
    (Value.object ms.reverse).depth + n ≤ maxNesting := by
  have parts : (Value.object ms.reverse).depth ≤ maxNesting - n - 1 + 1 := by
    refine depth_object_le_iff.2 fun m hm => ?_
    have room := h m.2 (List.mem_map_of_mem (List.mem_reverse.1 hm))
    omega
  omega

theorem fits_startValue {frames : List Frame} (ht : IsFlat t) (h : FramesFit frames)
    (hs : startValue frames t = some s') : s'.Fits := by
  have few := length_le_of_framesFit h
  unfold startValue at hs
  split at hs
  · rename_i v
    obtain rfl := Option.some.inj hs
    refine ⟨h, ?_⟩
    simp only [ht v rfl, Nat.zero_add, few]
  · obtain rfl := Option.some.inj hs
    exact ⟨h, by simpa [Value.depth] using few⟩
  · split at hs
    · rename_i room
      obtain rfl := Option.some.inj hs
      exact ⟨⟨room, (fun v hv => by cases hv), h⟩, trivial⟩
    · cases hs
  · split at hs
    · rename_i room
      obtain rfl := Option.some.inj hs
      exact ⟨h, room, (fun v hv => by cases hv), h⟩
    · cases hs
  · cases hs

theorem fits_continueAfter {frames : List Frame} {v : Value} (h : FramesFit frames)
    (hv : v.depth + frames.length ≤ maxNesting) (hs : continueAfter v frames t = some s') :
    s'.Fits := by
  unfold continueAfter at hs
  split at hs
  · obtain ⟨-, parts, rest⟩ := h
    obtain rfl := Option.some.inj hs
    exact ⟨framesFit_cons hv parts rest rfl, trivial⟩
  · rename_i done frames
    obtain ⟨room, parts, rest⟩ := h
    obtain rfl := Option.some.inj hs
    obtain ⟨-, all, -⟩ := framesFit_cons (f := .array (v :: done)) hv parts rest rfl
    exact ⟨rest, depth_array_reverse_le all room⟩
  · obtain ⟨-, parts, rest⟩ := h
    obtain rfl := Option.some.inj hs
    exact ⟨rest, framesFit_cons hv parts rest rfl⟩
  · rename_i done k frames
    obtain ⟨room, parts, rest⟩ := h
    obtain rfl := Option.some.inj hs
    obtain ⟨-, all, -⟩ := framesFit_cons (f := .object ((k, v) :: done) k) hv parts rest rfl
    exact ⟨rest, depth_object_reverse_le all room⟩
  · cases hs

/-- What fits in still does after one more token. -/
theorem fits_step (ht : IsFlat t) (h : s.Fits) (hs : step s t = some s') : s'.Fits := by
  obtain ⟨frames, phase⟩ := s
  obtain ⟨hframes, hphase⟩ := h
  cases phase with
  | value => exact fits_startValue ht hframes hs
  | firstElement =>
      simp only [step] at hs
      split at hs
      · obtain ⟨room, parts, rest⟩ := hframes
        obtain rfl := Option.some.inj hs
        exact ⟨rest, depth_array_reverse_le parts room⟩
      · exact fits_startValue ht hframes hs
  | key done mayEnd =>
      simp only [step] at hs
      split at hs
      · obtain rfl := Option.some.inj hs
        exact ⟨hframes, hphase⟩
      · split at hs
        · obtain ⟨room, parts, rest⟩ := hphase
          obtain rfl := Option.some.inj hs
          exact ⟨rest, depth_object_reverse_le parts room⟩
        · cases hs
      · cases hs
  | colon done k =>
      simp only [step] at hs
      split at hs
      · obtain rfl := Option.some.inj hs
        exact ⟨hphase, trivial⟩
      · cases hs
  | after v => exact fits_continueAfter hframes hphase hs

theorem fits_runFrom {ts : List Token} (hts : ∀ t ∈ ts, IsFlat t) (h : s.Fits)
    (hs : runFrom s ts = some s') : s'.Fits := by
  induction ts generalizing s with
  | nil =>
      obtain rfl := Option.some.inj hs
      exact h
  | cons t ts ih =>
      obtain ⟨next, hnext, hrest⟩ := Option.bind_eq_some_iff.1 hs
      exact ih (fun u hu => hts u (List.mem_cons_of_mem t hu))
        (fits_step (hts t List.mem_cons_self) h hnext) hrest

end Backward

end Reader

namespace Lexer

open Reader (IsFlat)

theorem isFlat_scalar {w : Text} {v : Value} (h : scalar w = some v) : IsFlat (.scalar v) := by
  intro u e
  obtain rfl := Token.scalar.inj e
  unfold scalar at h
  split at h
  · obtain rfl := Option.some.inj h
    rfl
  · split at h
    · obtain rfl := Option.some.inj h
      rfl
    · split at h
      · obtain rfl := Option.some.inj h
        rfl
      · obtain ⟨n, -, rfl⟩ := Option.map_eq_some_iff.1 h
        rfl

theorem isFlat_start {c : Char} {t : Token} (h : t ∈ (start c).1) : IsFlat t := by
  rintro v rfl
  unfold start at h
  split at h
  · cases h
  · split at h
    · cases h
    · split at h
      · rename_i k hk
        obtain rfl := Option.some.inj h
        unfold punctuation at hk
        split at hk <;> cases hk
      · cases h

theorem isFlat_step {m m' : Mode} {c : Char} {ts : List Token} (h : step m c = some (ts, m')) :
    ∀ t ∈ ts, IsFlat t := by
  have none : ts = [] → ∀ t ∈ ts, IsFlat t := by
    rintro rfl t ht
    cases ht
  cases m with
  | between =>
      obtain ⟨rfl, -⟩ := Prod.mk.inj (Option.some.inj h)
      exact fun t ht => isFlat_start (Option.mem_toList.1 ht)
  | word read =>
      simp only [step] at h
      split at h
      · obtain ⟨v, hv, h⟩ := Option.bind_eq_some_iff.1 h
        obtain ⟨rfl, -⟩ := Prod.mk.inj (Option.some.inj h)
        intro t ht
        rcases List.mem_append.1 ht with ht | ht
        · exact isFlat_start (Option.mem_toList.1 ht)
        · rw [List.mem_singleton.1 ht]
          exact isFlat_scalar hv
      · exact none (Prod.mk.inj (Option.some.inj h)).1.symm
  | string read =>
      simp only [step] at h
      split at h
      · obtain ⟨rfl, -⟩ := Prod.mk.inj (Option.some.inj h)
        intro t ht v e
        rw [List.mem_singleton.1 ht] at e
        cases e
      · split at h
        · exact none (Prod.mk.inj (Option.some.inj h)).1.symm
        · split at h
          · cases h
          · exact none (Prod.mk.inj (Option.some.inj h)).1.symm
  | escape read =>
      simp only [step] at h
      split at h
      · exact none (Prod.mk.inj (Option.some.inj h)).1.symm
      · obtain ⟨d, -, h⟩ := Option.map_eq_some_iff.1 h
        exact none (Prod.mk.inj h).1.symm
  | unit read high left code =>
      obtain ⟨n, -, h⟩ := Option.bind_eq_some_iff.1 h
      simp only at h
      split at h
      · obtain ⟨next, -, h⟩ := Option.bind_eq_some_iff.1 h
        exact none (Prod.mk.inj (Option.some.inj h)).1.symm
      · exact none (Prod.mk.inj (Option.some.inj h)).1.symm
  | pair read high =>
      simp only [step] at h
      split at h
      · exact none (Prod.mk.inj (Option.some.inj h)).1.symm
      · cases h
  | pairMark read high =>
      simp only [step] at h
      split at h
      · exact none (Prod.mk.inj (Option.some.inj h)).1.symm
      · cases h

theorem isFlat_of_finish {m : Mode} {ts : List Token} (h : finish m = some ts) :
    ∀ t ∈ ts, IsFlat t := by
  unfold finish at h
  split at h
  · obtain rfl := Option.some.inj h
    exact fun t ht => by cases ht
  · obtain ⟨v, hv, rfl⟩ := Option.map_eq_some_iff.1 h
    intro t ht
    rw [List.mem_singleton.1 ht]
    exact isFlat_scalar hv
  · cases h

theorem isFlat_of_lexFrom {done ts : List Token} {m : Mode} {t : Text}
    (hdone : ∀ k ∈ done, IsFlat k) (h : lexFrom done m t = some ts) : ∀ k ∈ ts, IsFlat k := by
  induction t generalizing done m with
  | nil =>
      obtain ⟨last, hlast, rfl⟩ := Option.map_eq_some_iff.1 h
      intro k hk
      rcases List.mem_append.1 (List.mem_reverse.1 hk) with hk | hk
      · exact isFlat_of_finish hlast k hk
      · exact hdone k hk
  | cons c cs ih =>
      rw [lexFrom] at h
      split at h
      · rename_i us next hstep
        refine ih (fun k hk => ?_) h
        rcases List.mem_append.1 hk with hk | hk
        · exact isFlat_step hstep k hk
        · exact hdone k hk
      · cases h

end Lexer

/-- A value without doubles that is not too deep is read back from its text. -/
theorem read_write {v : Value} (hexact : v.IsExact) (hdepth : v.depth ≤ maxNesting) :
    Value.read (v.write ++ ['\n']) = some v := by
  have read := Reader.runFrom_tokens [] [] v (by rwa [List.length_nil, Nat.zero_add])
  rw [List.append_nil] at read
  rw [Value.read, Lexer.lex_write hexact]
  simp only [bind, Option.bind, read]
  rfl

/-- What is read is not too deep. -/
theorem depth_le_of_read {t : Text} {v : Value} (h : Value.read t = some v) :
    v.depth ≤ maxNesting := by
  obtain ⟨ts, hlex, h⟩ := Option.bind_eq_some_iff.1 h
  obtain ⟨s, hrun, hresult⟩ := Option.bind_eq_some_iff.1 h
  have flat : ∀ k ∈ ts, Reader.IsFlat k := Lexer.isFlat_of_lexFrom (fun k hk => by cases hk) hlex
  obtain ⟨-, fits⟩ := Reader.fits_runFrom flat (s := ⟨[], .value⟩) ⟨trivial, trivial⟩ hrun
  unfold Reader.State.result at hresult
  split at hresult
  · obtain rfl := Option.some.inj hresult
    exact fits
  · cases hresult

end Json
end Decomment
