import Mathlib.Tactic

/-!
# Framed streams

A format cuts records off the front of a stream. Reading is incremental: the reader holds the bytes
it could not cut yet and appends what arrives. Since a cut never depends on later bytes, what is
read does not depend on how the stream was split.

## Main definitions

* `Format`: a self-delimiting record format, with the laws of a cut
* `Format.drain`: cut records as long as possible
* `Format.feed`: append one piece and cut; `Format.feedAll`: a whole sequence of pieces

## Main results

* `Format.drain_append`: draining a longer stream continues draining its front
* `Format.feedAll_eq`: pieces are read as their concatenation
* `Format.drain_flatMap`: a stream of encoded records is read as these records
* `Format.drain_encode`: what was read encodes the front of the stream
-/

namespace Interaction

/-- What the front of a stream holds: less than a record, a record with its length, or garbage. -/
inductive Cut (R E : Type)
  | more
  | done (record : R) (length : Nat)
  | fail (error : E)

/-- A record format: a complete record, or an error, is recognised whatever follows it. -/
structure Format (α R E : Type) where
  cut : List α → Cut R E
  done_pos : ∀ {b r n}, cut b = .done r n → 0 < n
  done_le : ∀ {b r n}, cut b = .done r n → n ≤ b.length
  done_append : ∀ {b r n} (c : List α), cut b = .done r n → cut (b ++ c) = .done r n
  fail_append : ∀ {b e} (c : List α), cut b = .fail e → cut (b ++ c) = .fail e

namespace Format

variable {α R E : Type} (F : Format α R E)

/-- The records at the front of a stream, and what is left: the bytes of an incomplete record, or
the error that stopped the cutting. -/
def drain (b : List α) : List R × Except E (List α) :=
  match h : F.cut b with
  | .more => ([], .ok b)
  | .fail e => ([], .error e)
  | .done r n =>
    have : b.length - n < b.length := by
      have := F.done_pos h
      have := F.done_le h
      omega
    (r :: (drain (b.drop n)).1, (drain (b.drop n)).2)
  termination_by b.length

variable {F}

theorem drain_more {b : List α} (h : F.cut b = .more) : F.drain b = ([], .ok b) := by
  rw [drain]
  split <;> simp_all

theorem drain_fail {b : List α} {e : E} (h : F.cut b = .fail e) : F.drain b = ([], .error e) := by
  rw [drain]
  split <;> simp_all

theorem drain_done {b : List α} {r : R} {n : Nat} (h : F.cut b = .done r n) :
    F.drain b = (r :: (F.drain (b.drop n)).1, (F.drain (b.drop n)).2) := by
  rw [drain]
  split <;> simp_all

/-- What is left after draining is the end of the stream, and holds no complete record. -/
theorem drain_rest {b rest : List α} (h : (F.drain b).2 = .ok rest) :
    F.cut rest = .more ∧ rest <:+ b := by
  induction hb : b.length using Nat.strongRecOn generalizing b with
  | _ n ih =>
    cases hcut : F.cut b with
    | more =>
      rw [drain_more hcut] at h
      obtain rfl : b = rest := by simpa using h
      exact ⟨hcut, List.suffix_refl b⟩
    | fail e =>
      rw [drain_fail hcut] at h
      simp at h
    | done r m =>
      rw [drain_done hcut] at h
      have hpos := F.done_pos hcut
      have hle := F.done_le hcut
      obtain ⟨hmore, hsuffix⟩ := ih (b.drop m).length
        (by simp only [List.length_drop]; omega) h rfl
      exact ⟨hmore, hsuffix.trans (List.drop_suffix m b)⟩

theorem drain_of_rest {b rest : List α} (h : (F.drain b).2 = .ok rest) :
    F.drain rest = ([], .ok rest) :=
  drain_more (drain_rest h).1

/-- **Draining is incremental**: draining a longer stream first drains its front, and continues on
what that left. -/
theorem drain_append (b c : List α) :
    F.drain (b ++ c) = match F.drain b with
      | (rs, .ok rest) => (rs ++ (F.drain (rest ++ c)).1, (F.drain (rest ++ c)).2)
      | (rs, .error e) => (rs, .error e) := by
  induction hb : b.length using Nat.strongRecOn generalizing b with
  | _ n ih =>
    cases hcut : F.cut b with
    | more => simp only [drain_more hcut, List.nil_append]
    | fail e => simp only [drain_fail hcut, drain_fail (F.fail_append c hcut)]
    | done r m =>
      have hpos := F.done_pos hcut
      have hle := F.done_le hcut
      have htail := ih (b.drop m).length (by simp only [List.length_drop]; omega) (b.drop m) rfl
      rw [drain_done (F.done_append c hcut), drain_done hcut, List.drop_append_of_le_length hle,
        htail]
      rcases hdrain : F.drain (b.drop m) with ⟨rs, rest | e⟩ <;> simp

/-- What drains completely, drains in its front: the records found first, and no error. -/
theorem drain_part {b c : List α} {rs : List R} {rest : List α}
    (h : F.drain (b ++ c) = (rs, .ok rest)) :
    ∃ rs₁ rest₁, F.drain b = (rs₁, .ok rest₁) ∧ rs₁ <+: rs := by
  rw [drain_append] at h
  rcases hdrain : F.drain b with ⟨rs₁, e | rest₁⟩
  · simp [hdrain] at h
  · simp only [hdrain, Prod.mk.injEq] at h
    exact ⟨rs₁, rest₁, rfl, h.1 ▸ List.prefix_append _ _⟩

variable (F)

/-- Append one piece to what the reader holds, and cut. -/
def feed (held : Except E (List α)) (piece : List α) : List R × Except E (List α) :=
  match held with
  | .error e => ([], .error e)
  | .ok rest => F.drain (rest ++ piece)

/-- Feed a sequence of pieces. -/
def feedAll (held : Except E (List α)) : List (List α) → List R × Except E (List α)
  | [] => ([], held)
  | piece :: pieces =>
    ((F.feed held piece).1 ++ (feedAll (F.feed held piece).2 pieces).1,
      (feedAll (F.feed held piece).2 pieces).2)

variable {F}

theorem feedAll_error (e : E) (pieces : List (List α)) :
    F.feedAll (.error e) pieces = ([], .error e) := by
  induction pieces with
  | nil => rfl
  | cons piece pieces ih => simp [feedAll, feed, ih]

/-- **Split independence**: a reader holding no complete record reads pieces as their
concatenation. -/
theorem feedAll_eq {b : List α} (h : F.drain b = ([], .ok b)) (pieces : List (List α)) :
    F.feedAll (.ok b) pieces = F.drain (b ++ pieces.flatten) := by
  induction pieces generalizing b with
  | nil => simp [feedAll, h]
  | cons piece pieces ih =>
    rw [List.flatten_cons, ← List.append_assoc, drain_append (b ++ piece)]
    rcases hdrain : F.drain (b ++ piece) with ⟨rs, e | rest⟩
    · simp [feedAll, feed, hdrain, feedAll_error]
    · simp [feedAll, feed, hdrain, ih (drain_of_rest (b := b ++ piece) (by rw [hdrain]))]

/-- A stream of encoded records is read as these records, and then as what follows. -/
theorem drain_flatMap {encode : R → List α} {rs : List R}
    (h : ∀ r ∈ rs, ∀ c, F.cut (encode r ++ c) = .done r (encode r).length) (c : List α) :
    F.drain (rs.flatMap encode ++ c) = (rs ++ (F.drain c).1, (F.drain c).2) := by
  induction rs with
  | nil => simp
  | cons r rs ih =>
    rw [List.flatMap_cons, List.append_assoc, drain_done (h r (by simp) _), List.drop_left,
      ih fun r' hr' => h r' (List.mem_cons_of_mem r hr')]
    simp

/-- The records of a drained stream encode its front, and with what is left the whole of it. -/
theorem drain_encode {encode : R → List α}
    (hencode : ∀ {b r n}, F.cut b = .done r n → encode r = b.take n) (b : List α) :
    (F.drain b).1.flatMap encode <+: b ∧
      ∀ rest, (F.drain b).2 = .ok rest → (F.drain b).1.flatMap encode ++ rest = b := by
  induction hb : b.length using Nat.strongRecOn generalizing b with
  | _ n ih =>
    cases hcut : F.cut b with
    | more =>
      rw [drain_more hcut]
      refine ⟨List.nil_prefix, ?_⟩
      rintro rest ⟨⟩
      rfl
    | fail e =>
      rw [drain_fail hcut]
      exact ⟨List.nil_prefix, nofun⟩
    | done r m =>
      have hpos := F.done_pos hcut
      have hle := F.done_le hcut
      obtain ⟨hpart, hrest⟩ :=
        ih (b.drop m).length (by simp only [List.length_drop]; omega) (b.drop m) rfl
      rw [drain_done hcut, List.flatMap_cons, hencode hcut]
      constructor
      · have := (List.prefix_append_right_inj (b.take m)).mpr hpart
        rwa [List.take_append_drop] at this
      · intro rest h
        rw [List.append_assoc, hrest rest h, List.take_append_drop]

end Format

end Interaction
