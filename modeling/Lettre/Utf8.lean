import Lettre.Bytes

/-!
# UTF-8

A Rust `String` is UTF-8: `str::from_utf8` accepts exactly the byte sequences that split into
well-formed characters (RFC 3629 §4: no overlong form, no surrogate, nothing past U+10FFFF).
`Utf8.valid` is that check, one byte at a time, and `Str` is a byte string that passed it, the
model of `String` and `&str`.

* `valid_append`: two valid texts laid end to end are valid.
* `valid_cut`: a valid text cut at a character boundary (before a byte that is not a
  continuation byte) leaves two valid texts. So reading a valid text line by line never splits a
  character (`valid_of_append_ascii`), and a slice `&s[i..j]` between two character boundaries
  is a `&str` again (`valid_slice`, used by `Str.slice`, which panics, as Rust does, elsewhere).
* `valid_replace`: `str::replace` of an ASCII pattern keeps a text valid.
* `valid_of_forall_lt`: ASCII text is valid.
* `trimEnd`: `str::trim_end`, which removes the characters of Unicode `White_Space` at the end
  of a text and never passes a visible ASCII character (`prefix_trimEnd`).
* `trim_space_cons`, `trim_append_space`, `trim_space_append`: a text `str::trim` keeps loses a
  space written before or after it, and keeps a space and a visible character written after it.
-/

namespace Lettre.Utf8

/-- RFC 3629 §4 by first byte: the range of first bytes, how many continuation bytes follow,
and the range the first of them must lie in (the later ones lie in `0x80..0xBF`). -/
def leadTable : List ((Nat × Nat) × Nat × Nat × Nat) :=
  [((0x00, 0x7F), 0, 0x80, 0xBF),
   ((0xC2, 0xDF), 1, 0x80, 0xBF),
   ((0xE0, 0xE0), 2, 0xA0, 0xBF),
   ((0xE1, 0xEC), 2, 0x80, 0xBF),
   ((0xED, 0xED), 2, 0x80, 0x9F),
   ((0xEE, 0xEF), 2, 0x80, 0xBF),
   ((0xF0, 0xF0), 3, 0x90, 0xBF),
   ((0xF1, 0xF3), 3, 0x80, 0xBF),
   ((0xF4, 0xF4), 3, 0x80, 0x8F)]

/-- The row of `leadTable` for a first byte; none for a byte no character starts with. -/
def lead (a : UInt8) : Option (Nat × Nat × Nat) :=
  (leadTable.find? fun r => r.1.1 ≤ a.toNat ∧ a.toNat ≤ r.1.2).map (·.2)

/-- Whether the bytes end on a character boundary, starting with `n` continuation bytes owed,
the next of them in `lo..hi`. -/
def validFrom : Nat → Nat → Nat → List UInt8 → Bool
  | 0, _, _, [] => true
  | _ + 1, _, _, [] => false
  | 0, _, _, a :: s =>
    match lead a with
    | some (n, lo, hi) => validFrom n lo hi s
    | none => false
  | n + 1, lo, hi, c :: s => lo ≤ c.toNat && c.toNat ≤ hi && validFrom n 0x80 0xBF s

/-- `str::from_utf8` succeeds. -/
def valid (b : List UInt8) : Bool := validFrom 0 0x80 0xBF b

theorem lead_lo {a : UInt8} {n lo hi : Nat} (h : lead a = some (n, lo, hi)) : 0x80 ≤ lo := by
  obtain ⟨r, hr, hr2⟩ := Option.map_eq_some'.mp h
  have hall : ∀ r ∈ leadTable, 0x80 ≤ r.2.2.1 := by decide
  simpa [hr2] using hall r (List.mem_of_find?_eq_some hr)

theorem lead_of_lt {a : UInt8} (h : a.toNat < 0x80) : lead a = some (0, 0x80, 0xBF) := by
  simp [lead, leadTable, List.find?, show a.toNat ≤ 127 by omega]

theorem validFrom_zero (lo hi : Nat) (b : List UInt8) : validFrom 0 lo hi b = valid b := by
  cases b <;> rfl

theorem validFrom_append :
    ∀ {n lo hi : Nat} {a : List UInt8} (b : List UInt8), validFrom n lo hi a = true →
      validFrom n lo hi (a ++ b) = valid b
  | 0, lo, hi, [], b, _ => validFrom_zero lo hi b
  | _ + 1, _, _, [], _, h => by simp [validFrom] at h
  | 0, _, _, x :: s, b, h => by
    rw [List.cons_append]
    simp only [validFrom] at h ⊢
    split at h
    · exact validFrom_append b h
    · cases h
  | _ + 1, _, _, x :: s, b, h => by
    rw [List.cons_append]
    simp only [validFrom, Bool.and_eq_true] at h ⊢
    rw [validFrom_append b h.2, h.1.1, h.1.2]
    rfl

theorem valid_append {a b : List UInt8} (ha : valid a = true) (hb : valid b = true) :
    valid (a ++ b) = true := by
  rw [valid, validFrom_append b ha, hb]

theorem lead_hi {a : UInt8} {n lo hi : Nat} (h : lead a = some (n, lo, hi)) : hi ≤ 0xBF := by
  obtain ⟨r, hr, hr2⟩ := Option.map_eq_some'.mp h
  have hall : ∀ r ∈ leadTable, r.2.2.2 ≤ 0xBF := by decide
  simpa [hr2] using hall r (List.mem_of_find?_eq_some hr)

/-- A continuation byte, `0x80..0xBF`: no character starts with one. -/
def IsCont (x : UInt8) : Prop := 0x80 ≤ x.toNat ∧ x.toNat ≤ 0xBF

instance (x : UInt8) : Decidable (IsCont x) := inferInstanceAs (Decidable (_ ∧ _))

theorem validFrom_cut {x : UInt8} (hx : ¬ IsCont x) (b : List UInt8) :
    ∀ {n lo hi : Nat} {a : List UInt8}, 0x80 ≤ lo → hi ≤ 0xBF →
      validFrom n lo hi (a ++ x :: b) = true → validFrom n lo hi a = true ∧ valid (x :: b) = true
  | 0, lo, hi, [], _, _, h => ⟨rfl, by rwa [List.nil_append, validFrom_zero] at h⟩
  | _ + 1, lo, hi, [], hlo, hhi, h => by
    simp only [List.nil_append, validFrom, Bool.and_eq_true, decide_eq_true_eq] at h
    exact absurd ⟨hlo.trans h.1.1, h.1.2.trans hhi⟩ hx
  | 0, _, _, y :: s, _, _, h => by
    rw [List.cons_append] at h
    simp only [validFrom] at h ⊢
    split at h
    · next hy => exact validFrom_cut hx b (lead_lo hy) (lead_hi hy) h
    · cases h
  | _ + 1, _, _, y :: s, _, _, h => by
    rw [List.cons_append] at h
    simp only [validFrom, Bool.and_eq_true] at h ⊢
    have ih := validFrom_cut hx b (le_refl _) (le_refl _) h.2
    exact ⟨⟨h.1, ih.1⟩, ih.2⟩

/-- **Cutting at a character boundary.** A valid text cut before a byte that is not a
continuation byte, or at its end, leaves two valid texts. -/
theorem valid_cut {a b : List UInt8} (h : valid (a ++ b) = true) (hb : ∀ x ∈ b.head?, ¬ IsCont x) :
    valid a = true ∧ valid b = true := by
  cases b with
  | nil => exact ⟨by simpa using h, rfl⟩
  | cons x b => exact validFrom_cut (hb x rfl) b (by decide) (by decide) h

theorem valid_cons_ascii {x : UInt8} {b : List UInt8} (hx : x.toNat < 0x80) :
    valid (x :: b) = valid b := by
  rw [valid, validFrom, lead_of_lt hx]
  rfl

/-- **Cutting at an ASCII byte.** The two sides of an ASCII byte in a valid text are valid. -/
theorem valid_of_append_ascii {a b : List UInt8} {x : UInt8} (hx : x.toNat < 0x80)
    (h : valid (a ++ x :: b) = true) : valid a = true ∧ valid b = true := by
  obtain ⟨ha, hb⟩ := valid_cut h (fun y hy => by cases hy; simp [IsCont]; omega)
  exact ⟨ha, by rwa [valid_cons_ascii hx] at hb⟩

theorem valid_of_forall_lt : ∀ {b : List UInt8}, (∀ x ∈ b, x.toNat < 0x80) → valid b = true
  | [], _ => rfl
  | x :: s, h => by
    rw [valid_cons_ascii (h x (List.mem_cons_self x s))]
    exact valid_of_forall_lt (fun y hy => h y (List.mem_cons_of_mem x hy))

/-- An ASCII prefix can be dropped from a valid text. -/
theorem valid_of_ascii_append : ∀ {u b : List UInt8}, (∀ x ∈ u, x.toNat < 0x80) →
    valid (u ++ b) = true → valid b = true
  | [], _, _, h => h
  | x :: u, _, hu, h => by
    rw [List.cons_append, valid_cons_ascii (hu x (List.mem_cons_self x u))] at h
    exact valid_of_ascii_append (fun y hy => hu y (List.mem_cons_of_mem x hy)) h

/-- `str::replace` of an ASCII pattern by a valid text keeps a text valid. -/
theorem valid_replace {pat rep : List UInt8} (hp : pat ≠ []) (hpat : ∀ x ∈ pat, x.toNat < 0x80)
    (hrep : valid rep = true) (s : List UInt8) (hs : valid s = true) :
    valid (replace s pat rep) = true := by
  rcases not_infix_or_first hp s with h | ⟨a, b, hsab, hab⟩
  · rwa [replace_absent h]
  · rw [hsab, replace_first hp b hab]
    rw [hsab] at hs
    obtain ⟨x, u, rfl⟩ := List.exists_cons_of_ne_nil hp
    rw [List.append_assoc, List.cons_append] at hs
    obtain ⟨ha, hub⟩ := valid_of_append_ascii (hpat x (List.mem_cons_self x u)) hs
    have hb := valid_of_ascii_append (fun y hy => hpat y (List.mem_cons_of_mem x hy)) hub
    exact valid_append (valid_append ha hrep) (valid_replace hp hpat hrep b hb)
termination_by s.length
decreasing_by rw [hsab]; simp only [List.length_append, List.length_cons]; omega

/-! ### Character boundaries -/

/-- `str::is_char_boundary`: the start, the end, or a byte that is not a continuation byte. -/
def isCharBoundary (s : List UInt8) (index : Nat) : Bool :=
  index == 0 || match s[index]? with
    | none => index == s.length
    | some b => !decide (IsCont b)

theorem isCharBoundary_drop {s : List UInt8} {i : Nat} (h : isCharBoundary s i = true)
    (hi : i ≠ 0) : ∀ x ∈ (s.drop i).head?, ¬ IsCont x := by
  intro x hx
  rw [List.head?_drop] at hx
  have hx' : s[i]? = some x := hx
  simpa [isCharBoundary, hi, hx'] using h

@[simp] theorem isCharBoundary_zero (s : List UInt8) : isCharBoundary s 0 = true := rfl

@[simp] theorem isCharBoundary_length (s : List UInt8) : isCharBoundary s s.length = true := by
  simp [isCharBoundary]

theorem isCharBoundary_le {s : List UInt8} {i : Nat} (h : isCharBoundary s i = true) :
    i ≤ s.length := by
  by_contra hlt
  have hnone : s[i]? = none := List.getElem?_eq_none_iff.mpr (by omega)
  simp only [isCharBoundary, hnone, Bool.or_eq_true, beq_iff_eq] at h
  omega

/-- No valid text starts with a continuation byte. -/
theorem not_isCont_of_valid {x : UInt8} {s : List UInt8} (h : valid (x :: s) = true) :
    ¬ IsCont x := by
  intro ⟨lo, hi⟩
  have hrows : ∀ r ∈ leadTable, ¬ (r.1.1 ≤ x.toNat ∧ x.toNat ≤ r.1.2) := by
    simp only [leadTable, List.mem_cons, List.not_mem_nil, or_false, forall_eq_or_imp,
      forall_eq, not_and, not_le]
    omega
  have hlead : lead x = none := by simpa [lead, List.find?_eq_none] using hrows
  simp [valid, validFrom, hlead] at h

/-- The end of a text, or the place before an ASCII byte, is a character boundary. -/
theorem isCharBoundary_append_of_ascii {a b : List UInt8} (h : ∀ x ∈ b.head?, x.toNat < 0x80) :
    isCharBoundary (a ++ b) a.length = true := by
  cases b with
  | nil => simp [isCharBoundary]
  | cons x b =>
    have hx : (a ++ x :: b)[a.length]? = some x := by
      rw [List.getElem?_append_right (Nat.le_refl _), Nat.sub_self, List.getElem?_cons_zero]
    simp [isCharBoundary, hx, IsCont, h x rfl]

/-- In an ASCII text every place is a character boundary. -/
theorem isCharBoundary_of_ascii {s : List UInt8} (h : ∀ x ∈ s, x.toNat < 0x80) {i : Nat}
    (hi : i ≤ s.length) : isCharBoundary s i = true := by
  have := @isCharBoundary_append_of_ascii (s.take i) (s.drop i) fun x hx =>
    h x (List.mem_of_mem_drop (List.mem_of_mem_head? hx))
  rwa [List.take_append_drop, List.length_take_of_le hi] at this

/-- The place before a valid text is a character boundary. -/
theorem isCharBoundary_append_of_valid {a b : List UInt8} (h : valid b = true) :
    isCharBoundary (a ++ b) a.length = true := by
  cases b with
  | nil => simp [isCharBoundary]
  | cons x b =>
    have hx : (a ++ x :: b)[a.length]? = some x := by
      rw [List.getElem?_append_right (Nat.le_refl _), Nat.sub_self, List.getElem?_cons_zero]
    simp [isCharBoundary, hx, not_isCont_of_valid h]

/-- Cutting a text after `n` bytes keeps the character boundaries before `n`. -/
theorem isCharBoundary_take {s : List UInt8} {i n : Nat} (h : i < n) :
    isCharBoundary (s.take n) i = isCharBoundary s i := by
  unfold isCharBoundary
  rw [List.getElem?_take_of_lt h]
  split
  · next hs =>
    have : s.length ≤ i := List.getElem?_eq_none_iff.mp hs
    simp [List.length_take, Nat.min_eq_right (by omega : s.length ≤ n)]
  · rfl

/-- **Slices at character boundaries are valid.** -/
theorem valid_slice {s : List UInt8} {i j : Nat} (hs : valid s = true) (hij : i ≤ j)
    (hi : isCharBoundary s i = true) (hj : isCharBoundary s j = true) :
    valid ((s.drop i).take (j - i)) = true := by
  have hd : valid (s.drop i) = true := by
    by_cases hi0 : i = 0
    · rwa [hi0, List.drop_zero]
    · exact (valid_cut (by rwa [List.take_append_drop]) (isCharBoundary_drop hi hi0)).2
  by_cases hj0 : j = 0
  · rw [hj0, Nat.zero_sub, List.take_zero]
    rfl
  · have hdrop : (s.drop i).drop (j - i) = s.drop j := by rw [List.drop_drop]; congr 1; omega
    refine (@valid_cut _ ((s.drop i).drop (j - i)) (by rwa [List.take_append_drop]) ?_).1
    rw [hdrop]
    exact isCharBoundary_drop hj hj0

/-! ### Whitespace -/

/-- The characters of Unicode `White_Space`, in UTF-8: U+0009 to U+000D, U+0020, U+0085, U+00A0,
U+1680, U+2000 to U+200A, U+2028, U+2029, U+202F, U+205F and U+3000. -/
def whitespaceTable : List (List UInt8) :=
  [[9], [10], [11], [12], [13], [32], [0xC2, 0x85], [0xC2, 0xA0], [0xE1, 0x9A, 0x80],
   [0xE2, 0x80, 0x80], [0xE2, 0x80, 0x81], [0xE2, 0x80, 0x82], [0xE2, 0x80, 0x83],
   [0xE2, 0x80, 0x84], [0xE2, 0x80, 0x85], [0xE2, 0x80, 0x86], [0xE2, 0x80, 0x87],
   [0xE2, 0x80, 0x88], [0xE2, 0x80, 0x89], [0xE2, 0x80, 0x8A], [0xE2, 0x80, 0xA8],
   [0xE2, 0x80, 0xA9], [0xE2, 0x80, 0xAF], [0xE2, 0x81, 0x9F], [0xE3, 0x80, 0x80]]

theorem whitespaceTable_valid : ∀ w ∈ whitespaceTable, valid w = true ∧ w ≠ [] ∧
    ∀ x ∈ w.head?, ¬ IsCont x := by
  decide

/-- No byte of a whitespace character is a visible ASCII character. -/
theorem whitespaceTable_not_graphic :
    ∀ w ∈ whitespaceTable, ∀ x ∈ w, x.toNat < 33 ∨ 126 < x.toNat := by
  decide

/-- `str::trim_end` with room for `fuel` characters: the whitespace character the text ends
with is removed, and so on. A table entry that ends a valid text is its last character, since
no entry starts with a continuation byte. -/
def trimEndAux : Nat → List UInt8 → List UInt8
  | 0, s => s
  | fuel + 1, s =>
    match whitespaceTable.find? (· <:+ s) with
    | none => s
    | some w => trimEndAux fuel (s.take (s.length - w.length))

/-- `str::trim_end`: every whitespace character at the end removed. Each takes a byte at least,
so the text's length is fuel enough. -/
def trimEnd (s : List UInt8) : List UInt8 := trimEndAux s.length s

/-- `str::trim_start` with room for `fuel` characters. -/
def trimStartAux : Nat → List UInt8 → List UInt8
  | 0, s => s
  | fuel + 1, s =>
    match whitespaceTable.find? (· <+: s) with
    | none => s
    | some w => trimStartAux fuel (s.drop w.length)

/-- `str::trim_start`: every whitespace character at the start removed. -/
def trimStart (s : List UInt8) : List UInt8 := trimStartAux s.length s

/-- `str::trim`: every whitespace character at either end removed. -/
def trim (s : List UInt8) : List UInt8 := trimStart (trimEnd s)

theorem prefix_trimEndAux {p : List UInt8} {c : UInt8} (hc : 33 ≤ c.toNat ∧ c.toNat ≤ 126) :
    ∀ (fuel : Nat) (s : List UInt8), p ++ [c] <+: s → p ++ [c] <+: trimEndAux fuel s
  | 0, _, h => h
  | fuel + 1, s, h => by
    simp only [trimEndAux]
    split
    · exact h
    · next w hw =>
      have hmem := List.mem_of_find?_eq_some hw
      obtain ⟨q, rfl⟩ : w <:+ s := by simpa using List.find?_some hw
      rw [List.length_append, Nat.add_sub_cancel, List.take_left' rfl]
      apply prefix_trimEndAux hc fuel
      obtain ⟨r, hr⟩ := h
      rcases List.append_eq_append_iff.mp hr with ⟨a, rfl, -⟩ | ⟨d, hd, rfl⟩
      · exact List.prefix_append _ _
      · rcases List.eq_nil_or_concat d with rfl | ⟨d, x, rfl⟩
        · rw [List.append_nil] at hd
          rw [hd]
        · rw [List.concat_eq_append, ← List.append_assoc] at hd
          obtain ⟨-, hx⟩ := List.append_inj' hd rfl
          have := whitespaceTable_not_graphic _ hmem c (by simp [List.singleton_inj.mp hx])
          omega

/-- **`trim_end` stops at a visible character.** Whatever precedes a visible ASCII character
survives `str::trim_end`. -/
theorem prefix_trimEnd {p s : List UInt8} {c : UInt8} (hc : 33 ≤ c.toNat ∧ c.toNat ≤ 126)
    (h : p ++ [c] <+: s) : p ++ [c] <+: trimEnd s :=
  prefix_trimEndAux hc _ s h

/-! ### Texts `trim` keeps -/

/-- The bytes of a whitespace character after its first are continuation bytes, and the only
one that starts with a space is the space itself. -/
theorem whitespaceTable_tail : ∀ w ∈ whitespaceTable,
    (∀ x ∈ w.tail, IsCont x) ∧ (w.head? = some 32 → w = [32]) := by
  decide

theorem prefix_trimEndAux_self : ∀ (fuel : Nat) (s : List UInt8), trimEndAux fuel s <+: s
  | 0, _ => List.prefix_refl _
  | fuel + 1, s => by
    simp only [trimEndAux]
    split
    · exact List.prefix_refl _
    · exact (prefix_trimEndAux_self fuel _).trans ⟨_, List.take_append_drop _ _⟩

theorem suffix_trimStartAux_self : ∀ (fuel : Nat) (s : List UInt8), trimStartAux fuel s <:+ s
  | 0, _ => List.suffix_refl _
  | fuel + 1, s => by
    simp only [trimStartAux]
    split
    · exact List.suffix_refl _
    · exact (suffix_trimStartAux_self fuel _).trans (List.drop_suffix _ _)

theorem trimStartAux_of_none {fuel : Nat} {s : List UInt8}
    (h : whitespaceTable.find? (· <+: s) = none) : trimStartAux fuel s = s := by
  cases fuel <;> simp [trimStartAux, h]

theorem trimEndAux_of_none {fuel : Nat} {s : List UInt8}
    (h : whitespaceTable.find? (· <:+ s) = none) : trimEndAux fuel s = s := by
  cases fuel <;> simp [trimEndAux, h]

/-- A step of `trim_start` that changes nothing found no whitespace character. -/
theorem find?_prefix_of_trimStartAux {fuel : Nat} {s : List UInt8}
    (h : trimStartAux (fuel + 1) s = s) : whitespaceTable.find? (· <+: s) = none := by
  rw [trimStartAux] at h
  split at h
  · assumption
  · next w hw =>
    have hne := (whitespaceTable_valid w (List.mem_of_find?_eq_some hw)).2.1
    have hpre : w <+: s := by simpa using List.find?_some hw
    have := (suffix_trimStartAux_self fuel (s.drop w.length)).length_le
    rw [h, List.length_drop] at this
    have := hpre.length_le
    have := List.length_pos.mpr hne
    omega

/-- A step of `trim_end` that changes nothing found no whitespace character. -/
theorem find?_suffix_of_trimEndAux {fuel : Nat} {s : List UInt8}
    (h : trimEndAux (fuel + 1) s = s) : whitespaceTable.find? (· <:+ s) = none := by
  rw [trimEndAux] at h
  split at h
  · assumption
  · next w hw =>
    have hne := (whitespaceTable_valid w (List.mem_of_find?_eq_some hw)).2.1
    have hsuf : w <:+ s := by simpa using List.find?_some hw
    have := (prefix_trimEndAux_self fuel (s.take (s.length - w.length))).length_le
    rw [h, List.length_take] at this
    have := hsuf.length_le
    have := List.length_pos.mpr hne
    omega

/-- A text `trim` keeps is kept by `trim_end` and by `trim_start`. -/
theorem trimEnd_of_trim {s : List UInt8} (h : trim s = s) : trimEnd s = s := by
  have hpre := prefix_trimEndAux_self s.length s
  have hlen := (suffix_trimStartAux_self (trimEnd s).length (trimEnd s)).length_le
  rw [← trimStart, ← trim, h] at hlen
  exact hpre.eq_of_length (Nat.le_antisymm hpre.length_le hlen)

theorem trimStart_of_trim {s : List UInt8} (h : trim s = s) : trimStart s = s := by
  rwa [trim, trimEnd_of_trim h] at h

/-- A text `trim` keeps, when not empty, has no whitespace character at either end. -/
theorem find?_eq_none_of_trim {s : List UInt8} (h : trim s = s) (hs : s ≠ []) :
    whitespaceTable.find? (· <+: s) = none ∧ whitespaceTable.find? (· <:+ s) = none := by
  obtain ⟨k, hk⟩ := Nat.exists_eq_succ_of_ne_zero (List.length_pos.mpr hs).ne'
  have hstart := trimStart_of_trim h
  have hend := trimEnd_of_trim h
  rw [trimStart, hk] at hstart
  rw [trimEnd, hk] at hend
  exact ⟨find?_prefix_of_trimStartAux hstart, find?_suffix_of_trimEndAux hend⟩

theorem trimStartAux_space (fuel : Nat) (s : List UInt8) :
    trimStartAux (fuel + 1) (32 :: s) = trimStartAux fuel s := by
  have h : whitespaceTable.find? (· <+: 32 :: s) = some [32] := by
    simp [whitespaceTable, List.find?]
  simp [trimStartAux, h]

theorem trimEndAux_space (fuel : Nat) (s : List UInt8) :
    trimEndAux (fuel + 1) (s ++ [32]) = trimEndAux fuel s := by
  have h : whitespaceTable.find? (· <:+ s ++ [32]) = some [32] := by
    simp [whitespaceTable, List.find?, ← List.reverse_prefix]
  simp [trimEndAux, h]

/-- **A space before a trimmed text goes.** -/
theorem trim_space_cons {s : List UInt8} (h : trim s = s) : trim (32 :: s) = s := by
  rcases eq_or_ne s [] with rfl | hs
  · rfl
  obtain ⟨hpre, hsuf⟩ := find?_eq_none_of_trim h hs
  have hend : trimEnd (32 :: s) = 32 :: s := by
    refine trimEndAux_of_none (List.find?_eq_none.mpr fun w hw hw' => ?_)
    rcases List.suffix_cons_iff.mp (of_decide_eq_true hw') with rfl | hw'
    · exact hs (List.cons_eq_cons.mp ((whitespaceTable_tail _ hw).2 rfl)).2
    · exact (List.find?_eq_none.mp hsuf w hw) (decide_eq_true hw')
  rw [trim, hend, trimStart, List.length_cons, trimStartAux_space, trimStartAux_of_none hpre]

/-- **A space after a trimmed text goes.** -/
theorem trim_append_space {s : List UInt8} (h : trim s = s) : trim (s ++ [32]) = s := by
  rw [trim, trimEnd, List.length_append, List.length_singleton, trimEndAux_space]
  exact (congrArg trimStart (trimEnd_of_trim h)).trans (trimStart_of_trim h)

/-- No whitespace character starts a trimmed text that is not empty followed by a space: none
has a space after its first byte. -/
theorem not_prefix_space {n t w : List UInt8} (hn : n ≠ [])
    (hnone : whitespaceTable.find? (· <+: n) = none) (hw : w ∈ whitespaceTable) :
    ¬ w <+: n ++ 32 :: t := by
  intro hpre
  have hnw : ¬ w <+: n := fun h => List.find?_eq_none.mp hnone w hw (decide_eq_true h)
  rcases List.prefix_or_prefix_of_prefix hpre (List.prefix_append n _) with h | ⟨r, rfl⟩
  · exact hnw h
  rcases List.prefix_cons_iff.mp ((List.prefix_append_right_inj n).mp hpre) with rfl | ⟨r, rfl, -⟩
  · exact hnw (by simp)
  obtain ⟨x, n, rfl⟩ := List.exists_cons_of_ne_nil hn
  have := (whitespaceTable_tail _ hw).1 32 (by simp)
  revert this
  decide

/-- `trim_end` keeps a text that ends with a visible ASCII character. -/
theorem trimEnd_of_visible {t : List UInt8} {d : UInt8} (hd : 33 ≤ d.toNat ∧ d.toNat ≤ 126) :
    trimEnd (t ++ [d]) = t ++ [d] := by
  refine trimEndAux_of_none (List.find?_eq_none.mpr fun w hw hw' => ?_)
  have hne := (whitespaceTable_valid w hw).2.1
  have := whitespaceTable_not_graphic w hw _ (List.getLast_mem hne)
  rw [(of_decide_eq_true hw').getLast hne, List.getLast_append_singleton] at this
  omega

/-- `trim_start` keeps a text that starts with a visible ASCII character. -/
theorem trimStart_of_visible {c : UInt8} {s : List UInt8} (hc : 33 ≤ c.toNat ∧ c.toNat ≤ 126) :
    trimStart (c :: s) = c :: s := by
  refine trimStartAux_of_none (List.find?_eq_none.mpr fun w hw hw' => ?_)
  have hne := (whitespaceTable_valid w hw).2.1
  have := whitespaceTable_not_graphic w hw _ (List.head_mem hne)
  rw [(of_decide_eq_true hw').head hne, List.head_cons] at this
  omega

/-- **A trimmed name, a space and a text ending with a visible character are kept.** -/
theorem trim_space_append {n t : List UInt8} {c : UInt8} (hn : n ≠ []) (h : trim n = n)
    (hc : 33 ≤ c.toNat ∧ c.toNat ≤ 126) : trim (n ++ 32 :: t ++ [c]) = n ++ 32 :: t ++ [c] := by
  have hstart : trimStart (n ++ 32 :: t ++ [c]) = n ++ 32 :: t ++ [c] := by
    refine trimStartAux_of_none (List.find?_eq_none.mpr fun w hw hw' => ?_)
    rw [List.append_assoc, List.cons_append] at hw'
    exact not_prefix_space hn (find?_eq_none_of_trim h hn).1 hw (of_decide_eq_true hw')
  rw [trim, trimEnd_of_visible hc, hstart]

/-- **A text between visible characters is kept.** `trim` keeps a text that starts and ends with
a visible ASCII character. -/
theorem trim_of_visible {c d : UInt8} {s t : List UInt8} (hc : 33 ≤ c.toNat ∧ c.toNat ≤ 126)
    (hd : 33 ≤ d.toNat ∧ d.toNat ≤ 126) (h : c :: s = t ++ [d]) : trim (c :: s) = c :: s := by
  rw [trim, h, trimEnd_of_visible hd, ← h, trimStart_of_visible hc]

end Lettre.Utf8

namespace Lettre

/-- A Rust `String` or `&str`: bytes that are UTF-8. -/
structure Str where
  bytes : List UInt8
  valid : Utf8.valid bytes = true
  deriving DecidableEq

theorem Str.eq_of_bytes {s t : Str} (h : s.bytes = t.bytes) : s = t := by
  cases s; cases t; cases h; rfl

/-- `str::from_utf8`. -/
def fromUtf8 (b : List UInt8) : Option Str :=
  if h : Utf8.valid b = true then some ⟨b, h⟩ else none

theorem fromUtf8_bytes (s : Str) : fromUtf8 s.bytes = some s := by
  simp [fromUtf8, s.valid]

theorem fromUtf8_eq_some {b : List UInt8} {s : Str} (h : fromUtf8 b = some s) : s.bytes = b := by
  unfold fromUtf8 at h
  split_ifs at h
  cases h
  rfl

/-- `str::len`: the length in bytes. -/
def Str.len (s : Str) : Nat := s.bytes.length

/-- `&s[i..j]`: the bytes from `i` to `j`, or none where Rust panics, when the range is reversed
or an end is not a character boundary. -/
def Str.slice (s : Str) (i j : Nat) : Option Str :=
  if h : i ≤ j ∧ Utf8.isCharBoundary s.bytes i = true ∧ Utf8.isCharBoundary s.bytes j = true then
    some ⟨(s.bytes.drop i).take (j - i), Utf8.valid_slice s.valid h.1 h.2.1 h.2.2⟩
  else none

theorem Str.slice_eq_none {s : Str} {i j : Nat} (h : Utf8.isCharBoundary s.bytes j = false) :
    s.slice i j = none := by
  simp [Str.slice, h]

theorem Str.slice_eq_none_left {s : Str} {i j : Nat} (h : Utf8.isCharBoundary s.bytes i = false) :
    s.slice i j = none := by
  simp [Str.slice, h]

theorem Str.slice_eq_some {s : Str} {i j : Nat} (hij : i ≤ j)
    (hi : Utf8.isCharBoundary s.bytes i = true) (hj : Utf8.isCharBoundary s.bytes j = true) :
    ∃ t, s.slice i j = some t ∧ t.bytes = (s.bytes.drop i).take (j - i) := by
  simp [Str.slice, hij, hi, hj]

/-- `String::new()`. -/
def Str.empty : Str := ⟨[], rfl⟩

/-- `String::push_str`. -/
def Str.pushStr (s t : Str) : Str := ⟨s.bytes ++ t.bytes, Utf8.valid_append s.valid t.valid⟩

@[simp] theorem Str.empty_bytes : Str.empty.bytes = [] := rfl

@[simp] theorem Str.pushStr_bytes (s t : Str) : (s.pushStr t).bytes = s.bytes ++ t.bytes := rfl

/-- `str::split_at`: the text before byte `mid` and the text from it, or none where Rust panics,
when `mid` is not a character boundary. -/
def Str.splitAt (s : Str) (mid : Nat) : Option (Str × Str) := do
  let a ← s.slice 0 mid
  let b ← s.slice mid s.len
  pure (a, b)

/-- **`split_at` at a character boundary.** -/
theorem Str.splitAt_eq_some {s : Str} {mid : Nat} (h : Utf8.isCharBoundary s.bytes mid = true) :
    ∃ a b, s.splitAt mid = some (a, b) ∧ a.bytes = s.bytes.take mid ∧
      b.bytes = s.bytes.drop mid := by
  have hle := Utf8.isCharBoundary_le h
  obtain ⟨a, ha, hab⟩ := Str.slice_eq_some (Nat.zero_le mid) (Utf8.isCharBoundary_zero _) h
  have hend : Utf8.isCharBoundary s.bytes s.len = true := Utf8.isCharBoundary_length _
  obtain ⟨b, hb, hbb⟩ := Str.slice_eq_some hle h hend
  refine ⟨a, b, by simp [Str.splitAt, ha, Str.len, hb], by simpa using hab, ?_⟩
  rw [hbb, List.take_of_length_le (by simp [Str.len])]

end Lettre
