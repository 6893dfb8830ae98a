import Mathlib.Data.List.Infix

/-!
# Byte strings

The client reads and writes bytes, and every text it builds (`&str`, `String`) is handled here
through its UTF-8 bytes: a `List UInt8`. Everything the client searches or rewrites in a text is
ASCII (`\r\n`, `\r.`, `\n.`), and an ASCII byte never occurs inside the encoding of a wider
character, so the byte level is exact.

This file holds the pieces of Rust's standard library and of nom that the client calls on such
bytes:

* `replace s pat rep`: `str::replace`, every non-overlapping occurrence of `pat`, leftmost first,
  replaced by `rep` (`replace_cons_skip`, `replace_prefix_append`);
* `findSubstring pat s`: nom's `FindSubstring`, the index of the first occurrence, with
  `findSubstring_crlf` for a text that holds no CRLF;
* `isAscii`: `<[u8]>::is_ascii`, and `ascii` for the bytes of an ASCII literal.

The client only ever replaces non-empty patterns; `replace` leaves a text alone for the empty
one, where Rust would insert `rep` at every character boundary.
-/

namespace Lettre

/-! ### `str::replace` -/

/-- The loop of `str::replace`: `skip` counts the bytes of the occurrence just replaced that are
still to be passed over. -/
def replaceAux (pat rep : List UInt8) : Nat → List UInt8 → List UInt8
  | _, [] => []
  | skip + 1, _ :: s => replaceAux pat rep skip s
  | 0, b :: s =>
    if pat ≠ [] ∧ pat <+: b :: s then rep ++ replaceAux pat rep (pat.length - 1) s
    else b :: replaceAux pat rep 0 s

/-- `str::replace`: every non-overlapping occurrence of `pat`, leftmost first, replaced by
`rep`. -/
def replace (s pat rep : List UInt8) : List UInt8 := replaceAux pat rep 0 s

@[simp] theorem replace_nil (pat rep : List UInt8) : replace [] pat rep = [] := by
  simp [replace, replaceAux]

theorem replaceAux_skip (pat rep : List UInt8) :
    ∀ (l s : List UInt8), replaceAux pat rep l.length (l ++ s) = replace s pat rep
  | [], _ => rfl
  | _ :: l, s => replaceAux_skip pat rep l s

theorem replace_cons_skip {pat rep s : List UInt8} {b : UInt8} (h : ¬ pat <+: b :: s) :
    replace (b :: s) pat rep = b :: replace s pat rep := by
  simp [replace, replaceAux, h]

theorem replace_prefix_append {pat rep : List UInt8} (hp : pat ≠ []) (s : List UInt8) :
    replace (pat ++ s) pat rep = rep ++ replace s pat rep := by
  obtain ⟨p, ps, rfl⟩ := List.exists_cons_of_ne_nil hp
  rw [List.cons_append, replace, replaceAux,
    if_pos ⟨List.cons_ne_nil p ps, List.prefix_append (p :: ps) s⟩, List.length_cons,
    Nat.add_sub_cancel, replaceAux_skip]

/-- With no occurrence of `pat`, `str::replace` leaves the text alone. -/
theorem replace_absent {pat rep : List UInt8} :
    ∀ {s : List UInt8}, ¬ pat <:+: s → replace s pat rep = s
  | [], _ => rfl
  | b :: s, h => by
    rw [replace_cons_skip (fun hp => h hp.isInfix),
      replace_absent (fun hs => h (hs.trans (List.suffix_cons b s).isInfix))]

/-- `str::replace` at the first occurrence: the text before it is kept, the occurrence replaced,
and the search goes on after it. -/
theorem replace_first {pat rep : List UInt8} (hp : pat ≠ []) (b : List UInt8) :
    ∀ {a : List UInt8}, (∀ k < a.length, ¬ pat <+: (a ++ pat ++ b).drop k) →
      replace (a ++ pat ++ b) pat rep = a ++ rep ++ replace b pat rep
  | [], _ => by rw [List.nil_append, List.nil_append, replace_prefix_append hp]
  | x :: a, h => by
    rw [List.cons_append, List.cons_append,
      replace_cons_skip (show ¬ pat <+: x :: (a ++ pat ++ b) from h 0 (by simp)),
      replace_first hp b (fun k hk => h (k + 1) (by simp [hk]))]
    rfl

/-- A text holds no occurrence of `pat`, or it has a first one. -/
theorem not_infix_or_first {pat : List UInt8} (hp : pat ≠ []) :
    ∀ (s : List UInt8), ¬ pat <:+: s ∨
      ∃ a b, s = a ++ pat ++ b ∧ ∀ k < a.length, ¬ pat <+: (a ++ pat ++ b).drop k
  | [] => .inl fun h => hp (List.eq_nil_of_infix_nil h)
  | x :: s => by
    by_cases hx : pat <+: x :: s
    · obtain ⟨b, hb⟩ := hx
      exact .inr ⟨[], b, by rw [← hb]; rfl, fun k hk => absurd hk (Nat.not_lt_zero k)⟩
    · rcases not_infix_or_first hp s with hs | ⟨a, b, rfl, hab⟩
      · exact .inl fun h => (List.infix_cons_iff.mp h).elim hx hs
      · refine .inr ⟨x :: a, b, rfl, fun k hk => ?_⟩
        cases k with
        | zero => exact hx
        | succ k => exact hab k (by simpa using hk)

/-! ### CRLF -/

/-- A text with no CRLF in it. -/
def NoCRLF (t : List UInt8) : Prop := ¬ [13, 10] <:+: t

instance (t : List UInt8) : Decidable (NoCRLF t) := inferInstanceAs (Decidable (¬ _))

theorem noCRLF_nil : NoCRLF [] := fun h => by simpa using List.eq_nil_of_infix_nil h

/-- A CRLF in `b :: s` starts at `b` or lies in `s`. -/
theorem noCRLF_cons {b : UInt8} {s : List UInt8} :
    NoCRLF (b :: s) ↔ ¬ (b = 13 ∧ s.head? = some 10) ∧ NoCRLF s := by
  simp only [NoCRLF, List.infix_cons_iff, not_or]
  apply and_congr_left'
  cases s <;> simp [eq_comm]

/-- Removing CRLF from a CRLF-free text followed by CRLF gives the text back. -/
theorem replace_crlf_end : ∀ {x : List UInt8}, NoCRLF x → replace (x ++ [13, 10]) [13, 10] [] = x
  | [], _ => rfl
  | b :: s, h => by
    obtain ⟨hb, hs⟩ := noCRLF_cons.mp h
    have hskip : ¬ [13, 10] <+: b :: (s ++ [13, 10]) := by
      cases s with
      | nil => simp
      | cons c s => simpa [eq_comm] using hb
    rw [List.cons_append, replace_cons_skip hskip, replace_crlf_end hs]

/-! ### nom's `FindSubstring` -/

/-- nom's `find_substring` on `&[u8]`: the index of the first occurrence of `pat` in `s`, and
none for the empty pattern. -/
def findSubstring (pat : List UInt8) : List UInt8 → Option Nat
  | [] => none
  | b :: s => if pat ≠ [] ∧ pat <+: b :: s then some 0 else (findSubstring pat s).map (· + 1)

theorem findSubstring_spec {pat : List UInt8} :
    ∀ {s : List UInt8} {n : Nat}, findSubstring pat s = some n →
      pat ≠ [] ∧ pat <+: s.drop n ∧ ¬ pat <:+: s.take n
  | [], n, h => by simp [findSubstring] at h
  | b :: s, n, h => by
    unfold findSubstring at h
    split_ifs at h with hp
    · cases h
      exact ⟨hp.1, hp.2, fun hi => hp.1 (List.eq_nil_of_infix_nil hi)⟩
    · obtain ⟨m, hm, rfl⟩ := Option.map_eq_some'.mp h
      obtain ⟨hne, h1, h2⟩ := findSubstring_spec hm
      refine ⟨hne, h1, fun hi => ?_⟩
      rcases List.infix_cons_iff.mp (by simpa using hi) with hpre | hinf
      · exact hp ⟨hne, hpre.trans (by simpa using List.take_prefix m s)⟩
      · exact h2 hinf

/-- A text holding no CRLF, followed by CRLF: the first CRLF is the one after the text. -/
theorem findSubstring_crlf :
    ∀ {t : List UInt8} (rest : List UInt8), NoCRLF t →
      findSubstring [13, 10] (t ++ 13 :: 10 :: rest) = some t.length
  | [], _, _ => by simp [findSubstring]
  | b :: t, rest, ht => by
    have hne : ¬ [13, 10] <+: b :: (t ++ 13 :: 10 :: rest) := by
      intro h
      cases t with
      | nil => simp at h
      | cons c t =>
        simp only [List.cons_append, List.cons_prefix_cons, List.nil_prefix, and_true] at h
        exact ht (by rw [← h.1, ← h.2]; exact (List.prefix_append [13, 10] t).isInfix)
    have ih := @findSubstring_crlf t rest
      (fun h => ht (h.trans (List.suffix_cons b _).isInfix))
    rw [List.cons_append, findSubstring, if_neg (fun h => hne h.2), ih]
    rfl

/-- With no occurrence of `pat`, the search fails. -/
theorem findSubstring_eq_none {pat : List UInt8} :
    ∀ {s : List UInt8}, ¬ pat <:+: s → findSubstring pat s = none
  | [], _ => rfl
  | b :: s, h => by
    have hp : ¬ (pat ≠ [] ∧ pat <+: b :: s) := fun hp => h hp.2.isInfix
    simp only [findSubstring, hp, ↓reduceIte, findSubstring_eq_none
      (fun hs => h (hs.trans (List.suffix_cons b s).isInfix)), Option.map_none']

/-! ### Prefixes -/

/-- A prefix of `a ++ b` is a proper prefix of `a`, or `a` followed by a prefix of `b`. -/
theorem prefix_append_cases {q a b : List UInt8} (h : q <+: a ++ b) :
    (q <+: a ∧ q ≠ a) ∨ ∃ q', q = a ++ q' ∧ q' <+: b := by
  rcases List.prefix_or_prefix_of_prefix h (List.prefix_append a b) with hq | ⟨q', rfl⟩
  · by_cases hqa : q = a
    · exact .inr ⟨[], by rw [hqa, List.append_nil], List.nil_prefix⟩
    · exact .inl ⟨hq, hqa⟩
  · exact .inr ⟨q', rfl, (List.prefix_append_right_inj a).mp h⟩

/-- A proper prefix of a CRLF-free text followed by CRLF holds no CRLF. -/
theorem noCRLF_of_prefix_crlf {q t : List UInt8} (ht : NoCRLF t)
    (hq : q <+: t ++ [13, 10]) (hne : q ≠ t ++ [13, 10]) : NoCRLF q := by
  have h13 : q <+: t ++ [13] := by
    rw [show t ++ [(13 : UInt8), 10] = (t ++ [13]) ++ [10] by simp] at hq hne
    exact (List.prefix_concat_iff.mp hq).resolve_left hne
  intro hi
  rcases List.infix_concat_iff.mp (hi.trans h13.isInfix) with hs | hi'
  · obtain ⟨u, hu⟩ := hs
    have := congrArg List.getLast? hu
    simp at this
  · exact ht hi'

/-! ### ASCII -/

/-- The bytes of an ASCII string literal. -/
def ascii (s : String) : List UInt8 := s.toList.map Char.toUInt8

/-- `<[u8]>::is_ascii`. -/
def isAscii (b : List UInt8) : Bool := b.all fun x => x.toNat < 128

/-! ### Searching a list -/

/-- A search that stops at position `i` cuts the list before its first match. -/
theorem findIdx?_eq_some_split {α : Type} {p : α → Bool} {l : List α} {i : Nat}
    (h : l.findIdx? p = some i) :
    ∃ u x w, l = u ++ x :: w ∧ u.length = i ∧ (∀ a ∈ u, p a = false) ∧ p x = true := by
  obtain ⟨hi, hp, hmin⟩ := List.findIdx?_eq_some_iff_getElem.mp h
  refine ⟨l.take i, l[i], l.drop (i + 1), ?_, by simp [Nat.min_eq_left hi.le], ?_, hp⟩
  · rw [List.getElem_cons_drop, List.take_append_drop]
  · intro a ha
    obtain ⟨j, hj, rfl⟩ := List.getElem_of_mem ha
    have hj' : j < i := by simpa [Nat.min_eq_left hi.le] using hj
    simpa [List.getElem_take] using hmin j hj'

theorem findIdx?_isSome_of_mem {α : Type} {p : α → Bool} {l : List α} {a : α} (ha : a ∈ l)
    (hp : p a = true) : ∃ i, l.findIdx? p = some i :=
  Option.isSome_iff_exists.mp <| by
    rw [List.findIdx?_isSome, List.any_eq_true]
    exact ⟨a, ha, hp⟩

end Lettre
