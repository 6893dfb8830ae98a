import Lettre.Bytes

/-!
# Dot-stuffing

`escape_dot` (`transport/smtp/client/mod.rs`) prepares a message for the DATA phase: a `.` at
the start of the text, and every `.` after a CR or an LF, gets a second `.` (RFC 5321 §4.5.2,
which the source cites). It does so in three passes, a `.` put in front of a text that starts
with one and two `str::replace` calls, and `Client::message` writes the result followed by
`MESSAGE_ENDING`, CRLF `.` CRLF.

`stuff p x s` is dot-stuffing as one pass: it doubles every `.` of `s` that follows a byte in `p`,
and the first byte when `x`. Each pass of `escape_dot` is such a pass (`replace_eq_stuff`), and
two passes over disjoint sets of bytes are one pass over their union (`stuff_stuff`), so

* `escapeDot_eq_stuff`: `escape_dot` is the one pass over CR and LF, from the start.

From it:

* `escapeDot_dot_stuffed`: in `escape_dot s` followed by the terminator, every `.` that starts
  the bytes or follows a CR or an LF is followed by a second `.`, except the terminator's own; so
  no line made of a lone `.` comes before the terminator, however the lines are split.
* `receiveData_escapeDot`: a receiver that splits at CRLF, stops at the line `.` and removes one
  leading `.` from every other line stops exactly at the terminator. It yields every
  CRLF-separated line of the body followed by CRLF, where a `.` after a CR or an LF inside a line
  stays doubled.
-/

namespace Lettre.Transport.Smtp

/-- `MESSAGE_ENDING`, the DATA terminator. Modelled from the spec: the constant lives in
`transport/smtp/mod.rs`, which is not part of the source; the spec gives CRLF `.` CRLF. -/
def messageEnding : List UInt8 := [13, 10, 46, 13, 10]

/-- `escape_dot`: a `.` before a text that starts with `.`, then `\r.` replaced by `\r..` and
`\n.` by `\n..`. -/
def escapeDot (string : List UInt8) : List UInt8 :=
  replace (replace (if string.head? = some 46 then 46 :: string else string)
    [13, 46] [13, 46, 46]) [10, 46] [10, 46, 46]

/-! ### One pass -/

/-- The bytes after which `escape_dot` stuffs a `.`: CR and LF. -/
def isBreak (b : UInt8) : Bool := b == 13 || b == 10

/-- Dot-stuffing in one pass: every `.` that follows a byte in `p` is doubled, and the first
byte too when `x`. -/
def stuff (p : UInt8 → Bool) : Bool → List UInt8 → List UInt8
  | _, [] => []
  | x, b :: s => if x = true ∧ b = 46 then 46 :: 46 :: stuff p false s else b :: stuff p (p b) s

section Stuff

variable (p : UInt8 → Bool)

@[simp] theorem stuff_nil (x : Bool) : stuff p x [] = [] := rfl

theorem stuff_dot (s : List UInt8) : stuff p true (46 :: s) = 46 :: 46 :: stuff p false s := by
  simp [stuff]

theorem stuff_cons {x : Bool} {b : UInt8} (h : ¬ (x = true ∧ b = 46)) (s : List UInt8) :
    stuff p x (b :: s) = b :: stuff p (p b) s := by
  simp only [stuff, if_neg h]

/-- The flag only matters in front of a `.`. -/
theorem stuff_true_of_head {s : List UInt8} (h : s.head? ≠ some 46) :
    stuff p true s = stuff p false s := by
  cases s with
  | nil => rfl
  | cons b s =>
    have hb : b ≠ 46 := fun hb => h (by rw [hb]; rfl)
    rw [stuff_cons p (by simp [hb]), stuff_cons p (by simp)]

theorem stuff_never : ∀ (s : List UInt8), stuff (fun _ => false) false s = s
  | [] => rfl
  | b :: s => by rw [stuff_cons _ (by simp), stuff_never s]

/-- **Two passes make one.** Stuffing after `p`, then after a disjoint `q`, is stuffing after
either, when neither holds of `.` and the two passes do not both stuff the first byte. -/
theorem stuff_stuff (q : UInt8 → Bool) (hpq : ∀ b, ¬ (p b = true ∧ q b = true))
    (hp : p 46 = false) (hq : q 46 = false) :
    ∀ (s : List UInt8) (x y : Bool), ¬ (x = true ∧ y = true) →
      stuff q y (stuff p x s) = stuff (fun b => p b || q b) (x || y) s
  | [], _, _, _ => rfl
  | b :: s, x, y, hxy => by
    by_cases hx : x = true ∧ b = 46
    · obtain ⟨rfl, rfl⟩ := hx
      have hy : y = false := by simpa using hxy
      subst hy
      rw [stuff_dot, stuff_cons q (by simp), hq, stuff_cons q (by simp), hq,
        stuff_stuff q hpq hp hq s false false (by simp), Bool.true_or, stuff_dot]
      rfl
    · rw [stuff_cons p hx]
      by_cases hy : y = true ∧ b = 46
      · obtain ⟨rfl, rfl⟩ := hy
        rw [stuff_dot, hp, stuff_stuff q hpq hp hq s false false (by simp), Bool.or_true, stuff_dot]
        rfl
      · have hxy' : ¬ ((x || y) = true ∧ b = 46) := by
          simp only [Bool.or_eq_true] at hx hy ⊢; tauto
        rw [stuff_cons q hy, stuff_stuff q hpq hp hq s (p b) (q b) (hpq b), stuff_cons _ hxy']

end Stuff

/-- One `str::replace` of `c.` by `c..` is the pass that stuffs after `c`. -/
theorem replace_eq_stuff {c : UInt8} (hc : c ≠ 46) :
    ∀ (s : List UInt8), replace s [c, 46] [c, 46, 46] = stuff (· == c) false s
  | [] => rfl
  | [b] => by
    rw [replace_cons_skip (by simp), stuff_cons _ (by simp)]
    rfl
  | b :: d :: t => by
    by_cases h : b = c ∧ d = 46
    · obtain ⟨rfl, rfl⟩ := h
      have hrep : replace ([b, 46] ++ t) [b, 46] [b, 46, 46] = [b, 46, 46] ++ replace t [b, 46]
          [b, 46, 46] := replace_prefix_append (by simp) t
      rw [List.cons_append, List.singleton_append] at hrep
      rw [hrep, replace_eq_stuff hc t, stuff_cons _ (by simp [hc]), beq_self_eq_true, stuff_dot]
      rfl
    · have hpre : ¬ [c, 46] <+: b :: d :: t := by
        simpa [List.cons_prefix_cons, eq_comm] using h
      rw [replace_cons_skip hpre, replace_eq_stuff hc (d :: t),
        stuff_cons _ (show ¬ (false = true ∧ b = 46) by simp) (d :: t)]
      by_cases hb : b = c
      · have hd : (d :: t).head? ≠ some 46 := by simpa using fun hd => h ⟨hb, hd⟩
        rw [show (b == c) = true by simpa using hb, stuff_true_of_head _ hd]
      · rw [show (b == c) = false by simpa using hb]

/-- **`escape_dot` is one pass.** It doubles the `.` that starts the text and every `.` after a CR
or an LF. -/
theorem escapeDot_eq_stuff (s : List UInt8) : escapeDot s = stuff isBreak true s := by
  have hfirst : (if s.head? = some 46 then 46 :: s else s) = stuff (fun _ => false) true s := by
    cases s with
    | nil => rfl
    | cons b t =>
      by_cases hb : b = 46
      · subst hb; simp [stuff_dot, stuff_never]
      · simp [hb, stuff_cons _ (show ¬ (true = true ∧ b = 46) by simp [hb]), stuff_never]
  rw [escapeDot, hfirst, replace_eq_stuff (by decide), replace_eq_stuff (by decide),
    stuff_stuff _ _ (by simp) rfl rfl _ _ _ (by simp),
    stuff_stuff _ _ (fun b => by by_cases h : b = 13 <;> simp [h]) rfl rfl _ _ _ (by simp)]
  rfl

/-! ### No early terminator -/

theorem getLast?_cons_elim {β : Type} (y : UInt8) (a : List UInt8) (x : β) (p : UInt8 → β) :
    (y :: a).getLast?.elim x p = a.getLast?.elim (p y) p := by
  cases a with
  | nil => rfl
  | cons z a => simp [List.getLast?_cons_cons, List.getLast?_cons]

/-- In the output of a pass, a `.` where the pass would stuff one (at the start when `x`, after a
byte in `p`) is followed by a second `.`. -/
theorem stuff_dot_followed {p : UInt8 → Bool} (hp : p 46 = false) :
    ∀ (s : List UInt8) (x : Bool) (a b : List UInt8), stuff p x s = a ++ 46 :: b →
      a.getLast?.elim x p = true → b.head? = some 46
  | [], _, a, b, h, _ => by cases a <;> cases h
  | y :: s, x, a, b, h, ha => by
    by_cases hx : x = true ∧ y = 46
    · rw [hx.1, hx.2, stuff_dot] at h
      rcases a with _ | ⟨a0, _ | ⟨a1, a⟩⟩
      · cases h; rfl
      · simp only [List.singleton_append, List.cons.injEq] at h
        rw [← h.1, getLast?_cons_elim, hp] at ha
        cases ha
      · simp only [List.cons_append, List.cons.injEq] at h
        obtain ⟨rfl, rfl, h⟩ := h
        rw [getLast?_cons_elim, getLast?_cons_elim, hp] at ha
        exact stuff_dot_followed hp s false a b h ha
    · rw [stuff_cons p hx] at h
      rcases a with _ | ⟨a0, a⟩
      · simp only [List.nil_append, List.cons.injEq] at h
        exact absurd ⟨ha, h.1⟩ hx
      · simp only [List.cons_append, List.cons.injEq] at h
        rw [getLast?_cons_elim, ← h.1] at ha
        exact stuff_dot_followed hp s (p y) a b h.2 ha

/-- The terminator holds one `.`, after its CRLF. -/
theorem messageEnding_eq_append {a b : List UInt8} (h : messageEnding = a ++ 46 :: b) :
    a = [13, 10] ∧ b = [13, 10] := by
  rcases a with _ | ⟨x, _ | ⟨y, _ | ⟨z, _ | ⟨u, _ | ⟨v, t⟩⟩⟩⟩⟩ <;> simp [messageEnding] at h
  obtain ⟨rfl, rfl, rfl⟩ := h
  simp

/-- **No line of a lone `.` before the terminator.** In `escape_dot s` followed by the terminator,
a `.` that starts the bytes or follows a CR or an LF is followed by a second `.`, unless it is the
terminator's own. So a `.` at the start of a line, however lines are split, that is followed by
a CR or an LF is the terminator's. -/
theorem escapeDot_dot_stuffed (s a b : List UInt8) (h : escapeDot s ++ messageEnding = a ++ 46 :: b)
    (ha : a = [] ∨ a.getLast? = some 13 ∨ a.getLast? = some 10) :
    (b.head? = some 46 ∨ (a = escapeDot s ++ [13, 10] ∧ b = [13, 10])) ∧
      (b.head? = some 13 ∨ b.head? = some 10 → a = escapeDot s ++ [13, 10] ∧ b = [13, 10]) := by
  have key : b.head? = some 46 ∨ (a = escapeDot s ++ [13, 10] ∧ b = [13, 10]) := by
    rcases List.append_eq_append_iff.mp h with ⟨t, rfl, ht⟩ | ⟨c, hc, hb⟩
    · obtain ⟨rfl, rfl⟩ := messageEnding_eq_append ht
      exact .inr ⟨rfl, rfl⟩
    · rcases c with _ | ⟨c0, c⟩
      · simp [messageEnding] at hb
      · simp only [List.cons_append, List.cons.injEq] at hb
        obtain ⟨rfl, rfl⟩ := hb
        rw [escapeDot_eq_stuff] at hc
        have hstart : a.getLast?.elim true isBreak = true := by
          rcases ha with rfl | ha | ha
          · rfl
          all_goals rw [ha]; rfl
        have := stuff_dot_followed rfl s true a c hc hstart
        cases c with
        | nil => cases this
        | cons => exact .inl this
  refine ⟨key, fun hbr => key.resolve_left ?_⟩
  rcases hbr with hbr | hbr <;> rw [hbr] <;> decide

theorem escapeDot_dot_stuffed_dot :
    (escapeDot [46] ++ messageEnding = [] ++ 46 :: [46, 13, 10, 46, 13, 10] ∧
      (([] : List UInt8) = [] ∨ ([] : List UInt8).getLast? = some 13 ∨
        ([] : List UInt8).getLast? = some 10)) ∧
    (([46, 13, 10, 46, 13, 10] : List UInt8).head? = some 46 ∨
      ([] = escapeDot [46] ++ [13, 10] ∧ [46, 13, 10, 46, 13, 10] = ([13, 10] : List UInt8))) ∧
    (([46, 13, 10, 46, 13, 10] : List UInt8).head? = some 13 ∨
      ([46, 13, 10, 46, 13, 10] : List UInt8).head? = some 10 →
        [] = escapeDot [46] ++ [13, 10] ∧ [46, 13, 10, 46, 13, 10] = ([13, 10] : List UInt8)) :=
  ⟨⟨by decide, .inl rfl⟩, escapeDot_dot_stuffed [46] [] _ (by decide) (.inl rfl)⟩

/-! ### The receiver -/

/-- The lines of a text split at CRLF, as `str::split("\r\n")` gives them; `line` is the line
so far. -/
def splitCrlf (line : List UInt8) : List UInt8 → List (List UInt8)
  | [] => [line]
  | [b] => [line ++ [b]]
  | b :: c :: w =>
    if b = 13 ∧ c = 10 then line :: splitCrlf [] w else splitCrlf (line ++ [b]) (c :: w)

/-- A line as an RFC 5321 §4.5.2 receiver keeps it: one leading `.` removed. -/
def unstuff (line : List UInt8) : List UInt8 := if line.head? = some 46 then line.tail else line

/-- An RFC 5321 §4.5.2 receiver of the DATA phase. It splits its input at CRLF, stops at the
first line that is a lone `.`, and keeps every other line with one leading `.` removed and
followed by CRLF. It returns what it kept and what follows the terminator line, or none when no
terminator line comes; `line` is the line so far. -/
def receiveData (line : List UInt8) : List UInt8 → Option (List UInt8 × List UInt8)
  | [] => none
  | [_] => none
  | b :: c :: w =>
    if b = 13 ∧ c = 10 then
      if line = [46] then some ([], w)
      else (receiveData [] w).map fun r => (unstuff line ++ [13, 10] ++ r.1, r.2)
    else receiveData (line ++ [b]) (c :: w)

/-- The receiver reads a CRLF-free text up to the CRLF after it. -/
theorem receiveData_line :
    ∀ {l : List UInt8} (line w : List UInt8), NoCRLF l →
      receiveData line (l ++ 13 :: 10 :: w) =
        if line ++ l = [46] then some ([], w)
        else (receiveData [] w).map fun r => (unstuff (line ++ l) ++ [13, 10] ++ r.1, r.2)
  | [], line, w, _ => by simp [receiveData]
  | x :: l, line, w, hl => by
    obtain ⟨hx, hl⟩ := noCRLF_cons.mp hl
    have hnot : ¬ (x = 13 ∧ (l ++ 13 :: 10 :: w).head? = some 10) := by
      cases l with
      | nil => simp
      | cons => simpa using hx
    obtain ⟨y, t, hyt⟩ : ∃ y t, l ++ 13 :: 10 :: w = y :: t := by cases l <;> simp
    rw [hyt] at hnot
    rw [List.cons_append, hyt, receiveData, if_neg (by simpa using hnot), ← hyt,
      receiveData_line (line ++ [x]) w hl]
    simp

theorem splitCrlf_line :
    ∀ {l : List UInt8} (line w : List UInt8), NoCRLF l →
      splitCrlf line (l ++ 13 :: 10 :: w) = (line ++ l) :: splitCrlf [] w
  | [], line, w, _ => by simp [splitCrlf]
  | x :: l, line, w, hl => by
    obtain ⟨hx, hl⟩ := noCRLF_cons.mp hl
    have hnot : ¬ (x = 13 ∧ (l ++ 13 :: 10 :: w).head? = some 10) := by
      cases l with
      | nil => simp
      | cons => simpa using hx
    obtain ⟨y, t, hyt⟩ : ∃ y t, l ++ 13 :: 10 :: w = y :: t := by cases l <;> simp
    rw [hyt] at hnot
    rw [List.cons_append, hyt, splitCrlf, if_neg (by simpa using hnot), ← hyt,
      splitCrlf_line (line ++ [x]) w hl]
    simp

theorem splitCrlf_last : ∀ {l : List UInt8} (line : List UInt8), NoCRLF l →
    splitCrlf line l = [line ++ l]
  | [], line, _ => by simp [splitCrlf]
  | [x], line, _ => rfl
  | x :: y :: l, line, hl => by
    obtain ⟨hx, hl⟩ := noCRLF_cons.mp hl
    rw [splitCrlf, if_neg (by simpa using hx), splitCrlf_last (line ++ [x]) hl]
    simp

/-- A text is CRLF-free, or it has a first CRLF. -/
theorem noCRLF_or_first_crlf :
    ∀ (b : List UInt8), NoCRLF b ∨ ∃ l t, b = l ++ 13 :: 10 :: t ∧ NoCRLF l
  | [] => .inl noCRLF_nil
  | x :: b => by
    by_cases hx : x = 13 ∧ b.head? = some 10
    · obtain ⟨rfl, hb⟩ := hx
      obtain ⟨t, rfl⟩ : ∃ t, b = 10 :: t := by
        cases b with
        | nil => cases hb
        | cons y t => cases hb; exact ⟨t, rfl⟩
      exact .inr ⟨[], t, rfl, noCRLF_nil⟩
    · rcases noCRLF_or_first_crlf b with hb | ⟨l, t, rfl, hl⟩
      · exact .inl (noCRLF_cons.mpr ⟨hx, hb⟩)
      · by_cases hl' : x = 13 ∧ l.head? = some 10
        · obtain ⟨l', rfl⟩ : ∃ l', l = 10 :: l' := by
            obtain ⟨-, h⟩ := hl'
            cases l with
            | nil => cases h
            | cons y l' => cases h; exact ⟨l', rfl⟩
          exact .inr ⟨[], l' ++ 13 :: 10 :: t, by rw [hl'.1]; rfl, noCRLF_nil⟩
        · exact .inr ⟨x :: l, t, rfl, noCRLF_cons.mpr ⟨hl', hl⟩⟩

theorem stuff_append_crlf (p : UInt8 → Bool) (hp : p 10 = true) :
    ∀ (l t : List UInt8) (x : Bool), stuff p x (l ++ 13 :: 10 :: t) =
      stuff p x l ++ 13 :: 10 :: stuff p true t
  | [], t, x => by rw [List.nil_append, stuff_cons p (by simp), stuff_cons p (by simp), hp]; rfl
  | y :: l, t, x => by
    by_cases h : x = true ∧ y = 46
    · rw [h.1, h.2, List.cons_append, stuff_dot, stuff_dot, stuff_append_crlf p hp l t false]
      rfl
    · rw [List.cons_append, stuff_cons p h, stuff_cons p h, stuff_append_crlf p hp l t (p y)]
      rfl

/-- A pass only puts `.` after `.`, so it makes no CRLF. -/
theorem noCRLF_stuff (p : UInt8 → Bool) :
    ∀ {l : List UInt8} (x : Bool), NoCRLF l → NoCRLF (stuff p x l)
  | [], _, _ => noCRLF_nil
  | y :: l, x, hl => by
    obtain ⟨hy, hl⟩ := noCRLF_cons.mp hl
    have hhead : ∀ x', (stuff p x' l).head? = l.head? := by
      intro x'
      cases l with
      | nil => rfl
      | cons z l =>
        by_cases h : x' = true ∧ z = 46
        · rw [h.1, h.2, stuff_dot]; rfl
        · rw [stuff_cons p h]; rfl
    by_cases h : x = true ∧ y = 46
    · rw [h.1, h.2, stuff_dot]
      exact noCRLF_cons.mpr ⟨by simp, noCRLF_cons.mpr ⟨by simp, noCRLF_stuff p false hl⟩⟩
    · rw [stuff_cons p h]
      exact noCRLF_cons.mpr ⟨by rwa [hhead], noCRLF_stuff p (p y) hl⟩

theorem unstuff_stuff (p : UInt8 → Bool) (hp : p 46 = false) (l : List UInt8) :
    unstuff (stuff p true l) = stuff p false l := by
  cases l with
  | nil => rfl
  | cons y l =>
    by_cases hy : y = 46
    · subst hy
      rw [stuff_dot, stuff_cons p (by simp), hp]
      rfl
    · rw [stuff_cons p (by simp [hy]), stuff_cons p (by simp [hy])]
      simp [unstuff, hy]

theorem stuff_ne_dot (p : UInt8 → Bool) (l : List UInt8) : stuff p true l ≠ [46] := by
  cases l with
  | nil => simp
  | cons y l =>
    by_cases hy : y = 46
    · subst hy; rw [stuff_dot]; simp
    · rw [stuff_cons p (by simp [hy])]; simp [hy]

/-- **What a receiver gets.** The receiver stops exactly at the terminator after `escape_dot b`,
and yields every CRLF-separated line of `b` followed by CRLF, each line with a second `.` after
every `.` that follows a CR or an LF inside it. -/
theorem receiveData_stuff (b : List UInt8) :
    receiveData [] (stuff isBreak true b ++ messageEnding) =
      some (((splitCrlf [] b).map fun l => stuff isBreak false l ++ [13, 10]).flatten, []) := by
  rcases noCRLF_or_first_crlf b with hb | ⟨l, t, hb, hl⟩
  · rw [messageEnding, receiveData_line [] _ (noCRLF_stuff _ _ hb), splitCrlf_last [] hb,
      List.nil_append, if_neg (stuff_ne_dot _ _), unstuff_stuff _ rfl]
    rfl
  · rw [hb, stuff_append_crlf _ rfl, List.append_assoc, List.cons_append, List.cons_append,
      receiveData_line [] _ (noCRLF_stuff _ _ hl), List.nil_append, if_neg (stuff_ne_dot _ _),
      receiveData_stuff t, splitCrlf_line [] t hl, unstuff_stuff _ rfl]
    simp
termination_by b.length
decreasing_by rw [hb]; simp; omega

theorem receiveData_escapeDot (b : List UInt8) :
    receiveData [] (escapeDot b ++ messageEnding) =
      some (((splitCrlf [] b).map fun l => stuff isBreak false l ++ [13, 10]).flatten, []) := by
  rw [escapeDot_eq_stuff, receiveData_stuff]

/-- The body CRLF comes back as two CRLFs: the receiver gets the body's two lines, the empty one
after the CRLF included, each followed by CRLF. -/
theorem receiveData_escapeDot_crlf :
    receiveData [] (escapeDot [13, 10] ++ messageEnding) ≠ some ([13, 10], []) := by
  decide

end Lettre.Transport.Smtp
