import Lettre.Message.Dkim
import Lettre.Transport.Smtp.DotStuffing

/-!
# The canonical body

`dkim_canonicalize_body` is three replacements by regular expression. `Simple` replaces the
leftmost match of `(\r\n)+$` by one CRLF; `Relaxed` first replaces every run `[\t ]+` by a space
and every `[\t ]\r\n` by CRLF, then does what `Simple` does. The `regex` crate's `$` matches only
at the end of the text, so a body that does not end in CRLF passes the last replacement as it is.

Every text is a text `u` that does not end in CRLF followed by `k` CRLFs
(`exists_trailing_crlfs`), and the last replacement takes it to `u`, followed by one CRLF when
`k` is not zero (`replaceTrailingCrlf_append`). Everything below is read off that.

* `dkimCanonicalizeBody_idempotent`: **canonicalizing twice is canonicalizing once**, in both
  modes. After the relaxed replacements every run of whitespace is one space (`Collapsed`) and no
  whitespace stands before a CRLF (`NoWspEol`); the first two replacements leave such a text as
  it is, and the last one only cuts it short (`replaceTrailingCrlf_prefix`).
* `simpleBody` and `relaxedBody` are RFC 6376 §3.4.3 and §3.4.4 in their own words.
  `dkimCanonicalizeBody_rfc6376`: the `simple` code agrees with `simpleBody` exactly on the
  bodies that end in CRLF, and on a non-empty body with no line feed the `relaxed` code never
  agrees with `relaxedBody`: it appends no CRLF and keeps the whitespace at the end of the line.
-/

namespace Lettre.Message

@[simp] theorem isWsp_cr : isWsp 13 = false := rfl

@[simp] theorem isWsp_lf : isWsp 10 = false := rfl

@[simp] theorem isWsp_space : isWsp 32 = true := rfl

/-! ### A trailing run of CRLFs -/

/-- `k` line ends. -/
def crlfs (k : Nat) : List UInt8 := (List.replicate k [13, 10]).flatten

@[simp] theorem crlfs_zero : crlfs 0 = [] := rfl

@[simp] theorem crlfs_one : crlfs 1 = [13, 10] := rfl

theorem crlfs_succ (k : Nat) : crlfs (k + 1) = 13 :: 10 :: crlfs k := rfl

theorem crlfs_add (a b : Nat) : crlfs (a + b) = crlfs a ++ crlfs b := by
  induction a with
  | zero => simp
  | succ a ih => rw [show a + 1 + b = a + b + 1 by omega, crlfs_succ, crlfs_succ, ih]; rfl

theorem length_crlfs (k : Nat) : (crlfs k).length = 2 * k := by
  induction k with
  | zero => rfl
  | succ k ih => rw [crlfs_succ, List.length_cons, List.length_cons, ih]; omega

theorem isCrlfRun_crlfs (k : Nat) : isCrlfRun (crlfs (k + 1)) = true := by
  induction k with
  | zero => rfl
  | succ k ih => exact ih

theorem isCrlfRun_eq_true {t : List UInt8} (h : isCrlfRun t = true) : ∃ k, t = crlfs (k + 1) := by
  induction t using isCrlfRun.induct with
  | case1 => exact ⟨0, rfl⟩
  | case2 s hs ih =>
    obtain ⟨b, s, rfl⟩ := List.exists_cons_of_ne_nil hs
    obtain ⟨k, hk⟩ := ih h
    exact ⟨k + 1, by rw [hk]; rfl⟩
  | case3 t h1 h2 =>
    unfold isCrlfRun at h
    split at h
    · exact absurd rfl h1
    · exact absurd rfl (h2 _)
    · cases h

/-- Every text is a text that does not end in CRLF, followed by a run of CRLFs. -/
theorem exists_trailing_crlfs (t : List UInt8) :
    ∃ u k, t = u ++ crlfs k ∧ ¬ [13, 10] <:+ u := by
  by_cases ht : [13, 10] <:+ t
  · obtain ⟨t', rfl⟩ := ht
    obtain ⟨u, k, rfl, hu⟩ := exists_trailing_crlfs t'
    exact ⟨u, k + 1, by rw [crlfs_add, List.append_assoc]; rfl, hu⟩
  · exact ⟨t, 0, by simp, ht⟩
termination_by t.length
decreasing_by simp_wf; subst_vars; simp

/-- A non-empty text that does not end in CRLF, followed by CRLFs, is no run of CRLFs. -/
theorem isCrlfRun_append_crlfs {u : List UInt8} (hu : ¬ [13, 10] <:+ u) (hne : u ≠ [])
    (k : Nat) : isCrlfRun (u ++ crlfs k) = false := by
  cases h : isCrlfRun (u ++ crlfs k)
  · rfl
  obtain ⟨m, hm⟩ := isCrlfRun_eq_true h
  have hlen := congrArg List.length hm
  have hu0 : 0 < u.length := List.length_pos.mpr hne
  simp only [List.length_append, length_crlfs] at hlen
  rw [show m + 1 = (m - k) + 1 + k by omega, crlfs_add] at hm
  rw [List.append_cancel_right hm, crlfs_add] at hu
  exact absurd (List.suffix_append _ _) hu

theorem replaceTrailingCrlf_cons (b : UInt8) (s : List UInt8) :
    replaceTrailingCrlf (b :: s) =
      if isCrlfRun (b :: s) then [13, 10] else b :: replaceTrailingCrlf s := rfl

/-- **The last replacement.** A text that does not end in CRLF, followed by `k` CRLFs, keeps its
text and one CRLF, or none when `k` is zero. -/
theorem replaceTrailingCrlf_append {u : List UInt8} (hu : ¬ [13, 10] <:+ u) (k : Nat) :
    replaceTrailingCrlf (u ++ crlfs k) = u ++ if k = 0 then [] else [13, 10] := by
  induction u with
  | nil =>
    cases k with
    | zero => rfl
    | succ k =>
      rw [List.nil_append, crlfs_succ, replaceTrailingCrlf_cons, ← crlfs_succ, isCrlfRun_crlfs]
      rfl
  | cons b u ih =>
    have hu' : ¬ [13, 10] <:+ u := fun h => hu (h.trans (List.suffix_cons b u))
    rw [List.cons_append, replaceTrailingCrlf_cons, ← List.cons_append,
      isCrlfRun_append_crlfs hu (List.cons_ne_nil b u), ih hu']
    rfl

theorem replaceTrailingCrlf_prefix (t : List UInt8) : replaceTrailingCrlf t <+: t := by
  obtain ⟨u, k, rfl, hu⟩ := exists_trailing_crlfs t
  rw [replaceTrailingCrlf_append hu]
  cases k with
  | zero => simp
  | succ k => exact (List.prefix_append_right_inj u).mpr ⟨crlfs k, rfl⟩

theorem replaceTrailingCrlf_idem (t : List UInt8) :
    replaceTrailingCrlf (replaceTrailingCrlf t) = replaceTrailingCrlf t := by
  obtain ⟨u, k, rfl, hu⟩ := exists_trailing_crlfs t
  rw [replaceTrailingCrlf_append hu]
  cases k with
  | zero => simpa using replaceTrailingCrlf_append hu 0
  | succ k => simpa using replaceTrailingCrlf_append hu 1

/-! ### Runs of whitespace -/

/-- Every run of tabs and spaces is one space, as `collapseWsp` leaves a text. `inRun` says the
byte before was whitespace. -/
def Collapsed : Bool → List UInt8 → Prop
  | _, [] => True
  | inRun, b :: s =>
    if isWsp b then inRun = false ∧ b = 32 ∧ Collapsed true s else Collapsed false s

theorem collapsed_collapseWsp : ∀ (inRun : Bool) (s : List UInt8),
    Collapsed inRun (collapseWsp inRun s)
  | _, [] => trivial
  | inRun, b :: s => by
    by_cases hb : isWsp b <;> cases inRun <;>
      simp [collapseWsp, Collapsed, hb, collapsed_collapseWsp]

theorem collapseWsp_of_collapsed : ∀ {inRun : Bool} {s : List UInt8},
    Collapsed inRun s → collapseWsp inRun s = s
  | _, [], _ => rfl
  | inRun, b :: s, h => by
    by_cases hb : isWsp b
    · simp only [Collapsed, hb, ↓reduceIte] at h
      obtain ⟨rfl, rfl, h⟩ := h
      simp [collapseWsp, collapseWsp_of_collapsed h]
    · simp only [Collapsed, hb] at h
      simp [collapseWsp, hb, collapseWsp_of_collapsed h]

theorem collapsed_of_prefix {inRun : Bool} {a b : List UInt8} (hab : a <+: b)
    (h : Collapsed inRun b) : Collapsed inRun a := by
  obtain ⟨c, rfl⟩ := hab
  induction a generalizing inRun with
  | nil => trivial
  | cons x a ih =>
    by_cases hx : isWsp x
    · simp only [List.cons_append, Collapsed, hx, ↓reduceIte] at h ⊢
      exact ⟨h.1, h.2.1, ih h.2.2⟩
    · simp only [List.cons_append, Collapsed, hx] at h ⊢
      exact ih h

/-! ### Whitespace before a line end -/

/-- No tab or space right before a CRLF: `[\t ]\r\n` does not match. -/
def NoWspEol : List UInt8 → Prop
  | [] => True
  | b :: s => ¬ (isWsp b = true ∧ [13, 10] <+: s) ∧ NoWspEol s

theorem noWspEol_of_prefix {a b : List UInt8} (hab : a <+: b) (h : NoWspEol b) : NoWspEol a := by
  obtain ⟨c, rfl⟩ := hab
  induction a with
  | nil => trivial
  | cons x a ih =>
    exact ⟨fun hx => h.1 ⟨hx.1, hx.2.trans (List.prefix_append _ _)⟩, ih h.2⟩

theorem noWspEol_of_not_mem {s : List UInt8} (h : (10 : UInt8) ∉ s) : NoWspEol s := by
  induction s with
  | nil => trivial
  | cons b s ih =>
    refine ⟨fun hb => h (List.mem_cons_of_mem b ?_), ih fun hs => h (List.mem_cons_of_mem b hs)⟩
    exact hb.2.subset (by simp)

theorem removeWspEol_eol {b : UInt8} (hb : isWsp b = true) (r : List UInt8) :
    removeWspEol (b :: 13 :: 10 :: r) = 13 :: 10 :: removeWspEol r := by
  simp [removeWspEol, removeWspEolAux, hb]

theorem removeWspEol_cons {b : UInt8} {s : List UInt8} (h : ¬ (isWsp b = true ∧ [13, 10] <+: s)) :
    removeWspEol (b :: s) = b :: removeWspEol s := by
  simp only [removeWspEol, removeWspEolAux, if_neg h]

/-- The cases of `removeWspEol`, as an induction principle: a whitespace byte before a line end
goes, any other byte stays. -/
theorem removeWspEol_induct {P : List UInt8 → Prop} (nil : P [])
    (eol : ∀ b r, isWsp b = true → P r → P (b :: 13 :: 10 :: r))
    (cons : ∀ b s, ¬ (isWsp b = true ∧ [13, 10] <+: s) → P s → P (b :: s)) (s : List UInt8) :
    P s := by
  suffices h : ∀ n (s : List UInt8), s.length ≤ n → P s from h _ s le_rfl
  intro n
  induction n with
  | zero => intro s hs; rw [List.length_eq_zero.mp (Nat.le_zero.mp hs)]; exact nil
  | succ n ih =>
    rintro (_ | ⟨b, s⟩) hs
    · exact nil
    by_cases hbs : isWsp b = true ∧ [13, 10] <+: s
    · obtain ⟨hb, t, rfl⟩ := hbs
      exact eol b t hb (ih t (by simp at hs; omega))
    · exact cons b s hbs (ih s (by simpa using hs))

theorem removeWspEol_of_noWspEol {s : List UInt8} (h : NoWspEol s) : removeWspEol s = s := by
  induction s using removeWspEol_induct with
  | nil => rfl
  | eol b r hb _ => exact absurd ⟨hb, ⟨r, rfl⟩⟩ h.1
  | cons b s hbs ih => rw [removeWspEol_cons hbs, ih h.2]

theorem collapsed_removeWspEol {s : List UInt8} :
    ∀ {inRun : Bool}, Collapsed inRun s → Collapsed inRun (removeWspEol s) := by
  induction s using removeWspEol_induct with
  | nil => exact fun h => h
  | eol b r hb ih =>
    intro inRun h
    simp only [Collapsed, hb, isWsp_cr, isWsp_lf, ↓reduceIte] at h
    rw [removeWspEol_eol hb]
    simpa only [Collapsed, isWsp_cr, isWsp_lf] using ih h.2.2
  | cons b s hbs ih =>
    intro inRun h
    rw [removeWspEol_cons hbs]
    by_cases hb : isWsp b
    · simp only [Collapsed, hb, ↓reduceIte] at h ⊢
      exact ⟨h.1, h.2.1, ih h.2.2⟩
    · simp only [Collapsed, hb] at h ⊢
      exact ih h

/-- A CRLF that starts the text after `removeWspEol` started it before, or stood behind a
whitespace byte that went. -/
theorem crlf_prefix_of_removeWspEol {s : List UInt8} (h : [13, 10] <+: removeWspEol s) :
    [13, 10] <+: s ∨ ∃ b r, isWsp b = true ∧ s = b :: 13 :: 10 :: r := by
  rcases s with _ | ⟨b, s⟩
  · exact absurd (List.eq_nil_of_prefix_nil h) (by simp)
  by_cases hbs : isWsp b = true ∧ [13, 10] <+: s
  · obtain ⟨hb, t, rfl⟩ := hbs
    exact .inr ⟨b, t, hb, rfl⟩
  rw [removeWspEol_cons hbs] at h
  obtain ⟨rfl, h10⟩ := List.cons_prefix_cons.mp h
  refine .inl (List.cons_prefix_cons.mpr ⟨rfl, ?_⟩)
  rcases s with _ | ⟨c, s⟩
  · exact absurd (List.eq_nil_of_prefix_nil h10) (by simp)
  by_cases hcs : isWsp c = true ∧ [13, 10] <+: s
  · obtain ⟨hc, t, rfl⟩ := hcs
    change [10] <+: removeWspEol (c :: 13 :: 10 :: t) at h10
    rw [removeWspEol_eol hc] at h10
    simp at h10
  · rw [removeWspEol_cons hcs] at h10
    obtain ⟨rfl, -⟩ := List.cons_prefix_cons.mp h10
    exact List.cons_prefix_cons.mpr ⟨rfl, List.nil_prefix⟩

theorem noWspEol_removeWspEol {s : List UInt8} :
    ∀ {inRun : Bool}, Collapsed inRun s → NoWspEol (removeWspEol s) := by
  induction s using removeWspEol_induct with
  | nil => exact fun _ => trivial
  | eol b r hb ih =>
    intro inRun h
    simp only [Collapsed, hb, isWsp_cr, isWsp_lf, ↓reduceIte] at h
    rw [removeWspEol_eol hb]
    exact ⟨by simp, by simp, ih h.2.2⟩
  | cons b s hbs ih =>
    intro inRun h
    rw [removeWspEol_cons hbs]
    by_cases hb : isWsp b
    · simp only [Collapsed, hb, ↓reduceIte] at h
      refine ⟨fun ⟨_, hcrlf⟩ => ?_, ih h.2.2⟩
      rcases crlf_prefix_of_removeWspEol hcrlf with hs | ⟨c, r, hc, rfl⟩
      · exact hbs ⟨hb, hs⟩
      · simp [Collapsed, hc] at h
    · simp only [Collapsed, hb] at h
      exact ⟨fun h' => absurd h'.1 hb, ih h⟩

/-! ### Idempotence -/

/-- **Canonicalizing twice is canonicalizing once**, for every body and in both modes. -/
theorem dkimCanonicalizeBody_idempotent (body : List UInt8) (c : DkimCanonicalizationType) :
    dkimCanonicalizeBody (dkimCanonicalizeBody body c) c = dkimCanonicalizeBody body c := by
  cases c with
  | simple => exact replaceTrailingCrlf_idem body
  | relaxed =>
    -- after the first two replacements, and after the last one, which only cuts the text short
    have hc := collapsed_collapseWsp false body
    have hu := replaceTrailingCrlf_prefix (removeWspEol (collapseWsp false body))
    have hc' := collapsed_of_prefix hu (collapsed_removeWspEol hc)
    have hn' := noWspEol_of_prefix hu (noWspEol_removeWspEol hc)
    simp only [dkimCanonicalizeBody]
    rw [collapseWsp_of_collapsed hc', removeWspEol_of_noWspEol hn', replaceTrailingCrlf_idem]

/-! ### RFC 6376 §3.4.3 and §3.4.4 -/

/-- Removes trailing CRLFs one after another, at most `fuel` of them. -/
def stripTrailingCrlfsAux : Nat → List UInt8 → List UInt8
  | 0, b => b
  | fuel + 1, b => if [13, 10] <:+ b then stripTrailingCrlfsAux fuel b.dropLast.dropLast else b

/-- A text with its trailing run of CRLFs removed. -/
def stripTrailingCrlfs (b : List UInt8) : List UInt8 := stripTrailingCrlfsAux b.length b

/-- RFC 6376 §3.4.3, the `simple` body: the empty lines at its end removed, and one CRLF at its
end, also when it is empty or ends without one. -/
def simpleBody (body : List UInt8) : List UInt8 := stripTrailingCrlfs body ++ [13, 10]

/-- RFC 6376 §3.4.4, the `relaxed` body: in every line each run of tabs and spaces is one space
and the whitespace at the line's end is removed; then the empty lines at the end are removed, and
one CRLF ends the body unless it is empty. -/
def relaxedBody (body : List UInt8) : List UInt8 :=
  let t := stripTrailingCrlfs ([13, 10].intercalate ((Transport.Smtp.splitCrlf [] body).map
    fun line => (collapseWsp false line).rdropWhile isWsp))
  if t = [] then [] else t ++ [13, 10]

theorem crlf_suffix_append_crlfs {u : List UInt8} (hu : ¬ [13, 10] <:+ u) (k : Nat) :
    [13, 10] <:+ u ++ crlfs k ↔ k ≠ 0 := by
  cases k with
  | zero => simpa using hu
  | succ k => simpa [crlfs_add k 1] using List.suffix_append (u ++ crlfs k) [13, 10]

theorem stripTrailingCrlfsAux_append {u : List UInt8} (hu : ¬ [13, 10] <:+ u) :
    ∀ {k fuel : Nat}, k ≤ fuel → stripTrailingCrlfsAux fuel (u ++ crlfs k) = u
  | 0, 0, _ => by simp [stripTrailingCrlfsAux]
  | 0, _ + 1, _ => by simp [stripTrailingCrlfsAux, hu]
  | k + 1, fuel + 1, hk => by
    have hd : (u ++ crlfs (k + 1)).dropLast.dropLast = u ++ crlfs k := by
      rw [crlfs_add k 1, crlfs_one, show u ++ (crlfs k ++ [13, 10]) = (u ++ crlfs k ++ [13]) ++ [10]
        by simp, List.dropLast_concat, List.dropLast_concat]
    rw [stripTrailingCrlfsAux, if_pos ((crlf_suffix_append_crlfs hu _).mpr k.succ_ne_zero), hd]
    exact stripTrailingCrlfsAux_append hu (by omega)

theorem stripTrailingCrlfs_append {u : List UInt8} (hu : ¬ [13, 10] <:+ u) (k : Nat) :
    stripTrailingCrlfs (u ++ crlfs k) = u :=
  stripTrailingCrlfsAux_append hu (by simp [length_crlfs]; omega)

theorem mem_collapseWsp_cases {x : UInt8} :
    ∀ {inRun : Bool} {s : List UInt8}, x ∈ collapseWsp inRun s → x ∈ s ∨ x = 32
  | _, [], h => by cases h
  | inRun, b :: s, h => by
    unfold collapseWsp at h
    split_ifs at h with hb hr
    · exact (mem_collapseWsp_cases h).imp_left (List.mem_cons_of_mem b)
    · rcases List.mem_cons.mp h with rfl | h
      · exact .inr rfl
      · exact (mem_collapseWsp_cases h).imp_left (List.mem_cons_of_mem b)
    · rcases List.mem_cons.mp h with rfl | h
      · exact .inl (List.mem_cons_self x s)
      · exact (mem_collapseWsp_cases h).imp_left (List.mem_cons_of_mem b)

theorem collapseWsp_ne_nil {s : List UInt8} (h : s ≠ []) : collapseWsp false s ≠ [] := by
  obtain ⟨b, s, rfl⟩ := List.exists_cons_of_ne_nil h
  cases hb : isWsp b <;> simp [collapseWsp, hb]

/-- **The code is not RFC 6376 §3.4.** `simple` agrees with the RFC exactly on the bodies that
end in CRLF: a body that does not, the empty body included, gains no CRLF. And on every
non-empty body with no line feed, `relaxed` disagrees with the RFC: it keeps the line's
trailing whitespace and appends no CRLF. -/
theorem dkimCanonicalizeBody_rfc6376 :
    (∀ body, dkimCanonicalizeBody body .simple = simpleBody body ↔ [13, 10] <:+ body) ∧
    (∀ body, body ≠ [] → (10 : UInt8) ∉ body →
      dkimCanonicalizeBody body .relaxed ≠ relaxedBody body) := by
  refine ⟨fun body => ?_, fun body hne h10 => ?_⟩
  · obtain ⟨u, k, rfl, hu⟩ := exists_trailing_crlfs body
    rw [dkimCanonicalizeBody, simpleBody, replaceTrailingCrlf_append hu,
      stripTrailingCrlfs_append hu, crlf_suffix_append_crlfs hu]
    cases k <;> simp
  -- the code: the runs collapsed, and nothing else
  set c := collapseWsp false body
  have hc10 : (10 : UInt8) ∉ c := fun h => by
    rcases mem_collapseWsp_cases h with h | h
    · exact h10 h
    · cases h
  have hnosuf : ∀ {t : List UInt8}, t <+: c → ¬ [13, 10] <:+ t :=
    fun ht hs => hc10 (ht.subset (hs.subset (by simp)))
  have hcode : dkimCanonicalizeBody body .relaxed = c := by
    rw [dkimCanonicalizeBody, removeWspEol_of_noWspEol (noWspEol_of_not_mem hc10)]
    simpa using replaceTrailingCrlf_append (hnosuf (List.prefix_refl c)) 0
  -- the RFC: one line, its trailing whitespace removed, then CRLF unless it is empty
  have hline : Transport.Smtp.splitCrlf [] body = [body] :=
    Transport.Smtp.splitCrlf_last [] fun h => h10 (h.subset (by simp))
  have hx := hnosuf (List.rdropWhile_prefix isWsp c)
  have hstrip := stripTrailingCrlfs_append hx 0
  rw [crlfs_zero, List.append_nil] at hstrip
  rw [hcode, relaxedBody]
  simp only [hline, List.map_cons, List.map_nil, List.intercalate, List.intersperse_singleton,
    List.flatten_cons, List.flatten_nil, List.append_nil, hstrip]
  split_ifs with hnil
  · exact collapseWsp_ne_nil hne
  · exact fun h => hc10 (h ▸ by simp)

theorem dkimCanonicalizeBody_rfc6376_at_a :
    ¬ [13, 10] <:+ ([97] : List UInt8) ∧
      dkimCanonicalizeBody [97] .simple ≠ simpleBody [97] ∧
    (([97, 32] : List UInt8) ≠ [] ∧ (10 : UInt8) ∉ ([97, 32] : List UInt8) ∧
      dkimCanonicalizeBody [97, 32] .relaxed ≠ relaxedBody [97, 32]) :=
  ⟨by decide, fun h => absurd ((dkimCanonicalizeBody_rfc6376.1 [97]).mp h) (by decide),
    by decide, by decide, dkimCanonicalizeBody_rfc6376.2 [97, 32] (by decide) (by decide)⟩

end Lettre.Message
